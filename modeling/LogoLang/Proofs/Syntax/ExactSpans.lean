import LogoLang.Proofs.Syntax.Excerpt

set_option autoImplicit false

/-! # The places of an expression are exact

The places in the tree of an expression say where it stands: its words lie in the line one after the
other with nothing but spaces between them, and the text that a place covers is read as the node again
(`exact_of_readExpr?`). -/

namespace LogoLang

/-! ## Rows of words -/

/-- There is nothing but spaces and tabs between two positions of a line. -/
def SpacesBetween (text : Text) (first next : Nat) : Prop :=
  first ≤ next ∧ ∀ i x, first ≤ i → i < next → text[i]? = some x → isSpace x = true

/-- From one position of a line to another there are words at the given places, one after the other, and
    nothing but spaces before, between and after them. -/
def Spaced (text : Text) (first : Nat) : List Span → Nat → Prop
  | [], next => SpacesBetween text first next
  | token :: rest, next =>
    SpacesBetween text first token.start ∧ Spaced text token.stop rest next

section Spaced

variable {text : Text} {c after : Cursor}

theorem Cursor.IsOn.spacesBetween (hc : c.IsOn text) :
    SpacesBetween text c.pos c.skipSpaces.pos := by
  refine ⟨(Cursor.movesTo_skipSpaces c).pos_le, fun i x hfirst hnext hx => ?_⟩
  have hlength : i - c.pos < (c.rest.takeWhile isSpace).length := by
    simp only [Cursor.skipSpaces, Cursor.advance] at hnext
    omega
  have hrest : c.rest[i - c.pos]? = some x := by
    rw [hc, List.getElem?_drop, Nat.add_sub_of_le hfirst, hx]
  rw [← List.takeWhile_append_dropWhile (p := isSpace) (l := c.rest),
    List.getElem?_append_left hlength] at hrest
  exact List.mem_takeWhile_imp (List.mem_of_getElem? hrest)

theorem Cursor.Passes.spaced {tokens : List Span} (h : c.Passes tokens after) (hc : c.IsOn text) :
    Spaced text c.pos tokens after.pos := by
  induction tokens generalizing c with
  | nil =>
    cases h
    exact hc.spacesBetween
  | cons token rest ih =>
    obtain ⟨hstart, _, _, hrest⟩ := h
    refine ⟨?_, ?_⟩
    · rw [hstart]
      exact hc.spacesBetween
    · have hspaced := ih hrest (hc.skipSpaces.advance _)
      rwa [Cursor.advance, ← hstart] at hspaced

/-- Every character between the two positions that is not a space belongs to a word. -/
theorem Spaced.exists_token {first next : Nat} {tokens : List Span} (h : Spaced text first tokens next)
    {i : Nat} {x : Char} (hfirst : first ≤ i) (hnext : i < next) (hx : text[i]? = some x)
    (hspace : isSpace x = false) : ∃ token ∈ tokens, token.start ≤ i ∧ i < token.stop := by
  have hspaces : ∀ {p q}, SpacesBetween text p q → p ≤ i → q ≤ i := fun hbetween hp =>
    Nat.le_of_not_lt fun hq => by simp [hbetween.2 i x hp hq hx] at hspace
  induction tokens generalizing first with
  | nil => exact absurd hnext (Nat.not_lt.2 (hspaces h hfirst))
  | cons token rest ih =>
    have hstart := hspaces h.1 hfirst
    by_cases hstop : i < token.stop
    · exact ⟨token, List.mem_cons_self, hstart, hstop⟩
    · obtain ⟨token', hmem, htoken⟩ := ih h.2 (Nat.le_of_not_lt hstop)
      exact ⟨token', List.mem_cons_of_mem _ hmem, htoken⟩

end Spaced

/-! ## Excerpts -/

/-- The text at a place of a line. -/
def Span.excerpt (span : Span) (text : Text) : Text := (text.drop span.start).take span.length

section Excerpts

variable {text : Text} {c after : Cursor} {e : Expr}

/-- An expression starts at the first character that is not a space. -/
theorem start_of_readExpr? (h : readExpr? c = some (e, after)) : e.span.start = c.skipSpaces.pos := by
  have hparses := Cursor.parses_of_readExpr? h
  cases hparses with
  | before hleaf => exact (readsWord_of_readLeafBefore? hleaf).start_eq
  | binary _ hop _ _ => exact (Cursor.start_of_oneOf? hop :)
  | after _ _ hleaf => exact (readsWord_of_readLeafAfter? hleaf).start_eq
  | missing hnone => exact absurd (hnone.symm.trans h) (by simp)

/-- An expression ends inside its line. -/
theorem Cursor.IsOn.pos_le_length (hc : c.IsOn text) (h : readExpr? c = some (e, after)) :
    after.pos ≤ text.length := by
  have hmove := (reads_of_readExprWith? h).takes.moves
  have hspaces : c.rest ≠ [] := by
    intro hnil
    rw [readExpr?_nil hnil] at h
    exact absurd h (by simp)
  have hpos := List.length_pos_iff.2 hspaces
  have hend := hmove.stop_eq
  rw [Cursor.IsOn] at hc
  simp only [Cursor.stop, hc, List.length_drop] at hend hpos
  omega

/-- Where the excerpt stands in its line is where the expression was read. -/
theorem Cursor.IsOn.embed_excerpt (hc : c.IsOn text) (hstart : e.span.start = c.skipSpaces.pos) :
    (Cursor.start (e.span.excerpt text)).embed e.span.start (text.drop e.span.stop) =
      c.skipSpaces := by
  have hrest : e.span.excerpt text ++ text.drop e.span.stop = c.skipSpaces.rest := by
    rw [hc.skipSpaces, ← hstart, Span.excerpt, Span.stop, ← List.drop_drop, List.take_append_drop]
  have hpos : 0 + e.span.start = c.skipSpaces.pos := by rw [Nat.zero_add, hstart]
  rw [Cursor.embed, Cursor.start, hrest, hpos]

/-- **The text at the place of an expression without a flaw is read as that expression**, up to its
    end. -/
theorem exists_readExpr?_excerpt (hc : c.IsOn text) (h : readExpr? c = some (e, after))
    (hflaw : e.firstFlaw? = none) :
    ∃ alone, readExpr? (Cursor.start (e.span.excerpt text)) = some (alone, ⟨e.span.length, []⟩) ∧
      alone.shift e.span.start = e := by
  have hembed := hc.embed_excerpt (start_of_readExpr? h)
  have hlength : (e.span.excerpt text).length = e.span.length := by
    have hstop := Nat.le_trans (reads_of_readExprWith? h).takes.stop_le (hc.pos_le_length h)
    rw [Span.excerpt, List.length_take, List.length_drop]
    simp only [Span.stop] at hstop
    omega
  have hend : (Cursor.start (e.span.excerpt text)).stop = e.span.length := by
    rw [Cursor.stop, Cursor.start, hlength, Nat.zero_add]
  have hstop : e.span.stop ≤ (Cursor.start (e.span.excerpt text)).stop + e.span.start := by
    rw [hend, Span.stop, Nat.add_comm]
  have hspaces := congrArg Cursor.skipSpaces hembed
  rw [Cursor.skipSpaces_idem] at hspaces
  obtain ⟨⟨alone, next⟩, hread, heq⟩ :=
    (Cursor.parses_of_readExpr? h).excerpt hflaw hspaces.symm hstop
  have halone : alone.shift e.span.start = e := (congrArg Prod.fst heq).symm
  -- the expression ends where the excerpt ends, so that nothing is left
  have htakes := (reads_of_readExprWith? hread).takes
  have hnext : next = ⟨e.span.length, []⟩ := by
    have hspan : e.span = alone.span.shift e.span.start := by rw [← Expr.span_shift, halone]
    have hle := htakes.stop_le
    have hall := htakes.moves.stop_eq.trans hend
    have hlength' := congrArg Span.length hspan
    have hstart' := congrArg Span.start hspan
    simp only [Span.shift, Span.stop, Cursor.stop] at hlength' hstart' hle hall
    obtain ⟨pos, rest⟩ := next
    simp only [Cursor.mk.injEq, ← List.length_eq_zero_iff]
    simp only at hle hall
    omega
  rw [hnext] at hread
  exact ⟨alone, hread, halone⟩

end Excerpts

/-! ## Exact places -/

/-- The places in the tree of an expression are exact: `first` is where the expression starts in its line
    and `next` the position after it and the spaces that follow. -/
structure Expr.Exact (text : Text) (first next : Nat) (expr : Expr) : Prop where
  start : expr.span.start = first
  bound : next ≤ text.length
  within : ∀ node ∈ expr.nodes, first ≤ node.span.start ∧ node.span.stop ≤ next
  ordered : ∀ op left right span, .binary op left right span ∈ expr.nodes →
    OperandsFollow text op left right span
  spaced : Spaced text first expr.tokens next
  covered : ∀ i x, first ≤ i → i < next → text[i]? = some x → isSpace x = false →
    ∃ token ∈ expr.tokens, token.start ≤ i ∧ i < token.stop
  reread : ∀ node ∈ expr.nodes, node.IsErrorFree → ∃ alone,
    readExpr? (Cursor.at (node.span.excerpt text) 0) = some (alone, ⟨node.span.length, []⟩) ∧
      alone.shift node.span.start = node

/-- **The places of whatever is read as an expression are exact.** -/
theorem exact_of_readExpr? {text : Text} {pos : Nat} {expr : Expr} {c : Cursor}
    (h : readExpr? (Cursor.at text pos) = some (expr, c)) :
    expr.Exact text (Cursor.at text pos).skipSpaces.pos c.pos := by
  have hon := (Cursor.isOn_at text pos).skipSpaces
  have hparses := Cursor.parses_skipSpaces_of_readExpr? h
  have hspaced : Spaced text (Cursor.at text pos).skipSpaces.pos expr.tokens c.pos :=
    (hparses.passes (Cursor.skipSpaces_idem _)).spaced hon
  refine ⟨start_of_readExpr? h, (Cursor.isOn_at text pos).pos_le_length h, hparses.within, ?_,
    hspaced, fun i x hfirst hnext => hspaced.exists_token hfirst hnext, ?_⟩
  · intro op left right span hnode
    obtain ⟨c', after, hon', hread⟩ := hparses.exists_of_mem_nodes hon _ hnode
    exact hread.operandsFollow hon'
  · intro node hnode hfree
    obtain ⟨c', after, hon', hread⟩ := hparses.exists_of_mem_nodes hon _ hnode
    have hflaw := Expr.isErrorFree_iff.1 hfree
    exact exists_readExpr?_excerpt hon' (hread.readExpr?_eq_some hflaw) hflaw

/-- The words of the inner operator touch each other; the right operand of the outer one is missing. -/
theorem exact_of_touching_words :
    ∃ expr c, readExpr? (Cursor.at "x AND EQ:a:b".toList 1) = some (expr, c) ∧
      expr.tokens = [⟨2, 3⟩, ⟨6, 2⟩, ⟨8, 2⟩, ⟨10, 2⟩] ∧
      expr.Exact "x AND EQ:a:b".toList 2 c.pos :=
  ⟨_, _, rfl, rfl, @exact_of_readExpr? "x AND EQ:a:b".toList 1 _ _ rfl⟩

end LogoLang
