import LogoLang.Proofs.Syntax.Nodes

set_option autoImplicit false

/-! # Places of what is read

Reading moves a cursor along its line and never past its end (`Cursor.MovesTo`). What it takes is a
place that is not empty and that ends by the new position (`Cursor.Takes`). From there it follows that
the parts of a statement and of a heading stand inside the line, and that a part that is not malformed
has a place that is not empty (`readFrom_of_readStmt?`, `readFrom_of_readDecl?`). -/

namespace LogoLang

/-! ## Moves along a line -/

/-- The position of the end of the line. -/
def Cursor.stop (c : Cursor) : Nat := c.pos + c.rest.length

/-- One cursor is as far along a line as another one or farther. -/
structure Cursor.MovesTo (c c' : Cursor) : Prop where
  pos_le : c.pos ≤ c'.pos
  stop_eq : c'.stop = c.stop

theorem Cursor.MovesTo.refl (c : Cursor) : c.MovesTo c := ⟨Nat.le_refl _, rfl⟩

theorem Cursor.MovesTo.trans {c c' c'' : Cursor} (h : c.MovesTo c') (h' : c'.MovesTo c'') :
    c.MovesTo c'' :=
  ⟨Nat.le_trans h.pos_le h'.pos_le, h'.stop_eq.trans h.stop_eq⟩

/-- A cursor does not leave its line. -/
theorem Cursor.MovesTo.pos_le_length {line : Text} {c : Cursor} (h : (Cursor.start line).MovesTo c) :
    c.pos + c.rest.length = line.length := by
  have hstop := h.stop_eq
  simpa [Cursor.stop, Cursor.start] using hstop

theorem Cursor.movesTo_advance {c : Cursor} {count : Nat} (h : count ≤ c.rest.length) :
    c.MovesTo (c.advance count) := by
  refine ⟨Nat.le_add_right _ _, ?_⟩
  simp only [Cursor.stop, Cursor.advance, List.length_drop]
  omega

theorem length_takeWhile_le (p : Char → Bool) (t : Text) : (t.takeWhile p).length ≤ t.length :=
  (List.takeWhile_sublist p).length_le

theorem Cursor.movesTo_skipSpaces (c : Cursor) : c.MovesTo c.skipSpaces :=
  Cursor.movesTo_advance (length_takeWhile_le isSpace c.rest)

theorem Cursor.movesTo_after {c : Cursor} {length : Nat} (h : length ≤ c.rest.length) :
    c.MovesTo (c.after length) :=
  (Cursor.movesTo_advance h).trans (Cursor.movesTo_skipSpaces _)

/-! ## What is taken -/

/-- Reading moves the cursor and takes a place that is not empty and ends by the new position. -/
structure Cursor.Takes (c : Cursor) (span : Span) (after : Cursor) : Prop where
  moves : c.MovesTo after
  length_pos : 0 < span.length
  stop_le : span.stop ≤ after.pos

/-- After something has been taken, the cursor is not at the start of the line. -/
theorem Cursor.Takes.pos_pos {c after : Cursor} {span : Span} (h : c.Takes span after) :
    0 < after.pos := by
  have hlength := h.length_pos
  have hstop := h.stop_le
  unfold Span.stop at hstop
  omega

theorem Cursor.takes_after {c : Cursor} {length : Nat} (hpos : 0 < length)
    (hle : length ≤ c.skipSpaces.rest.length) :
    c.Takes (c.skipSpaces.spanOf length) (c.skipSpaces.after length) where
  moves := (Cursor.movesTo_skipSpaces c).trans (Cursor.movesTo_after hle)
  length_pos := hpos
  stop_le := (Cursor.movesTo_skipSpaces (c.skipSpaces.advance length)).pos_le

theorem Cursor.takes_of_keyword? {c after : Cursor} {keyword : Text} {span : Span}
    (hne : keyword ≠ []) (h : c.keyword? keyword = some (span, after)) : c.Takes span after := by
  obtain ⟨⟨rest, hrest, _⟩, rfl, rfl⟩ := Cursor.keyword?_eq_some_iff.1 h
  refine Cursor.takes_after (List.length_pos_iff.2 hne) ?_
  rw [Cursor.skipSpaces_rest, hrest, List.length_append]
  omega

theorem Cursor.takes_of_oneOf? {α : Type} {c after : Cursor} {keywords : List (Text × α)} {a : α}
    {span : Span} (hne : ∀ entry ∈ keywords, entry.1 ≠ [])
    (h : c.oneOf? keywords = some (a, span, after)) : c.Takes span after := by
  obtain ⟨keyword, hmem, hkey⟩ := Cursor.oneOf?_eq_some h
  exact Cursor.takes_of_keyword? (hne _ hmem) hkey

/-- A word up to some stop is taken whole. -/
theorem Cursor.takes_takeWhile {c : Cursor} {p : Char → Bool}
    (hne : c.skipSpaces.rest.takeWhile p ≠ []) :
    c.Takes (c.skipSpaces.spanOf (c.skipSpaces.rest.takeWhile p).length)
      (c.skipSpaces.after (c.skipSpaces.rest.takeWhile p).length) :=
  Cursor.takes_after (List.length_pos_iff.2 hne) (length_takeWhile_le p _)

/-- A word after a sign is taken together with the sign. -/
theorem Cursor.takes_signed {c : Cursor} {sign : Char} {rest : Text} (p : Char → Bool)
    (hrest : c.skipSpaces.rest = sign :: rest) :
    c.Takes (c.skipSpaces.spanOf ((rest.takeWhile p).length + 1))
      (c.skipSpaces.after ((rest.takeWhile p).length + 1)) := by
  refine Cursor.takes_after (Nat.succ_pos _) ?_
  rw [hrest, List.length_cons]
  exact Nat.succ_le_succ (length_takeWhile_le p rest)

/-! ## Places of nodes -/

/-- A node as reading leaves it, up to a position: its place ends by there, and the place is not empty
    and a name is a proper one unless the node is malformed. -/
structure Expr.PlacedBy (limit : Nat) (node : Expr) : Prop where
  stop_le : node.span.stop ≤ limit
  length_pos : (∀ flaw, node ≠ .malformed flaw) → 0 < node.span.length
  name : ∀ name span, node = .var name span → isValidName name = true

theorem Expr.PlacedBy.mono {limit limit' : Nat} {node : Expr} (h : node.PlacedBy limit)
    (hle : limit ≤ limit') : node.PlacedBy limit' :=
  ⟨Nat.le_trans h.stop_le hle, h.length_pos, h.name⟩

/-- What is true of an expression that was read: it was taken, and so were its nodes. -/
structure Cursor.Reads (c : Cursor) (expr : Expr) (after : Cursor) : Prop where
  takes : c.Takes expr.span after
  nodes : ∀ node ∈ expr.nodes, node.PlacedBy after.pos

/-- A leaf is its only node. -/
theorem Cursor.reads_leaf {c after : Cursor} {expr : Expr} (hnodes : expr.nodes = [expr])
    (htakes : c.Takes expr.span after)
    (hname : ∀ name span, expr = .var name span → isValidName name = true) :
    c.Reads expr after := by
  refine ⟨htakes, ?_⟩
  rw [hnodes, List.forall_mem_singleton]
  exact ⟨htakes.stop_le, fun _ => htakes.length_pos, hname⟩

theorem reads_of_readTruth? {c after : Cursor} {expr : Expr}
    (h : readTruth? c = some (expr, after)) : c.Reads expr after := by
  simp only [readTruth?, Option.map_eq_some_iff, Prod.exists] at h
  obtain ⟨value, span, after', hkey, hexpr⟩ := h
  cases hexpr
  exact Cursor.reads_leaf rfl (Cursor.takes_of_oneOf? (by decide) hkey) (by simp)

theorem reads_of_readNumberLiteral? {c after : Cursor} {expr : Expr}
    (h : readNumberLiteral? c = some (expr, after)) : c.Reads expr after := by
  simp only [readNumberLiteral?] at h
  split at h
  · next rest hrest =>
    have htakes := Cursor.takes_signed isNumberChar hrest
    split at h
    · exact absurd h (by simp)
    · cases h
      split
      · exact Cursor.reads_leaf rfl htakes (by simp)
      · exact Cursor.reads_leaf rfl htakes (by simp)
  · exact absurd h (by simp)

theorem reads_of_readVariable? {c after : Cursor} {expr : Expr}
    (h : readVariable? c = some (expr, after)) : c.Reads expr after := by
  simp only [readVariable?] at h
  split at h
  · next rest hrest =>
    have htakes := Cursor.takes_signed (!variableStops.contains ·) hrest
    split at h
    · exact absurd h (by simp)
    · cases h
      split
      · next hvalid =>
        refine Cursor.reads_leaf rfl htakes ?_
        intro name span hvar
        cases hvar
        exact hvalid
      · exact Cursor.reads_leaf rfl htakes (by simp)
  · exact absurd h (by simp)

theorem reads_of_readQuery? {c after : Cursor} {expr : Expr}
    (h : readQuery? c = some (expr, after)) : c.Reads expr after := by
  simp only [readQuery?, Option.map_eq_some_iff, Prod.exists] at h
  obtain ⟨query, span, after', hkey, hexpr⟩ := h
  cases hexpr
  exact Cursor.reads_leaf rfl (Cursor.takes_of_oneOf? (by decide) hkey) (by simp)

theorem reads_of_readUnexpected? {c after : Cursor} {expr : Expr}
    (h : readUnexpected? c = some (expr, after)) : c.Reads expr after := by
  simp only [readUnexpected?, Cursor.wordUntil, List.isEmpty_iff] at h
  split at h
  · exact absurd h (by simp)
  · next hne =>
    cases h
    exact Cursor.reads_leaf rfl (Cursor.takes_takeWhile hne) (by simp)

theorem reads_of_readLeafBefore? {c after : Cursor} {expr : Expr}
    (h : readLeafBefore? c = some (expr, after)) : c.Reads expr after := by
  simp only [readLeafBefore?, Option.or_eq_some_iff] at h
  rcases h with h | ⟨_, h | ⟨_, h⟩⟩
  · exact reads_of_readTruth? h
  · exact reads_of_readNumberLiteral? h
  · exact reads_of_readVariable? h

theorem reads_of_readLeafAfter? {c after : Cursor} {expr : Expr}
    (h : readLeafAfter? c = some (expr, after)) : c.Reads expr after := by
  simp only [readLeafAfter?, Option.or_eq_some_iff] at h
  rcases h with h | ⟨_, h⟩
  · exact reads_of_readQuery? h
  · exact reads_of_readUnexpected? h

/-! ## Operators -/

theorem le_foldl_max (first : Nat) (ends : List Nat) : first ≤ ends.foldl max first := by
  induction ends generalizing first with
  | nil => exact Nat.le_refl first
  | cons stop rest ih => exact Nat.le_trans (Nat.le_max_left first stop) (ih (max first stop))

theorem le_foldl_max_of_mem {first stop : Nat} {ends : List Nat} (h : stop ∈ ends) :
    stop ≤ ends.foldl max first := by
  induction ends generalizing first with
  | nil => exact absurd h List.not_mem_nil
  | cons stop' rest ih =>
    rcases List.mem_cons.1 h with rfl | hrest
    · exact Nat.le_trans (Nat.le_max_right first stop) (le_foldl_max _ rest)
    · exact ih hrest

theorem foldl_max_le {first limit : Nat} {ends : List Nat} (hfirst : first ≤ limit)
    (hends : ∀ stop ∈ ends, stop ≤ limit) : ends.foldl max first ≤ limit := by
  induction ends generalizing first with
  | nil => exact hfirst
  | cons stop rest ih =>
    obtain ⟨hstop, hrest⟩ := List.forall_mem_cons.1 hends
    exact ih (Nat.max_le.2 ⟨hfirst, hstop⟩) hrest

theorem Span.length_cover_pos {first : Span} (h : 0 < first.length) (others : List Span) :
    0 < (first.cover others).length := by
  have hstop := le_foldl_max first.stop ((others.filter (·.length ≠ 0)).map Span.stop)
  simp only [Span.cover]
  unfold Span.stop at hstop ⊢
  omega

theorem Span.stop_cover (first : Span) (others : List Span) :
    (first.cover others).stop =
      ((others.filter (·.length ≠ 0)).map Span.stop).foldl max first.stop :=
  Nat.add_sub_of_le (Nat.le_trans (Nat.le_add_right _ _) (le_foldl_max _ _))

/-- The place from one start to the last of several ends goes no farther than each of them. -/
theorem Span.stop_cover_le {first : Span} {others : List Span} {limit : Nat}
    (hfirst : first.stop ≤ limit) (hothers : ∀ span ∈ others, span.stop ≤ limit) :
    (first.cover others).stop ≤ limit := by
  rw [Span.stop_cover]
  refine foldl_max_le hfirst ?_
  intro stop hmem
  obtain ⟨span, hspan, rfl⟩ := List.mem_map.1 hmem
  exact hothers span (List.mem_of_mem_filter hspan)

/-- The place goes as far as the first end. -/
theorem Span.stop_le_cover_first (first : Span) (others : List Span) :
    first.stop ≤ (first.cover others).stop := by
  rw [Span.stop_cover]
  exact le_foldl_max _ _

/-- The place goes as far as the end of each other one that is not empty. -/
theorem Span.stop_le_cover {first span : Span} {others : List Span} (hmem : span ∈ others)
    (hpos : 0 < span.length) : span.stop ≤ (first.cover others).stop := by
  rw [Span.stop_cover]
  refine le_foldl_max_of_mem (List.mem_map_of_mem (List.mem_filter.2 ⟨hmem, ?_⟩))
  exact decide_eq_true (Nat.ne_of_gt hpos)

/-- An operand is read or missing; a missing one is a single malformed node with an empty place. -/
theorem placed_orMissing {c : Cursor} {read? : Option (Expr × Cursor)}
    (h : ∀ expr after, read? = some (expr, after) → c.Reads expr after) :
    c.MovesTo (orMissing c read?).2 ∧
      ∀ node ∈ (orMissing c read?).1.nodes, node.PlacedBy (orMissing c read?).2.pos := by
  cases read? with
  | some result =>
    have hreads := h result.1 result.2 rfl
    exact ⟨hreads.takes.moves, hreads.nodes⟩
  | none =>
    refine ⟨Cursor.MovesTo.refl c, ?_⟩
    rw [orMissing, Option.getD_none, missingOperand, Expr.nodes, List.forall_mem_singleton]
    · exact ⟨Nat.le_refl _, fun hne => absurd rfl (hne _), by simp⟩
    · simp

/-- An operator is taken together with its operands, which follow it. -/
theorem Cursor.reads_binary {c c₁ c₂ c₃ : Cursor} {op : BinaryOp} {span : Span} {left right : Expr}
    (htakes : c.Takes span c₁) (hmoveLeft : c₁.MovesTo c₂)
    (hleft : ∀ node ∈ left.nodes, node.PlacedBy c₂.pos) (hmoveRight : c₂.MovesTo c₃)
    (hright : ∀ node ∈ right.nodes, node.PlacedBy c₃.pos) :
    c.Reads (.binary op left right (span.cover [left.span, right.span])) c₃ := by
  have hmove := hmoveLeft.trans hmoveRight
  have hleft' := fun node hnode => (hleft node hnode).mono hmoveRight.pos_le
  have hpos := Span.length_cover_pos htakes.length_pos [left.span, right.span]
  have hstop : (span.cover [left.span, right.span]).stop ≤ c₃.pos := by
    refine Span.stop_cover_le (Nat.le_trans htakes.stop_le hmove.pos_le) ?_
    rw [List.forall_mem_cons, List.forall_mem_singleton]
    exact ⟨(hleft' _ left.self_mem_nodes).stop_le, (hright _ right.self_mem_nodes).stop_le⟩
  refine ⟨⟨htakes.moves.trans hmove, hpos, hstop⟩, ?_⟩
  exact Expr.forall_mem_nodes_binary.2 ⟨⟨hstop, fun _ => hpos, by simp⟩, hleft', hright⟩

/-- **Whatever is read as an expression is taken from the line, node by node.** -/
theorem reads_of_readExprWith? {fuel : Nat} {c after : Cursor} {expr : Expr}
    (h : readExprWith? fuel c = some (expr, after)) : c.Reads expr after := by
  induction fuel generalizing c after expr with
  | zero => simp [readExprWith?] at h
  | succ fuel ih =>
    rw [readExprWith?] at h
    split at h
    · next result hleaf =>
      cases h
      exact reads_of_readLeafBefore? hleaf
    · split at h
      · next op span c₁ hop =>
        cases h
        -- the right operand is looked for where the left one ends, or where it was missing
        obtain ⟨hmoveLeft, hleft⟩ := placed_orMissing fun _ _ => ih (c := c₁)
        obtain ⟨hmoveRight, hright⟩ := placed_orMissing fun _ _ => ih (c := (orMissing c₁ _).2)
        exact Cursor.reads_binary (Cursor.takes_of_oneOf? (by decide) hop) hmoveLeft hleft
          hmoveRight hright
      · exact reads_of_readLeafAfter? h

theorem placed_readExprs (c : Cursor) :
    c.MovesTo (readExprs c).2 ∧
      ∀ expr ∈ (readExprs c).1, ∀ node ∈ expr.nodes, node.PlacedBy (readExprs c).2.pos := by
  -- the fuel is the length of one rest, and is not that of the next: the induction is on any fuel
  have hwith : ∀ (fuel : Nat) (c : Cursor), c.MovesTo (readExprsWith fuel c).2 ∧
      ∀ expr ∈ (readExprsWith fuel c).1, ∀ node ∈ expr.nodes,
        node.PlacedBy (readExprsWith fuel c).2.pos := by
    intro fuel
    induction fuel with
    | zero => exact fun c => ⟨Cursor.MovesTo.refl c, by simp [readExprsWith]⟩
    | succ fuel ih =>
      intro c
      rw [readExprsWith]
      split
      · exact ⟨Cursor.MovesTo.refl c, by simp⟩
      · next expr c₁ hexpr =>
        obtain ⟨hmove, hrest⟩ := ih c₁
        have hreads := reads_of_readExprWith? hexpr
        refine ⟨hreads.takes.moves.trans hmove, List.forall_mem_cons.2 ⟨?_, hrest⟩⟩
        exact fun node hnode => (hreads.nodes node hnode).mono hmove.pos_le
  exact hwith _ c

/-! ## Labels -/

/-- A label as reading leaves it, up to a position: its place is not empty and ends by there, and a
    name is a proper one. -/
structure Label.PlacedBy (limit : Nat) (label : Label) : Prop where
  stop_le : label.span.stop ≤ limit
  length_pos : 0 < label.span.length
  name : ∀ name span, label = .named name span → isValidName name = true

theorem Label.PlacedBy.mono {limit limit' : Nat} {label : Label} (h : label.PlacedBy limit)
    (hle : limit ≤ limit') : label.PlacedBy limit' :=
  ⟨Nat.le_trans h.stop_le hle, h.length_pos, h.name⟩

theorem Label.PlacedBy.isName {limit : Nat} {label : Label} (h : label.PlacedBy limit)
    (hflaw : label.flaw? = none) : label.IsName := by
  cases label with
  | named name span => exact ⟨name, span, rfl, h.name name span rfl⟩
  | malformed flaw => simp [Label.flaw?] at hflaw

/-- What is true of a label that was read. -/
structure Cursor.ReadsLabel (c : Cursor) (label : Label) (after : Cursor) : Prop where
  moves : c.MovesTo after
  placed : label.PlacedBy after.pos

theorem Cursor.readsLabel_ofName {c after : Cursor} {name : Text} {span : Span}
    (h : c.Takes span after) : c.ReadsLabel (.ofName name span) after := by
  refine ⟨h.moves, ?_⟩
  rw [Label.ofName]
  split
  · next hvalid =>
    refine ⟨h.stop_le, h.length_pos, ?_⟩
    intro name' span' heq
    cases heq
    exact hvalid
  · exact ⟨h.stop_le, h.length_pos, by simp⟩

theorem readsLabel_of_readUnquoted? {c after : Cursor} {label : Label}
    (h : readUnquoted? c.skipSpaces = some (label, after)) : c.ReadsLabel label after := by
  simp only [readUnquoted?, Cursor.wordUntil, List.isEmpty_iff] at h
  split at h
  · exact absurd h (by simp)
  · next hne =>
    cases h
    have htakes := Cursor.takes_takeWhile hne
    exact ⟨htakes.moves, htakes.stop_le, htakes.length_pos, by simp⟩

theorem readsLabel_of_readTarget? {c after : Cursor} {label : Label}
    (h : readTarget? c = some (label, after)) : c.ReadsLabel label after := by
  simp only [readTarget?] at h
  split at h
  · next rest hrest =>
    split at h
    · exact readsLabel_of_readUnquoted? h
    · cases h
      exact Cursor.readsLabel_ofName (Cursor.takes_signed (!quotedStops.contains ·) hrest)
  · exact readsLabel_of_readUnquoted? h

theorem readsLabel_of_readFunctionName? {c after : Cursor} {label : Label}
    (h : readFunctionName? c = some (label, after)) : c.ReadsLabel label after := by
  simp only [readFunctionName?, Cursor.wordUntil, List.isEmpty_iff] at h
  split at h
  · exact absurd h (by simp)
  · next hne =>
    cases h
    exact Cursor.readsLabel_ofName (Cursor.takes_takeWhile hne)

theorem placed_readParams (c : Cursor) :
    c.MovesTo (readParams c).2 ∧
      ∀ param ∈ (readParams c).1, param.PlacedBy (readParams c).2.pos := by
  have hwith : ∀ (fuel : Nat) (c : Cursor), c.MovesTo (readParamsWith fuel c).2 ∧
      ∀ param ∈ (readParamsWith fuel c).1, param.PlacedBy (readParamsWith fuel c).2.pos := by
    intro fuel
    induction fuel with
    | zero => exact fun c => ⟨Cursor.MovesTo.refl c, by simp [readParamsWith]⟩
    | succ fuel ih =>
      intro c
      rw [readParamsWith]
      split
      · exact ⟨Cursor.MovesTo.refl c, by simp⟩
      · next param c₁ hparam =>
        obtain ⟨hmove, hrest⟩ := ih c₁
        have hreads := readsLabel_of_readTarget? hparam
        exact ⟨hreads.moves.trans hmove,
          List.forall_mem_cons.2 ⟨hreads.placed.mono hmove.pos_le, hrest⟩⟩
  exact hwith _ c

/-! ## Statements -/

/-- The place of a missing part is the character before it. -/
theorem missingPart_stop {kind : ErrorKind} {c : Cursor} (hpos : 0 < c.pos) :
    (missingPart kind c).span.stop = c.pos := by
  simp only [missingPart, Span.stop]
  omega

theorem placed_readOperand {c : Cursor} (hpos : 0 < c.pos) :
    c.MovesTo (readOperand c).2 ∧
      ∀ node ∈ (readOperand c).1.nodes, node.PlacedBy (readOperand c).2.pos := by
  rw [readOperand]
  cases hread : readExpr? c with
  | some result =>
    have hreads := reads_of_readExprWith? hread
    exact ⟨hreads.takes.moves, hreads.nodes⟩
  | none =>
    refine ⟨Cursor.MovesTo.refl c, ?_⟩
    intro node hnode
    cases List.mem_singleton.1 hnode
    exact ⟨Nat.le_of_eq (missingPart_stop hpos), fun hne => absurd rfl (hne _), by simp⟩

theorem readsLabel_readTarget {c : Cursor} (hpos : 0 < c.pos) :
    c.ReadsLabel (readTarget c).1 (readTarget c).2 := by
  rw [readTarget]
  cases hread : readTarget? c with
  | some result => exact readsLabel_of_readTarget? hread
  | none =>
    exact ⟨Cursor.MovesTo.refl c, Nat.le_of_eq (missingPart_stop hpos), Nat.one_pos, by simp⟩

/-- The parts of a statement as reading leaves them. -/
structure Stmt.PlacedBy (limit : Nat) (stmt : Stmt) : Prop where
  labels : ∀ label ∈ stmt.labels, label.PlacedBy limit
  nodes : ∀ expr ∈ stmt.exprs, ∀ node ∈ expr.nodes, node.PlacedBy limit

theorem StmtForm.placed_read (form : StmtForm) {c : Cursor} (line : Nat) (hpos : 0 < c.pos) :
    c.MovesTo (form.read c line).2 ∧ (form.read c line).1.line = line ∧
      (form.read c line).1.PlacedBy (form.read c line).2.pos := by
  cases form with
  | block kind =>
    obtain ⟨hmove, hnodes⟩ := placed_readOperand hpos
    exact ⟨hmove, rfl, by simp [StmtForm.read, Stmt.labels], List.forall_mem_singleton.2 hnodes⟩
  | assign kind =>
    have htarget := readsLabel_readTarget hpos
    obtain ⟨hmove, hnodes⟩ := placed_readOperand (Nat.lt_of_lt_of_le hpos htarget.moves.pos_le)
    exact ⟨htarget.moves.trans hmove, rfl,
      List.forall_mem_singleton.2 (htarget.placed.mono hmove.pos_le),
      List.forall_mem_singleton.2 hnodes⟩
  | pen down =>
    exact ⟨Cursor.MovesTo.refl c, rfl, by simp [StmtForm.read, Stmt.labels],
      by simp [StmtForm.read, Stmt.exprs]⟩
  | command cmd =>
    obtain ⟨hmove, hnodes⟩ := placed_readOperand hpos
    exact ⟨hmove, rfl, by simp [StmtForm.read, Stmt.labels], List.forall_mem_singleton.2 hnodes⟩

/-- What is true of a statement that was read from a line, up to the cursor after it. -/
structure Stmt.ReadFrom (text : Text) (line : Nat) (stmt : Stmt) (c : Cursor) : Prop where
  moves : (Cursor.start text).MovesTo c
  line : stmt.line = line
  placed : stmt.PlacedBy c.pos

/-- **The parts of a statement are taken from its line.** -/
theorem readFrom_of_readStmt? {text : Text} {line : Nat} {stmt : Stmt} {c : Cursor}
    (h : readStmt? text line = some (stmt, c)) : stmt.ReadFrom text line c := by
  simp only [readStmt?] at h
  split at h
  · next form span c₁ hform =>
    have hread : form.read c₁ line = (stmt, c) := Option.some.inj h
    have htakes := Cursor.takes_of_oneOf? (fun entry hentry =>
      (stmtKeywords_nameChars entry hentry).1) hform
    -- the command word is taken by now, so that a missing part has a character before it
    have hplaced := form.placed_read line htakes.pos_pos
    rw [hread] at hplaced
    exact ⟨htakes.moves.trans hplaced.1, hplaced.2.1, hplaced.2.2⟩
  · simp only [readCall?, Option.map_eq_some_iff, Prod.exists] at h
    obtain ⟨name, c₁, hname, hstmt⟩ := h
    cases hstmt
    have hreads := readsLabel_of_readFunctionName? hname
    obtain ⟨hmove, hargs⟩ := placed_readExprs c₁
    exact ⟨hreads.moves.trans hmove, rfl,
      List.forall_mem_singleton.2 (hreads.placed.mono hmove.pos_le), hargs⟩

theorem Stmt.ReadFrom.pos_le {text : Text} {line : Nat} {stmt : Stmt} {c : Cursor}
    (h : stmt.ReadFrom text line c) : c.pos ≤ text.length := by
  have hlength := h.moves.pos_le_length
  omega

theorem Stmt.PlacedBy.mono {limit limit' : Nat} {stmt : Stmt} (h : stmt.PlacedBy limit)
    (hle : limit ≤ limit') : stmt.PlacedBy limit' :=
  ⟨fun label hlabel => (h.labels label hlabel).mono hle,
    fun expr hexpr node hnode => (h.nodes expr hexpr node hnode).mono hle⟩

/-- The flaw of a statement points into the line. -/
theorem Stmt.PlacedBy.flaw_stop_le {limit : Nat} {stmt : Stmt} {flaw : Flaw}
    (h : stmt.PlacedBy limit) (hflaw : stmt.firstFlaw? = some flaw) : flaw.span.stop ≤ limit := by
  rcases Stmt.malformed_mem hflaw with hlabel | ⟨expr, hexpr, hnode⟩
  · exact (h.labels _ hlabel).stop_le
  · exact (h.nodes expr hexpr _ hnode).stop_le

/-- A statement without a flaw is well formed. -/
theorem Stmt.PlacedBy.wellFormed {limit : Nat} {stmt : Stmt} (h : stmt.PlacedBy limit)
    (hflaw : stmt.firstFlaw? = none) : stmt.WellFormed := by
  obtain ⟨hlabels, hexprs⟩ := Stmt.firstFlaw?_eq_none_iff.1 hflaw
  refine ⟨fun label hlabel => (h.labels label hlabel).isName (hlabels label hlabel), ?_⟩
  intro expr hexpr
  exact ⟨hexprs expr hexpr, fun name span hvar => (h.nodes expr hexpr _ hvar).name name span rfl⟩

/-- The parts of a statement without a flaw have places that are not empty. -/
theorem Stmt.PlacedBy.spans {limit : Nat} {stmt : Stmt} (h : stmt.PlacedBy limit)
    (hflaw : stmt.firstFlaw? = none) :
    ∀ span ∈ stmt.spans, 0 < span.length ∧ span.stop ≤ limit := by
  intro span hspan
  rcases List.mem_append.1 hspan with hlabel | hnode
  · obtain ⟨label, hmem, rfl⟩ := List.mem_map.1 hlabel
    exact ⟨(h.labels label hmem).length_pos, (h.labels label hmem).stop_le⟩
  · obtain ⟨expr, hexpr, hspan⟩ := List.mem_flatMap.1 hnode
    obtain ⟨node, hmem, rfl⟩ := List.mem_map.1 hspan
    have hplaced := h.nodes expr hexpr node hmem
    refine ⟨hplaced.length_pos ?_, hplaced.stop_le⟩
    rintro flaw rfl
    exact (Stmt.firstFlaw?_eq_none_iff.1 hflaw).2 expr hexpr flaw hmem

/-! ## Headings -/

/-- What is true of a heading that was read from a line, up to the cursor after it. -/
structure Decl.ReadFrom (text : Text) (decl : Decl) (c : Cursor) : Prop where
  moves : (Cursor.start text).MovesTo c
  placed : ∀ label ∈ decl.name :: decl.params, label.PlacedBy c.pos

/-- **The labels of a heading are taken from its line.** -/
theorem readFrom_of_readDecl? {text : Text} {decl : Decl} {c : Cursor}
    (h : readDecl? text = some (decl, c)) : decl.ReadFrom text c := by
  simp only [readDecl?, Option.map_eq_some_iff, Prod.exists] at h
  obtain ⟨span, c₁, hkey, hdecl⟩ := h
  have htakes := Cursor.takes_of_keyword? (by decide) hkey
  have hname : c₁.ReadsLabel
      ((readFunctionName? c₁).getD (.malformed (missingPart .missingName c₁), c₁)).1
      ((readFunctionName? c₁).getD (.malformed (missingPart .missingName c₁), c₁)).2 := by
    cases hread : readFunctionName? c₁ with
    | some result => exact readsLabel_of_readFunctionName? hread
    | none =>
      exact ⟨Cursor.MovesTo.refl c₁, Nat.le_of_eq (missingPart_stop htakes.pos_pos), Nat.one_pos,
        by simp⟩
  obtain ⟨hmove, hparams⟩ := placed_readParams
    ((readFunctionName? c₁).getD (.malformed (missingPart .missingName c₁), c₁)).2
  cases hdecl
  exact ⟨htakes.moves.trans (hname.moves.trans hmove),
    List.forall_mem_cons.2 ⟨hname.placed.mono hmove.pos_le, hparams⟩⟩

theorem Decl.ReadFrom.pos_le {text : Text} {decl : Decl} {c : Cursor} (h : decl.ReadFrom text c) :
    c.pos ≤ text.length := by
  have hlength := h.moves.pos_le_length
  omega

/-- The flaw of a heading points into the line. -/
theorem Decl.ReadFrom.flaw_stop_le {text : Text} {decl : Decl} {c : Cursor} {flaw : Flaw}
    (h : decl.ReadFrom text c) (hflaw : decl.firstFlaw? = some flaw) : flaw.span.stop ≤ text.length :=
  Nat.le_trans (h.placed _ (Decl.malformed_mem hflaw)).stop_le h.pos_le

end LogoLang
