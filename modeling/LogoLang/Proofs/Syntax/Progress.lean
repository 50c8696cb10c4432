import LogoLang.Proofs.Syntax.ExactSpans
import LogoLang.Proofs.Syntax.LeftmostFlaw

set_option autoImplicit false

/-! # Reading comes to an end

An expression is read wherever there is something other than a bracket (`readExpr?_eq_none_iff`), and
reading it moves over at least one word (`Cursor.Proceeds`). So the operands of an operator are read in
less text than the operator (`Cursor.returns_iff`), a row of expressions or of parameters ends
(`Repeats`), and it ends where nothing more can be read: a call at the end of its line or at a bracket,
a heading at the end of its line (`reading_progresses`). -/

namespace LogoLang

/-! ## Moving over words -/

/-- From one cursor to the other there is at least one word, with spaces around the words. -/
def Cursor.Proceeds (c after : Cursor) : Prop := ∃ token rest, c.Passes (token :: rest) after

section Proceeds

variable {line : Text} {c after : Cursor} {tokens : List Span}

theorem Cursor.Passes.movesTo (h : c.Passes tokens after) : c.MovesTo after := by
  induction tokens generalizing c with
  | nil =>
    cases h
    exact c.movesTo_skipSpaces
  | cons token rest ih =>
    exact (c.movesTo_skipSpaces.trans (Cursor.movesTo_advance h.2.2.1)).trans (ih h.2.2.2)

theorem Cursor.Proceeds.movesTo (h : c.Proceeds after) : c.MovesTo after := by
  obtain ⟨token, rest, h⟩ := h
  exact h.movesTo

theorem Cursor.Proceeds.skipSpaces_eq (h : c.Proceeds after) : after.skipSpaces = after := by
  obtain ⟨token, rest, h⟩ := h
  exact h.skipSpaces_eq

theorem Cursor.Proceeds.isOn (h : c.Proceeds after) (hc : c.IsOn line) : after.IsOn line := by
  obtain ⟨token, rest, h⟩ := h
  exact h.isOn hc

theorem Cursor.Proceeds.pos_lt (h : c.Proceeds after) : c.skipSpaces.pos < after.pos := by
  obtain ⟨token, rest, _, hpos, _, hrest⟩ := h
  exact Nat.lt_of_lt_of_le (Nat.lt_add_of_pos_right hpos) hrest.movesTo.pos_le

/-- Less text is left after a word. -/
theorem Cursor.Proceeds.length_lt (h : c.Proceeds after) : after.rest.length < c.rest.length := by
  have hstop := h.movesTo.stop_eq
  have hpos := Nat.lt_of_le_of_lt c.movesTo_skipSpaces.pos_le h.pos_lt
  unfold Cursor.stop at hstop
  omega

theorem Expr.tokens_ne_nil {e : Expr} (h : 0 < e.span.length) : e.tokens ≠ [] := by
  cases e with
  | malformed flaw =>
    have hlength : flaw.span.length ≠ 0 := Nat.ne_of_gt h
    simp [Expr.tokens, hlength]
  | _ => exact List.cons_ne_nil _ _

/-- **Reading an expression moves over a word.** -/
theorem proceeds_of_readExpr? {e : Expr} (h : readExpr? c = some (e, after)) : c.Proceeds after := by
  have hpasses := (Cursor.parses_skipSpaces_of_readExpr? h).passes c.skipSpaces_idem
  obtain ⟨token, rest, htokens⟩ :=
    List.exists_cons_of_ne_nil (Expr.tokens_ne_nil (reads_of_readExprWith? h).takes.length_pos)
  rw [htokens] at hpasses
  exact ⟨token, rest, hpasses.of_skipSpaces⟩

theorem proceeds_of_readTarget? {label : Label} (h : readTarget? c = some (label, after)) :
    c.Proceeds after :=
  ⟨_, [], passes_of_readTarget? h⟩

theorem proceeds_of_readFunctionName? {label : Label}
    (h : readFunctionName? c = some (label, after)) : c.Proceeds after :=
  ⟨_, [], passes_of_readFunctionName? h⟩

end Proceeds

/-! ## Where nothing is read -/

section Stops

variable {c : Cursor}

theorem head_skipSpaces (c : Cursor) : ∀ x ∈ c.skipSpaces.rest.head?, isSpace x = false := by
  rw [Cursor.skipSpaces_rest]
  exact head_dropWhile_isSpace c.rest

/-- A word is empty exactly if there is nothing or a stop. -/
theorem takeWhile_eq_nil_iff_head {p : Char → Bool} {t : Text} :
    t.takeWhile p = [] ↔ ∀ x ∈ t.head?, p x = false := by
  refine ⟨fun h x hx => ?_, takeWhile_of_head⟩
  obtain ⟨rest, rfl⟩ := List.head?_eq_some_iff.1 hx
  by_contra hp
  rw [Bool.not_eq_false] at hp
  rw [List.takeWhile_cons_of_pos hp] at h
  exact absurd h (List.cons_ne_nil _ _)

theorem wordUntil_skipSpaces_eq_nil_iff :
    c.skipSpaces.wordUntil wordStops = [] ↔ c.skipSpaces.rest = [] := by
  rw [wordUntil_wordStops, takeWhile_eq_nil_iff_head]
  constructor
  · intro h
    cases hrest : c.skipSpaces.rest with
    | nil => rfl
    | cons x rest =>
      have hspace := head_skipSpaces c x (by rw [hrest]; rfl)
      have hstop := h x (by rw [hrest]; rfl)
      rw [hspace] at hstop
      exact absurd hstop (by decide)
  · intro h x hx
    rw [h] at hx
    cases hx

/-- The last alternative takes whatever there is up to a bracket. -/
theorem readUnexpected?_eq_none_iff :
    readUnexpected? c = none ↔ ∀ x ∈ c.skipSpaces.rest.head?, x = '[' := by
  simp only [readUnexpected?, List.isEmpty_iff, ite_eq_left_iff, reduceCtorEq, imp_false, not_not]
  rw [Cursor.wordUntil, takeWhile_eq_nil_iff_head]
  refine forall₂_congr fun x hx => ?_
  have hspace := head_skipSpaces c x hx
  simp only [isSpace, Bool.or_eq_false_iff, beq_eq_false_iff_ne] at hspace
  simp [unexpectedStops, hspace]

/-- **No expression is read exactly at the end of a line and at a bracket.** -/
theorem readExpr?_eq_none_iff :
    readExpr? c = none ↔ ∀ x ∈ c.skipSpaces.rest.head?, x = '[' := by
  constructor
  · intro h
    rw [readExpr?_eq] at h
    split at h
    · cases h
    · split at h
      · cases h
      · rw [readLeafAfter?, Option.or_eq_none_iff] at h
        exact readUnexpected?_eq_none_iff.1 h.2
  · intro h
    cases hrest : c.skipSpaces.rest with
    | nil => rw [← readExpr?_skipSpaces, readExpr?_nil hrest]
    | cons x rest =>
      obtain rfl := h x (by rw [hrest]; rfl)
      have hbracket : ['['] <+: c.skipSpaces.rest := ⟨rest, hrest.symm⟩
      have hbefore : readLeafBefore? c = none :=
        readLeafBefore?_eq_none_of_head (by decide) (by decide) hbracket
      have hop : c.oneOf? operatorKeywords = none :=
        Cursor.oneOf?_eq_none_of_apart (by decide) hbracket
      have hquery : c.oneOf? queryKeywords = none :=
        Cursor.oneOf?_eq_none_of_apart (by decide) hbracket
      rw [readExpr?_eq, hbefore, hop, readLeafAfter?, readQuery?, hquery,
        readUnexpected?_eq_none_iff.2 h]
      rfl

theorem readUnquoted?_skipSpaces_eq_none_iff :
    readUnquoted? c.skipSpaces = none ↔ c.skipSpaces.rest = [] := by
  simp only [readUnquoted?, List.isEmpty_iff, ite_eq_left_iff, reduceCtorEq, imp_false, not_not]
  exact wordUntil_skipSpaces_eq_nil_iff

/-- A parameter is read unless the line has come to its end. -/
theorem readTarget?_eq_none_iff : readTarget? c = none ↔ c.skipSpaces.rest = [] := by
  rw [← readUnquoted?_skipSpaces_eq_none_iff]
  simp only [readTarget?]
  split
  · next rest hrest =>
    split
    · rfl
    · rw [readUnquoted?_skipSpaces_eq_none_iff, hrest]
      simp
  · rfl

theorem readFunctionName?_eq_none_iff : readFunctionName? c = none ↔ c.skipSpaces.rest = [] := by
  simp only [readFunctionName?, List.isEmpty_iff, ite_eq_left_iff, reduceCtorEq, imp_false, not_not]
  exact wordUntil_skipSpaces_eq_nil_iff

end Stops

/-! ## Calls that return -/

/-- Reading an expression, as a call that returns: the operands of an operator are read by calls that
return, the right one from where the left one ends. -/
inductive Cursor.Returns : Cursor → Option (Expr × Cursor) → Prop where
  | before {c : Cursor} {result : Expr × Cursor} (hleaf : readLeafBefore? c = some result) :
      Cursor.Returns c (some result)
  | binary {c c₁ : Cursor} {op : BinaryOp} {span : Span} {left? right? : Option (Expr × Cursor)}
      {left right : Expr × Cursor} (hbefore : readLeafBefore? c = none)
      (hop : c.oneOf? operatorKeywords = some (op, span, c₁))
      (hleft : Cursor.Returns c₁ left?) (hmissing : orMissing c₁ left? = left)
      (hright : Cursor.Returns left.2 right?) (hmissing' : orMissing left.2 right? = right) :
      Cursor.Returns c
        (some (.binary op left.1 right.1 (span.cover [left.1.span, right.1.span]), right.2))
  | after {c : Cursor} (hbefore : readLeafBefore? c = none)
      (hop : c.oneOf? operatorKeywords = none) : Cursor.Returns c (readLeafAfter? c)

/-- **The recursion over the operands ends**, everywhere and with what is read. -/
theorem Cursor.returns_iff {c : Cursor} {result : Option (Expr × Cursor)} :
    c.Returns result ↔ result = readExpr? c := by
  constructor
  · intro h
    induction h with
    | before hleaf => rw [readExpr?_eq, hleaf]
    | binary hbefore hop _ hmissing _ hmissing' ihleft ihright =>
      subst ihleft hmissing
      subst ihright hmissing'
      refine Eq.symm ?_
      rw [readExpr?_eq, hbefore, hop]
      rfl
    | after hbefore hop => rw [readExpr?_eq, hbefore, hop]
  · rintro rfl
    -- each operator takes up text, so that less is left for its operands
    induction hlength : c.rest.length using Nat.strong_induction_on generalizing c with
    | _ length ih =>
      subst hlength
      rw [readExpr?_eq]
      cases hbefore : readLeafBefore? c with
      | some result => exact .before hbefore
      | none =>
        cases hop : c.oneOf? operatorKeywords with
        | some result =>
          obtain ⟨op, span, c₁⟩ := result
          have hless := Cursor.length_lt_of_oneOf? (by decide) hop
          have hless' := Nat.lt_of_le_of_lt (Cursor.movesTo_orMissing c₁).length_le hless
          exact .binary hbefore hop (ih _ hless rfl) rfl (ih _ hless' rfl) rfl
        | none => exact .after hbefore hop

/-! ## Loops that end -/

/-- Reading one thing after the other until there is none, as a loop that ends. -/
inductive Repeats {α : Type} (read? : Cursor → Option (α × Cursor)) :
    Cursor → List α → Cursor → Prop where
  | stop {c : Cursor} (hnone : read? c = none) : Repeats read? c [] c
  | next {c c₁ c₂ : Cursor} {a : α} {rest : List α} (hread : read? c = some (a, c₁))
      (hrest : Repeats read? c₁ rest c₂) : Repeats read? c (a :: rest) c₂

section Repeats

variable {α : Type} {read? : Cursor → Option (α × Cursor)} {line : Text} {c after : Cursor}
  {items : List α}

theorem Repeats.eq_none (h : Repeats read? c items after) : read? after = none := by
  induction h with
  | stop hnone => exact hnone
  | next _ _ ih => exact ih

/-- If every round moves over a word, so does the loop, unless there is no round. -/
theorem Repeats.proceeds (h : Repeats read? c items after)
    (hread : ∀ {c c' : Cursor} {a : α}, read? c = some (a, c') → c.Proceeds c') :
    after = c ∨ c.Proceeds after := by
  induction h with
  | stop _ => exact .inl rfl
  | next hfirst _ ih =>
    obtain ⟨token, rest, hpasses⟩ := hread hfirst
    rcases ih with rfl | ⟨token', rest', hpasses'⟩
    · exact .inr ⟨token, rest, hpasses⟩
    · exact .inr ⟨token, rest ++ token' :: rest', hpasses.trans hpasses'⟩

/-- A loop with as many rounds as there are characters left ends by itself, if every round moves over
a word. -/
theorem repeats_of_loop {loop : Nat → Cursor → List α × Cursor} (hzero : ∀ c, loop 0 c = ([], c))
    (hsucc : ∀ fuel c, loop (fuel + 1) c = match read? c with
      | none => ([], c)
      | some (a, c') => (a :: (loop fuel c').1, (loop fuel c').2))
    (hread : ∀ {c c' : Cursor} {a : α}, read? c = some (a, c') → c.Proceeds c')
    {fuel : Nat} (hfuel : c.rest.length ≤ fuel) :
    Repeats read? c (loop fuel c).1 (loop fuel c).2 := by
  induction fuel generalizing c with
  | zero =>
    rw [hzero]
    refine .stop ?_
    cases hfirst : read? c with
    | none => rfl
    | some result =>
      have hless := (hread hfirst).length_lt
      omega
  | succ fuel ih =>
    rw [hsucc]
    cases hfirst : read? c with
    | none => exact .stop hfirst
    | some result =>
      have hless := (hread hfirst).length_lt
      exact .next hfirst (ih (by omega))

end Repeats

theorem repeats_readExprs (c : Cursor) :
    Repeats readExpr? c (readExprs c).1 (readExprs c).2 :=
  repeats_of_loop (fun _ => rfl) (fun _ c => by rw [readExprsWith]; cases readExpr? c <;> rfl)
    proceeds_of_readExpr? (Nat.le_refl _)

theorem repeats_readParams (c : Cursor) :
    Repeats readTarget? c (readParams c).1 (readParams c).2 :=
  repeats_of_loop (fun _ => rfl) (fun _ c => by rw [readParamsWith]; cases readTarget? c <;> rfl)
    proceeds_of_readTarget? (Nat.le_refl _)

/-! ## Where reading stops -/

section Line

variable {text : Text} {c after : Cursor}

/-- A position of a line at which no expression starts: its end, or a bracket. -/
def IsStop (text : Text) (pos : Nat) : Prop := pos = text.length ∨ text[pos]? = some '['

/-- A cursor that is on its line, and not past its end. -/
structure Cursor.IsIn (text : Text) (c : Cursor) : Prop where
  isOn : c.IsOn text
  pos_le : c.pos ≤ text.length

theorem Cursor.IsIn.eq_at (h : c.IsIn text) : c = Cursor.at text c.pos := by
  rw [Cursor.at, ← h.isOn]

theorem Cursor.IsIn.of_movesTo (h : c.IsIn text) (hmove : c.MovesTo after) (hon : after.IsOn text) :
    after.IsIn text := by
  have hstop := hmove.stop_eq
  have hlength := congrArg List.length h.isOn
  have hpos := h.pos_le
  rw [List.length_drop] at hlength
  unfold Cursor.stop at hstop
  exact ⟨hon, by omega⟩

theorem Cursor.IsIn.skipSpaces (h : c.IsIn text) : c.skipSpaces.IsIn text :=
  h.of_movesTo c.movesTo_skipSpaces h.isOn.skipSpaces

theorem Cursor.IsIn.proceeds (h : c.IsIn text) (hafter : c.Proceeds after) : after.IsIn text :=
  h.of_movesTo hafter.movesTo (hafter.isOn h.isOn)

theorem Cursor.IsIn.head?_rest (h : c.IsIn text) : c.rest.head? = text[c.pos]? := by
  rw [h.isOn, List.head?_drop]

theorem Cursor.IsIn.rest_eq_nil_iff (h : c.IsIn text) : c.rest = [] ↔ c.pos = text.length := by
  rw [h.isOn, List.drop_eq_nil_iff]
  exact ⟨fun hle => Nat.le_antisymm h.pos_le hle, Nat.le_of_eq ∘ Eq.symm⟩

/-- The head of the rest as a position of the line. -/
theorem Cursor.IsIn.isStop_iff (h : c.IsIn text) :
    IsStop text c.pos ↔ ∀ x ∈ c.rest.head?, x = '[' := by
  rw [IsStop, ← h.rest_eq_nil_iff, ← h.head?_rest]
  cases c.rest with
  | nil => simp
  | cons x rest => simp

theorem Cursor.IsIn.readExpr?_eq_none_iff (h : c.IsIn text) :
    readExpr? c = none ↔ IsStop text c.skipSpaces.pos := by
  rw [LogoLang.readExpr?_eq_none_iff, h.skipSpaces.isStop_iff]

/-- After a loop the cursor is on its line, and at no space if it was at none. -/
theorem Repeats.isIn {α : Type} {read? : Cursor → Option (α × Cursor)} {items : List α}
    (h : Repeats read? c items after)
    (hread : ∀ {c c' : Cursor} {a : α}, read? c = some (a, c') → c.Proceeds c')
    (hc : c.IsIn text) (hspaces : c.skipSpaces = c) :
    after.IsIn text ∧ after.skipSpaces = after := by
  rcases h.proceeds hread with rfl | hproceeds
  · exact ⟨hc, hspaces⟩
  · exact ⟨hc.proceeds hproceeds, hproceeds.skipSpaces_eq⟩

/-- A call stops at the end of its line or at a bracket. -/
theorem isStop_of_readCall? {index : Nat} {stmt : Stmt} (hc : c.IsIn text)
    (h : readCall? c index = some (stmt, after)) : after.IsIn text ∧ IsStop text after.pos := by
  simp only [readCall?, Option.map_eq_some_iff, Prod.exists] at h
  obtain ⟨name, c₁, hname, heq⟩ := h
  cases heq
  have hname := proceeds_of_readFunctionName? hname
  have hargs := repeats_readExprs c₁
  obtain ⟨hin, hspaces⟩ :=
    hargs.isIn proceeds_of_readExpr? (hc.proceeds hname) hname.skipSpaces_eq
  have hstop := hin.readExpr?_eq_none_iff.1 hargs.eq_none
  rw [hspaces] at hstop
  exact ⟨hin, hstop⟩

/-- A label that is missing leaves the cursor where it is. -/
theorem Cursor.IsIn.getD {read? : Option (Label × Cursor)} (hc : c.IsIn text)
    (hspaces : c.skipSpaces = c)
    (hread : ∀ label after, read? = some (label, after) → c.Proceeds after) (label : Label) :
    (read?.getD (label, c)).2.IsIn text ∧
      (read?.getD (label, c)).2.skipSpaces = (read?.getD (label, c)).2 := by
  cases read? with
  | none => exact ⟨hc, hspaces⟩
  | some result =>
    have hproceeds := hread result.1 result.2 rfl
    exact ⟨hc.proceeds hproceeds, hproceeds.skipSpaces_eq⟩

/-- A heading is read to the end of its line. -/
theorem pos_of_readDecl? {decl : Decl} (h : readDecl? text = some (decl, after)) :
    after.pos = text.length := by
  simp only [readDecl?, Option.map_eq_some_iff, Prod.exists] at h
  obtain ⟨span, c, hkey, heq⟩ := h
  cases heq
  have hstart : (Cursor.start text).IsIn text := ⟨rfl, Nat.zero_le _⟩
  have hto : (Cursor.start text).Proceeds c := ⟨_, [], Cursor.passes_of_keyword? (by decide) hkey⟩
  obtain ⟨hin, hspaces⟩ := (hstart.proceeds hto).getD hto.skipSpaces_eq
    (fun _ _ => proceeds_of_readFunctionName?) (.malformed (missingPart .missingName c))
  have hparams := repeats_readParams ((readFunctionName? c).getD
    (.malformed (missingPart .missingName c), c)).2
  obtain ⟨hend, hspaces'⟩ := hparams.isIn proceeds_of_readTarget? hin hspaces
  have hnil := readTarget?_eq_none_iff.1 hparams.eq_none
  rw [hspaces'] at hnil
  exact hend.rest_eq_nil_iff.1 hnil

/-- What reading from a cursor of a line comes to. -/
structure Cursor.Progresses (text : Text) (c : Cursor) : Prop where
  /-- An expression is read unless only spaces stand before the end of the line or a bracket. -/
  none_iff : readExpr? c = none ↔ IsStop text c.skipSpaces.pos
  /-- An expression takes up text of the line, and so do the spaces after it. -/
  moves : ∀ e after, readExpr? c = some (e, after) →
    after = Cursor.at text after.pos ∧ c.skipSpaces.pos < after.pos ∧ after.pos ≤ text.length ∧
      ∀ x ∈ text[after.pos]?, isSpace x = false
  /-- The recursion over operands ends. -/
  returns : ∀ result, c.Returns result ↔ result = readExpr? c
  /-- The loops over arguments and parameters end. -/
  args : Repeats readExpr? c (readExprs c).1 (readExprs c).2
  params : Repeats readTarget? c (readParams c).1 (readParams c).2
  /-- A call is read unless only spaces are left, and stops at the end of the line or at a bracket. -/
  call_none_iff : ∀ index, readCall? c index = none ↔ c.skipSpaces.pos = text.length
  call_stop : ∀ index stmt after, readCall? c index = some (stmt, after) →
    after = Cursor.at text after.pos ∧ IsStop text after.pos

theorem Cursor.IsIn.progresses (hc : c.IsIn text) : c.Progresses text where
  none_iff := hc.readExpr?_eq_none_iff
  moves e after h := by
    have hproceeds := proceeds_of_readExpr? h
    have hafter := hc.proceeds hproceeds
    refine ⟨hafter.eq_at, hproceeds.pos_lt, hafter.pos_le, ?_⟩
    rw [← hafter.head?_rest, ← hproceeds.skipSpaces_eq]
    exact head_skipSpaces after
  returns _ := Cursor.returns_iff
  args := repeats_readExprs c
  params := repeats_readParams c
  call_none_iff index := by
    rw [readCall?, Option.map_eq_none_iff, readFunctionName?_eq_none_iff,
      hc.skipSpaces.rest_eq_nil_iff]
  call_stop index stmt after h := by
    obtain ⟨hafter, hstop⟩ := isStop_of_readCall? hc h
    exact ⟨hafter.eq_at, hstop⟩

/-- **Reading always goes on and never gives up early.** From every position of every line an expression
is read unless the end of the line or a bracket comes next, it takes up text, the recursion and the loops
end, a call stops at the end of the line or at a bracket, and a heading takes up its whole line. -/
theorem reading_progresses (text : Text) :
    (∀ pos, pos ≤ text.length → (Cursor.at text pos).Progresses text) ∧
    ∀ decl after, readDecl? text = some (decl, after) → after.pos = text.length :=
  ⟨fun _ hpos => Cursor.IsIn.progresses ⟨Cursor.isOn_at text _, hpos⟩, fun _ _ => pos_of_readDecl?⟩

/-- Before a bracket no operand is read. -/
theorem reading_progresses_bracket :
    1 ≤ "+ [".toList.length ∧ readExpr? (Cursor.at "+ [".toList 1) = none :=
  ⟨by decide, ((reading_progresses "+ [".toList).1 1 (by decide)).none_iff.2 (.inr (by decide))⟩

end Line

end LogoLang
