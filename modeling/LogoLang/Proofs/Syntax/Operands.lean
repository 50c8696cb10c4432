import LogoLang.Proofs.Syntax.Embedding

set_option autoImplicit false

/-! # Expressions step by step

How an expression is read, without the bound on the nesting (`readExpr?_eq`), and as a relation with one
case for each way in which an operand can stand in a line (`Cursor.Parses`). The relation holds exactly
of what is read (`Cursor.parses_iff`), and it gives the order of what was read: an operator stands before
its operands, the left one before the right one, and nothing but spaces stands between two words
(`Cursor.Parses.passes`). -/

namespace LogoLang

/-! ## Reading without fuel -/

/-- What an operator and its operands are read as. -/
def readOperands (op : BinaryOp) (span : Span) (c : Cursor) : Expr × Cursor :=
  let (left, c₁) := orMissing c (readExpr? c)
  let (right, c₂) := orMissing c₁ (readExpr? c₁)
  (.binary op left right (span.cover [left.span, right.span]), c₂)

theorem Cursor.movesTo_orMissing (c : Cursor) : c.MovesTo (orMissing c (readExpr? c)).2 :=
  movesTo_operand _ c

/-- **An expression is a leaf, or an operator with two operands that are read like expressions.** -/
theorem readExpr?_eq (c : Cursor) :
    readExpr? c = match readLeafBefore? c with
      | some result => some result
      | none =>
        match c.oneOf? operatorKeywords with
        | some (op, span, c₁) => some (readOperands op span c₁)
        | none => readLeafAfter? c := by
  rw [readExpr?, readExprWith?]
  cases readLeafBefore? c with
  | some result => rfl
  | none =>
    cases hop : c.oneOf? operatorKeywords with
    | none => rfl
    | some result =>
      obtain ⟨op, span, c₁⟩ := result
      have hlength := Cursor.length_lt_of_oneOf? (by decide) hop
      have hleft : readExprWith? c.rest.length c₁ = readExpr? c₁ :=
        readExprWith?_fuel hlength (Nat.lt_succ_self _)
      have hlength' := (Cursor.movesTo_orMissing c₁).length_le
      have hright : readExprWith? c.rest.length (orMissing c₁ (readExpr? c₁)).2 =
          readExpr? (orMissing c₁ (readExpr? c₁)).2 :=
        readExprWith?_fuel (Nat.lt_of_le_of_lt hlength' hlength) (Nat.lt_succ_self _)
      simp only [readOperands, hleft, hright]

/-- How an operand is read: it is one of the leaves that are tried before the operators, an operator
    with its operands, one of the leaves that are tried after them, or not there. -/
inductive Cursor.Parses : Cursor → Expr → Cursor → Prop where
  | before {c after : Cursor} {e : Expr} (hleaf : readLeafBefore? c = some (e, after)) :
      Cursor.Parses c e after
  | binary {c c₁ c₂ c₃ : Cursor} {op : BinaryOp} {span : Span} {left right : Expr}
      (hbefore : readLeafBefore? c = none)
      (hop : c.oneOf? operatorKeywords = some (op, span, c₁))
      (hleft : Cursor.Parses c₁ left c₂) (hright : Cursor.Parses c₂ right c₃) :
      Cursor.Parses c (.binary op left right (span.cover [left.span, right.span])) c₃
  | after {c after : Cursor} {e : Expr} (hbefore : readLeafBefore? c = none)
      (hop : c.oneOf? operatorKeywords = none) (hleaf : readLeafAfter? c = some (e, after)) :
      Cursor.Parses c e after
  | missing {c : Cursor} (hnone : readExpr? c = none) : Cursor.Parses c (missingOperand c) c

theorem Cursor.Parses.orMissing_eq {c after : Cursor} {e : Expr} (h : c.Parses e after) :
    orMissing c (readExpr? c) = (e, after) := by
  induction h with
  | before hleaf =>
    rw [readExpr?_eq, hleaf]
    rfl
  | binary hbefore hop _ _ ihleft ihright =>
    rw [readExpr?_eq, hbefore, hop]
    simp only [orMissing, Option.getD_some, readOperands] at ihleft ihright ⊢
    rw [ihleft, ihright]
  | after hbefore hop hleaf =>
    rw [readExpr?_eq, hbefore, hop, hleaf]
    rfl
  | missing hnone =>
    rw [hnone]
    rfl

theorem Cursor.parses_operand (c : Cursor) :
    c.Parses (orMissing c (readExpr? c)).1 (orMissing c (readExpr? c)).2 := by
  -- each operator takes up text, so that less is left for its operands
  induction hlength : c.rest.length using Nat.strong_induction_on generalizing c with
  | _ length ih =>
    subst hlength
    rw [readExpr?_eq]
    cases hbefore : readLeafBefore? c with
    | some result => exact .before hbefore
    | none =>
      cases hop : c.oneOf? operatorKeywords with
      | some result =>
        obtain ⟨op, span, c₁⟩ := result
        have hless := Cursor.length_lt_of_oneOf? (by decide) hop
        have hless' := Nat.lt_of_le_of_lt (Cursor.movesTo_orMissing c₁).length_le hless
        exact .binary hbefore hop (ih _ hless c₁ rfl) (ih _ hless' _ rfl)
      | none =>
        cases hleaf : readLeafAfter? c with
        | some result => exact .after hbefore hop hleaf
        | none =>
          refine .missing ?_
          rw [readExpr?_eq, hbefore, hop, hleaf]

/-- **The relation holds exactly of what is read.** -/
theorem Cursor.parses_iff {c after : Cursor} {e : Expr} :
    c.Parses e after ↔ orMissing c (readExpr? c) = (e, after) := by
  refine ⟨Cursor.Parses.orMissing_eq, fun h => ?_⟩
  have hparses := c.parses_operand
  rwa [h] at hparses

theorem Cursor.parses_of_readExpr? {c after : Cursor} {e : Expr}
    (h : readExpr? c = some (e, after)) : c.Parses e after := by
  rw [Cursor.parses_iff, h]
  rfl

/-- What is read after the spaces in front of an expression. -/
theorem Cursor.parses_skipSpaces_of_readExpr? {c after : Cursor} {e : Expr}
    (h : readExpr? c = some (e, after)) : c.skipSpaces.Parses e after := by
  refine Cursor.parses_of_readExpr? ?_
  rw [readExpr?_skipSpaces, h]

/-! ## Words -/

/-- The places of the words of an expression, in order. A missing operand has none. -/
def Expr.tokens : Expr → List Span
  | .truth _ span | .number _ span | .var _ span | .query _ span => [span]
  | .malformed flaw => if flaw.span.length = 0 then [] else [flaw.span]
  | .binary op left right span =>
    ⟨span.start, op.keyword.length⟩ :: (left.tokens ++ right.tokens)

/-- From one cursor to another there are words at the given places, and nothing but spaces before each
    of them and after the last one. -/
def Cursor.Passes (c : Cursor) : List Span → Cursor → Prop
  | [], after => after = c.skipSpaces
  | token :: rest, after =>
    token.start = c.skipSpaces.pos ∧ 0 < token.length ∧
      token.length ≤ c.skipSpaces.rest.length ∧
      (c.skipSpaces.advance token.length).Passes rest after

section Passes

variable {c c' after : Cursor} {tokens : List Span}

theorem Cursor.Passes.of_skipSpaces (h : c.skipSpaces.Passes tokens after) :
    c.Passes tokens after := by
  cases tokens with
  | nil => rwa [Cursor.Passes, Cursor.skipSpaces_idem] at h
  | cons token rest => rwa [Cursor.Passes, Cursor.skipSpaces_idem] at h

theorem Cursor.Passes.trans {more : List Span} (h : c.Passes tokens c') (h' : c'.Passes more after) :
    c.Passes (tokens ++ more) after := by
  induction tokens generalizing c with
  | nil =>
    cases h
    exact h'.of_skipSpaces
  | cons token rest ih => exact ⟨h.1, h.2.1, h.2.2.1, ih h.2.2.2⟩

/-- No space is left behind the words. -/
theorem Cursor.Passes.skipSpaces_eq (h : c.Passes tokens after) : after.skipSpaces = after := by
  induction tokens generalizing c with
  | nil =>
    cases h
    exact c.skipSpaces_idem
  | cons token rest ih => exact ih h.2.2.2

/-- A word stands after the cursor, with spaces at most before it. -/
theorem Cursor.Passes.pos_le {span : Span} (h : c.Passes [span] after) : c.pos ≤ span.start := by
  rw [h.1]
  exact (Cursor.movesTo_skipSpaces c).pos_le

/-- A word ends by the cursor after it. -/
theorem Cursor.Passes.stop_le {span : Span} (h : c.Passes [span] after) : span.stop ≤ after.pos := by
  obtain ⟨hstart, _, _, hafter⟩ := h
  rw [Span.stop, hstart, hafter]
  exact (Cursor.movesTo_skipSpaces (c.skipSpaces.advance span.length)).pos_le

theorem Cursor.passes_after {length : Nat} (hpos : 0 < length)
    (hle : length ≤ c.skipSpaces.rest.length) :
    c.Passes [c.skipSpaces.spanOf length] (c.skipSpaces.after length) :=
  ⟨rfl, hpos, hle, rfl⟩

theorem Cursor.passes_takeWhile {p : Char → Bool} (hne : c.skipSpaces.rest.takeWhile p ≠ []) :
    c.Passes [c.skipSpaces.spanOf (c.skipSpaces.rest.takeWhile p).length]
      (c.skipSpaces.after (c.skipSpaces.rest.takeWhile p).length) :=
  Cursor.passes_after (List.length_pos_iff.2 hne) (length_takeWhile_le p _)

theorem Cursor.passes_signed {sign : Char} {rest : Text} (p : Char → Bool)
    (hrest : c.skipSpaces.rest = sign :: rest) :
    c.Passes [c.skipSpaces.spanOf ((rest.takeWhile p).length + 1)]
      (c.skipSpaces.after ((rest.takeWhile p).length + 1)) := by
  refine Cursor.passes_after (Nat.succ_pos _) ?_
  rw [hrest, List.length_cons]
  exact Nat.succ_le_succ (length_takeWhile_le p rest)

theorem Cursor.passes_of_keyword? {keyword : Text} {span : Span} (hne : keyword ≠ [])
    (h : c.keyword? keyword = some (span, after)) : c.Passes [span] after := by
  obtain ⟨⟨rest, hrest, _⟩, rfl, rfl⟩ := Cursor.keyword?_eq_some_iff.1 h
  refine Cursor.passes_after (List.length_pos_iff.2 hne) ?_
  rw [Cursor.skipSpaces_rest, hrest, List.length_append]
  omega

theorem Cursor.passes_of_oneOf? {α : Type} {keywords : List (Text × α)} {a : α} {span : Span}
    (hne : ∀ entry ∈ keywords, entry.1 ≠ []) (h : c.oneOf? keywords = some (a, span, after)) :
    c.Passes [span] after := by
  obtain ⟨keyword, hmem, hkey⟩ := Cursor.oneOf?_eq_some h
  exact Cursor.passes_of_keyword? (hne _ hmem) hkey

end Passes

/-! ## Leaves -/

/-- An expression of one node that takes up one word. -/
structure Cursor.ReadsWord (c : Cursor) (e : Expr) (after : Cursor) : Prop where
  passes : c.Passes [e.span] after
  nodes : e.nodes = [e]

section Leaves

variable {c after : Cursor} {e : Expr}

theorem readsWord_of_readLeafBefore? (h : readLeafBefore? c = some (e, after)) :
    c.ReadsWord e after := by
  simp only [readLeafBefore?, Option.or_eq_some_iff] at h
  rcases h with h | ⟨_, h | ⟨_, h⟩⟩
  · simp only [readTruth?, Option.map_eq_some_iff, Prod.exists] at h
    obtain ⟨value, span, after', hkey, hexpr⟩ := h
    cases hexpr
    exact ⟨Cursor.passes_of_oneOf? (by decide) hkey, rfl⟩
  · simp only [readNumberLiteral?] at h
    split at h
    · next rest hrest =>
      split at h
      · exact absurd h (by simp)
      · cases h
        split <;> exact ⟨Cursor.passes_signed isNumberChar hrest, rfl⟩
    · exact absurd h (by simp)
  · simp only [readVariable?] at h
    split at h
    · next rest hrest =>
      split at h
      · exact absurd h (by simp)
      · cases h
        split <;> exact ⟨Cursor.passes_signed (!variableStops.contains ·) hrest, rfl⟩
    · exact absurd h (by simp)

theorem readsWord_of_readLeafAfter? (h : readLeafAfter? c = some (e, after)) :
    c.ReadsWord e after := by
  simp only [readLeafAfter?, Option.or_eq_some_iff] at h
  rcases h with h | ⟨_, h⟩
  · simp only [readQuery?, Option.map_eq_some_iff, Prod.exists] at h
    obtain ⟨query, span, after', hkey, hexpr⟩ := h
    cases hexpr
    exact ⟨Cursor.passes_of_oneOf? (by decide) hkey, rfl⟩
  · simp only [readUnexpected?, Cursor.wordUntil, List.isEmpty_iff] at h
    split at h
    · exact absurd h (by simp)
    · next hne =>
      cases h
      exact ⟨Cursor.passes_takeWhile hne, rfl⟩

theorem Cursor.not_readsWord_binary {op : BinaryOp} {left right : Expr} {span : Span} :
    ¬ c.ReadsWord (.binary op left right span) after := by
  intro h
  have hnodes := h.nodes
  simp [Expr.nodes, List.ne_nil_of_mem left.self_mem_nodes] at hnodes

theorem Cursor.ReadsWord.tokens_eq (h : c.ReadsWord e after) : e.tokens = [e.span] := by
  have hpos : 0 < e.span.length := h.passes.2.1
  cases e with
  | truth | number | var | query => rfl
  | malformed flaw => exact if_neg (Nat.ne_of_gt hpos)
  | binary op left right span => exact absurd h Cursor.not_readsWord_binary

theorem Cursor.ReadsWord.start_eq (h : c.ReadsWord e after) : e.span.start = c.skipSpaces.pos :=
  h.passes.1

theorem Cursor.ReadsWord.within (h : c.ReadsWord e after) :
    ∀ node ∈ e.nodes, c.pos ≤ node.span.start ∧ node.span.stop ≤ after.pos := by
  rw [h.nodes, List.forall_mem_singleton]
  exact ⟨h.passes.pos_le, h.passes.stop_le⟩

end Leaves

/-! ## The order of what is read -/

section Order

variable {c after : Cursor} {e : Expr}

theorem Cursor.start_of_oneOf? {α : Type} {keywords : List (Text × α)} {a : α} {span : Span}
    (h : c.oneOf? keywords = some (a, span, after)) : span.start = c.skipSpaces.pos := by
  obtain ⟨keyword, _, hkey⟩ := Cursor.oneOf?_eq_some h
  obtain ⟨_, rfl, _⟩ := Cursor.keyword?_eq_some_iff.1 hkey
  rfl

/-- The operator that is read is the one whose word stands there. -/
theorem Cursor.keyword?_of_operator {op : BinaryOp} {span : Span}
    (h : c.oneOf? operatorKeywords = some (op, span, after)) :
    c.keyword? op.keyword = some (span, after) := by
  have hword : ∀ entry ∈ operatorKeywords, entry.1 = entry.2.keyword := by decide
  obtain ⟨keyword, hmem, hkey⟩ := Cursor.oneOf?_eq_some h
  rw [← hword _ hmem]
  exact hkey

/-- **Between the words of an expression there are only spaces**, and after the last one, too. -/
theorem Cursor.Parses.passes (h : c.Parses e after) (hc : c.skipSpaces = c) :
    c.Passes e.tokens after := by
  induction h with
  | before hleaf =>
    have hword := readsWord_of_readLeafBefore? hleaf
    rw [hword.tokens_eq]
    exact hword.passes
  | @binary c c₁ c₂ c₃ op span left right hbefore hop hleft hright ihleft ihright =>
    have hkey := Cursor.keyword?_of_operator hop
    have hoperator := Cursor.passes_of_keyword? op.head_keyword.1 hkey
    have hspan : span = ⟨span.start, op.keyword.length⟩ := by
      rw [(Cursor.keyword?_eq_some_iff.1 hkey).2.1]
      rfl
    have hpassed := ihleft hoperator.skipSpaces_eq
    have hall := hoperator.trans (hpassed.trans (ihright hpassed.skipSpaces_eq))
    rwa [hspan] at hall
  | after hbefore hop hleaf =>
    have hword := readsWord_of_readLeafAfter? hleaf
    rw [hword.tokens_eq]
    exact hword.passes
  | missing hnone => exact hc.symm

theorem Cursor.Parses.movesTo (h : c.Parses e after) : c.MovesTo after := by
  have hmove := Cursor.movesTo_orMissing c
  rwa [h.orMissing_eq] at hmove

/-- **All nodes stand between the two cursors.** -/
theorem Cursor.Parses.within (h : c.Parses e after) :
    ∀ node ∈ e.nodes, c.pos ≤ node.span.start ∧ node.span.stop ≤ after.pos := by
  induction h with
  | before hleaf => exact (readsWord_of_readLeafBefore? hleaf).within
  | @binary c c₁ c₂ c₃ op span left right hbefore hop hleft hright ihleft ihright =>
    have htakes := Cursor.takes_of_oneOf? (by decide) hop
    refine Expr.forall_mem_nodes_binary.2 ⟨⟨?_, ?_⟩, ?_, ?_⟩
    · exact Nat.le_trans (Cursor.movesTo_skipSpaces c).pos_le
        (Nat.le_of_eq (Cursor.start_of_oneOf? hop).symm)
    · refine Span.stop_cover_le (Nat.le_trans htakes.stop_le ?_) ?_
      · exact (hleft.movesTo.trans hright.movesTo).pos_le
      · rw [List.forall_mem_cons, List.forall_mem_singleton]
        exact ⟨Nat.le_trans (ihleft _ left.self_mem_nodes).2 hright.movesTo.pos_le,
          (ihright _ right.self_mem_nodes).2⟩
    · exact fun node hnode => ⟨Nat.le_trans htakes.moves.pos_le (ihleft node hnode).1,
        Nat.le_trans (ihleft node hnode).2 hright.movesTo.pos_le⟩
    · exact fun node hnode =>
        ⟨Nat.le_trans (htakes.moves.trans hleft.movesTo).pos_le (ihright node hnode).1,
          (ihright node hnode).2⟩
  | after hbefore hop hleaf => exact (readsWord_of_readLeafAfter? hleaf).within
  | missing hnone => exact List.forall_mem_singleton.2 ⟨Nat.le_refl _, Nat.le_refl _⟩

end Order

/-! ## Nodes in their line -/

/-- What is left at the cursor is what is left of the line from there on. -/
def Cursor.IsOn (line : Text) (c : Cursor) : Prop := c.rest = line.drop c.pos

section Nodes

variable {line : Text} {c after : Cursor} {e : Expr}

theorem Cursor.isOn_at (line : Text) (pos : Nat) : (Cursor.at line pos).IsOn line := rfl

theorem Cursor.IsOn.advance (h : c.IsOn line) (count : Nat) : (c.advance count).IsOn line := by
  unfold Cursor.IsOn Cursor.advance
  rw [h, List.drop_drop]

theorem Cursor.IsOn.skipSpaces (h : c.IsOn line) : c.skipSpaces.IsOn line := h.advance _

theorem Cursor.Passes.isOn {tokens : List Span} (h : c.Passes tokens after) (hc : c.IsOn line) :
    after.IsOn line := by
  induction tokens generalizing c with
  | nil =>
    cases h
    exact hc.skipSpaces
  | cons token rest ih => exact ih h.2.2.2 (hc.skipSpaces.advance _)

theorem Cursor.Parses.isOn (h : c.Parses e after) (hc : c.IsOn line) : after.IsOn line := by
  induction h with
  | before hleaf => exact (readsWord_of_readLeafBefore? hleaf).passes.isOn hc
  | binary hbefore hop _ _ ihleft ihright =>
    exact ihright (ihleft ((Cursor.passes_of_oneOf? (by decide) hop).isOn hc))
  | after hbefore hop hleaf => exact (readsWord_of_readLeafAfter? hleaf).passes.isOn hc
  | missing hnone => exact hc

/-- **Every node of an expression was read somewhere on its line.** -/
theorem Cursor.Parses.exists_of_mem_nodes (h : c.Parses e after) (hc : c.IsOn line) :
    ∀ node ∈ e.nodes, ∃ c' after' : Cursor, c'.IsOn line ∧ c'.Parses node after' := by
  induction h with
  | before hleaf =>
    rw [(readsWord_of_readLeafBefore? hleaf).nodes, List.forall_mem_singleton]
    exact ⟨_, _, hc, .before hleaf⟩
  | binary hbefore hop hleft hright ihleft ihright =>
    have hc₁ := (Cursor.passes_of_oneOf? (by decide) hop).isOn hc
    exact Expr.forall_mem_nodes_binary.2 ⟨⟨_, _, hc, .binary hbefore hop hleft hright⟩,
      ihleft hc₁, ihright (hleft.isOn hc₁)⟩
  | after hbefore hop hleaf =>
    rw [(readsWord_of_readLeafAfter? hleaf).nodes, List.forall_mem_singleton]
    exact ⟨_, _, hc, .after hbefore hop hleaf⟩
  | missing hnone => exact List.forall_mem_singleton.2 ⟨_, _, hc, .missing hnone⟩

/-- An operator with its operands, as they stand in a line: the word of the operator, then the nodes of
    the left operand, then those of the right one. -/
structure OperandsFollow (line : Text) (op : BinaryOp) (left right : Expr) (span : Span) : Prop where
  word : op.keyword <+: line.drop span.start
  operator : ∀ node ∈ left.nodes ++ right.nodes, span.start + op.keyword.length ≤ node.span.start
  operands : ∀ node ∈ left.nodes, ∀ node' ∈ right.nodes, node.span.stop ≤ node'.span.start

theorem Cursor.Parses.operandsFollow {op : BinaryOp} {left right : Expr} {span : Span}
    (h : c.Parses (.binary op left right span) after) (hc : c.IsOn line) :
    OperandsFollow line op left right span := by
  cases h with
  | before hleaf => exact absurd (readsWord_of_readLeafBefore? hleaf) Cursor.not_readsWord_binary
  | after _ _ hleaf => exact absurd (readsWord_of_readLeafAfter? hleaf) Cursor.not_readsWord_binary
  | @binary _ c₁ c₂ _ _ opSpan _ _ hbefore hop hleft hright =>
    have hkey := Cursor.keyword?_of_operator hop
    obtain ⟨⟨rest, hrest, _⟩, hspan, hafter⟩ := Cursor.keyword?_eq_some_iff.1 hkey
    have hstart : opSpan.start = c.skipSpaces.pos := Cursor.start_of_oneOf? hop
    have hstop : opSpan.start + op.keyword.length ≤ c₁.pos := by
      rw [hafter, hstart]
      exact (Cursor.movesTo_skipSpaces (c.skipSpaces.advance op.keyword.length)).pos_le
    refine ⟨?_, ?_, ?_⟩
    · refine ⟨rest, ?_⟩
      rw [← hrest, ← Cursor.skipSpaces_rest, hc.skipSpaces, ← hstart]
      rfl
    · refine List.forall_mem_append.2 ⟨fun node hnode => ?_, fun node hnode => ?_⟩
      · exact Nat.le_trans hstop (hleft.within node hnode).1
      · exact Nat.le_trans hstop (Nat.le_trans hleft.movesTo.pos_le (hright.within node hnode).1)
    · exact fun node hnode node' hnode' =>
        Nat.le_trans (hleft.within node hnode).2 (hright.within node' hnode').1

end Nodes

end LogoLang
