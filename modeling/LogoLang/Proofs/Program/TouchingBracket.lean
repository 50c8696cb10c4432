import LogoLang.Proofs.Program.CallLine
import LogoLang.Proofs.Syntax.Touching

set_option autoImplicit false

/-! # Brackets that touch the condition

The space before the bracket of a block can be left out, unless the condition ends with a variable: the
name of the variable takes in the bracket, and the program is refused
(`touching_bracket_iff`). -/

namespace LogoLang

/-! ## Conditions and their bracket -/

section Conditions

variable (w : WrittenExpr) (distance : Nat)

theorem Expr.shift_zero (e : Expr) : e.shift 0 = e := by
  induction e with
  | truth | number | var | malformed | query => rfl
  | binary op left right span ihl ihr =>
    rw [Expr.shift, ihl, ihr]
    rfl

theorem Cursor.embed_start (text tail : Text) :
    (Cursor.start text).embed distance tail = ⟨distance, text ++ tail⟩ := by
  rw [Cursor.embed, Cursor.start, Nat.zero_add]

/-- An expression that is read as in its own text has taken up this text. -/
theorem WrittenExpr.exists_embedResult (tail : Text) :
    ∃ after, readExpr? (Cursor.start w.text) = some (w.expr, after) ∧ after.rest = [] ∧
      embedResult distance tail (w.expr, after) =
        (w.expr.shift distance, Cursor.skipSpaces ⟨w.text.length + distance, tail⟩) := by
  obtain ⟨after, hread, hrest⟩ := w.whole
  have hstop := (reads_of_readExprWith? hread).takes.moves.pos_le_length
  rw [hrest, List.length_nil, Nat.add_zero] at hstop
  exact ⟨after, hread, hrest, by rw [embedResult, Cursor.embed, hrest, hstop, List.nil_append]⟩

theorem WrittenExpr.read_spaced :
    readExpr? ⟨distance, w.text ++ [' ', '[']⟩ =
      some (w.expr.shift distance, ⟨w.text.length + 1 + distance, ['[']⟩) := by
  obtain ⟨after, hread, _, hresult⟩ :=
    w.exists_embedResult distance [' ', '[']
  have hskip : Cursor.skipSpaces ⟨w.text.length + distance, [' ', '[']⟩ =
      ⟨w.text.length + 1 + distance, ['[']⟩ := by
    rw [Cursor.skipSpaces_space, Nat.add_right_comm]
    rfl
  rw [← Cursor.embed_start, readExpr?_embed hread w.flawless (endsWord_space _), hresult, hskip]

theorem endsToken_bracket : EndsToken ['['] := by
  intro x hx
  cases hx
  decide

theorem WrittenExpr.read_touching (hvar : w.expr.endsInVariable = false) :
    readExpr? ⟨distance, w.text ++ ['[']⟩ =
      some (w.expr.shift distance, ⟨w.text.length + distance, ['[']⟩) := by
  obtain ⟨after, hread, _, hresult⟩ := w.exists_embedResult distance ['[']
  have hembed := (Cursor.parses_of_readExpr? hread).touching distance w.flawless
    endsToken_bracket (by simp [hvar])
  rw [← Cursor.embed_start, hembed, hresult]
  rfl

theorem WrittenExpr.read_swallowing (hvar : w.expr.endsInVariable = true)
    (htight : ∀ x ∈ w.text.getLast?, isSpace x = false) :
    ∃ result, readExpr? ⟨distance, w.text ++ ['[']⟩ = some result ∧ result.2.rest = [] := by
  obtain ⟨after, hread, hrest, _⟩ := w.exists_embedResult distance ['[']
  rw [← Cursor.embed_start]
  exact (Cursor.parses_of_readExpr? hread).swallowing distance w.flawless (Cursor.isOn_at w.text 0)
    htight hrest hvar endsToken_bracket (List.forall_mem_singleton.2 (by decide))

end Conditions

/-! ## Lines in place of others -/

/-- The balance check looks at nothing of a line but its class and its bracket. -/
theorem checkBalance_replace {before after : List Text} {line line' : Text}
    (hclass : LineClass.of line = LineClass.of line')
    (hbracket : endsWithBracket line = endsWithBracket line') :
    checkBalance (before ++ line :: after) = .ok () ↔
      checkBalance (before ++ line' :: after) = .ok () := by
  simp only [checkBalance_eq_ok_iff, List.forall_mem_append, List.forall_mem_cons, List.map_append,
    List.map_cons, hclass, hbracket]

/-- Lines that do the same to whatever has been assembled can stand in place of each other. -/
theorem assemble_replace {before after : List Text} {line line' : Text}
    (hstep : ∀ s : Assembly, s.step before.length line = s.step before.length line') :
    assemble (before ++ line :: after) = assemble (before ++ line' :: after) := by
  simp only [assemble_eq_through, List.zipIdx_append, Nat.zero_add, List.zipIdx_cons,
    Assembly.through, List.foldlM_append, List.foldlM_cons, hstep]

/-- A line that is taken in is one that assembly has a move for. -/
theorem exists_moves_of_assemble {before after : List Text} {line : Text} {table : FunctionTable}
    (h : assemble (before ++ line :: after) = .ok table) :
    ∃ s t, Assembly.Moves before.length line s t := by
  rw [assemble_eq_through, List.zipIdx_append, Nat.zero_add, List.zipIdx_cons,
    Assembly.through_append] at h
  obtain ⟨_, hrun, _⟩ := Except.bind_eq_ok_iff.1 h
  obtain ⟨s, _, hrest⟩ := Except.bind_eq_ok_iff.1 hrun
  obtain ⟨t, hmove, _⟩ := Assembly.through_cons_eq_ok_iff.1 hrest
  exact ⟨s, t, hmove⟩

/-! ## Headers -/

/-- The header of a block: its word, a space, its condition, and what follows that. -/
def openingLine (kind : BlockKind) (condition tail : Text) : Text :=
  kind.keyword ++ ' ' :: (condition ++ tail)

section Headers

variable {kind : BlockKind} {w : WrittenExpr} {index : Nat}

theorem openingLine_facts (kind : BlockKind) (condition gap : Text) :
    LineShape.of (openingLine kind condition (gap ++ ['['])) = .statement ∧
      LineClass.of (openingLine kind condition (gap ++ ['['])) = .opener ∧
      endsWithBracket (openingLine kind condition (gap ++ ['['])) = true := by
  have htail := endsWord_space (condition ++ (gap ++ ['[']))
  refine ⟨LineShape.of_keyword kind.keyword_mem htail, LineClass.of_blockKeyword kind htail, ?_⟩
  have hbracket := endsWithBracket_blockKeyword kind (' ' :: (condition ++ gap))
  rwa [List.cons_append, List.append_assoc] at hbracket

theorem readStmt?_openingLine (index : Nat) {condition tail : Text} {e : Expr} {c : Cursor}
    (hread : readExpr? ⟨kind.keyword.length + 1, condition ++ tail⟩ = some (e, c)) :
    readStmt? (openingLine kind condition tail) index = some (.block kind e [] index, c) := by
  rw [← readExpr?_skipSpaces] at hread
  rw [openingLine, readStmt?_commandWord index kind.keyword_mem (endsWord_space _),
    Cursor.skipSpaces_space]
  simp only [StmtForm.read, readOperand, hread, Option.getD_some]

theorem step_spaced (s : Assembly) :
    s.step index (openingLine kind w.text [' ', '[']) =
      .ok { s with
        pending := ⟨kind, w.expr.shift (kind.keyword.length + 1), index⟩ :: s.pending
        scopes := [] :: s.scopes } :=
  Assembly.step_eq_ok_iff.2 (.header (openingLine_facts kind w.text [' ']).1
    (readStmt?_openingLine index (w.read_spaced _)) rfl (Expr.firstFlaw?_shift w.flawless))

theorem step_touching (hvar : w.expr.endsInVariable = false) (s : Assembly) :
    s.step index (openingLine kind w.text ['[']) =
      .ok { s with
        pending := ⟨kind, w.expr.shift (kind.keyword.length + 1), index⟩ :: s.pending
        scopes := [] :: s.scopes } :=
  Assembly.step_eq_ok_iff.2 (.header (openingLine_facts kind w.text []).1
    (readStmt?_openingLine index (w.read_touching _ hvar)) rfl (Expr.firstFlaw?_shift w.flawless))

/-- A line that is read as a block with nothing left over is not taken in. -/
theorem not_moves_of_swallowing (hvar : w.expr.endsInVariable = true)
    (htight : ∀ x ∈ w.text.getLast?, isSpace x = false) {s t : Assembly} :
    ¬Assembly.Moves index (openingLine kind w.text ['[']) s t := by
  obtain ⟨⟨e, c⟩, hread, hnil⟩ := w.read_swallowing (kind.keyword.length + 1) hvar htight
  have hshape := (openingLine_facts kind w.text []).1
  rw [List.nil_append] at hshape
  have hstmt := readStmt?_openingLine index hread
  intro hmove
  cases hmove with
  | blank h | comment h | close h | heading h | ending h => exact absurd (hshape.symm.trans h) (by simp)
  | statement _ hread' hleaf =>
    rw [hstmt] at hread'
    cases hread'
    exact absurd hleaf (by simp [Stmt.isBlock])
  | header _ hread' hrest =>
    rw [hstmt] at hread'
    cases hread'
    rw [hnil] at hrest
    exact absurd hrest (by decide)

end Headers

/-- **The space before the bracket of a block can be left out exactly if the condition does not end with
    a variable**: the condition is then the same, at the same place, and so is the program. A variable
    takes in the bracket that touches it, and no program with such a header is accepted. -/
theorem touching_bracket_iff (w : WrittenExpr) (htight : ∀ x ∈ w.text.getLast?, isSpace x = false) :
    readExpr? (Cursor.start (w.text ++ [' ', '['])) = some (w.expr, ⟨w.text.length + 1, ['[']⟩) ∧
    (readExpr? (Cursor.start (w.text ++ ['['])) = some (w.expr, ⟨w.text.length, ['[']⟩) ↔
      w.expr.endsInVariable = false) ∧
    ∀ (kind : BlockKind) (before after : List Text) (table : FunctionTable),
      parseProgram (before ++ openingLine kind w.text ['['] :: after) = .ok table ↔
        w.expr.endsInVariable = false ∧
          parseProgram (before ++ openingLine kind w.text [' ', '['] :: after) = .ok table := by
  refine ⟨?_, ?_, fun kind before after table => ?_⟩
  · have hread := w.read_spaced 0
    rwa [Expr.shift_zero] at hread
  · constructor
    · intro htouching
      by_contra hvar
      obtain ⟨result, hread, hnil⟩ :=
        w.read_swallowing 0 (Bool.not_eq_false _ ▸ hvar) htight
      rw [← Cursor.start, htouching] at hread
      cases hread
      exact absurd hnil (by simp)
    · intro hvar
      have hread := w.read_touching 0 hvar
      rwa [Expr.shift_zero] at hread
  · obtain ⟨_, hclass, hbracket⟩ := openingLine_facts kind w.text []
    obtain ⟨_, hclass', hbracket'⟩ := openingLine_facts kind w.text [' ']
    have hbalance : checkBalance (before ++ openingLine kind w.text ['['] :: after) = .ok () ↔
        checkBalance (before ++ openingLine kind w.text [' ', '['] :: after) = .ok () :=
      checkBalance_replace (hclass.trans hclass'.symm) (hbracket.trans hbracket'.symm)
    rw [parseProgram_eq_ok_iff, parseProgram_eq_ok_iff, hbalance]
    cases hvar : w.expr.endsInVariable with
    | false =>
      rw [assemble_replace fun s => (step_touching hvar s).trans (step_spaced s).symm]
      simp
    | true =>
      constructor
      · rintro ⟨_, hassemble⟩
        obtain ⟨s, t, hmove⟩ := exists_moves_of_assemble hassemble
        exact absurd hmove (not_moves_of_swallowing hvar htight)
      · exact fun h => absurd h.1 (by simp)

/-- A comparison with a number at its end, in which a variable stands before a space. -/
def comparison : WrittenExpr where
  text := "EQ :x \"1".toList
  expr := .binary .eq (.var "x".toList ⟨3, 2⟩) (.number 1 ⟨6, 2⟩) ⟨0, 8⟩
  whole := ⟨⟨8, []⟩, by decide +kernel, rfl⟩
  flawless := rfl

theorem touching_bracket_comparison :
    (∀ x ∈ comparison.text.getLast?, isSpace x = false) ∧
      readExpr? (Cursor.start "EQ :x \"1[".toList) = some (comparison.expr, ⟨8, ['[']⟩) ∧
      ∀ table, parseProgram ["WHILE EQ :x \"1[".toList, "]".toList] = .ok table ↔
        parseProgram ["WHILE EQ :x \"1 [".toList, "]".toList] = .ok table := by
  have htight : ∀ x ∈ comparison.text.getLast?, isSpace x = false := by
    intro x hx
    cases hx
    decide
  obtain ⟨_, hread, hprogram⟩ := touching_bracket_iff comparison htight
  refine ⟨htight, hread.2 rfl, fun table => ?_⟩
  exact (hprogram .loop [] ["]".toList] table).trans (and_iff_right rfl)

/-- A variable at the end takes in the bracket, and its header is no longer one. -/
theorem readExpr?_swallowed_bracket :
    readExpr? (Cursor.start ":x [".toList) = some (.var "x".toList ⟨0, 2⟩, ⟨3, ['[']⟩) ∧
      readExpr? (Cursor.start ":x[".toList) =
        some (.malformed ⟨.invalidName, ⟨0, 3⟩⟩, ⟨3, []⟩) ∧
      (parseProgram ["IF :x [".toList, "]".toList]).isOk = true ∧
      (parseProgram ["IF :x[".toList, "]".toList]).isOk = false := by
  decide

end LogoLang
