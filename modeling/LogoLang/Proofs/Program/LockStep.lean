import LogoLang.Proofs.Program.Balance
import LogoLang.Proofs.Program.LineView

set_option autoImplicit false

/-! # The two phases in lock-step

The balance check and assembly go through the same lines with stacks of their own. They part company
at hidden headers only, that is at lines that are read as a block although their first word is
neither `IF` nor `WHILE`, because the word touches the condition. `LockStep` lists what both phases
do on any other line that both take in, and `LockSteps` follows them over a program. -/

namespace LogoLang

/-! ## Headers -/

/-- What a line that is read as a block has after the condition. -/
def headerRest? (line : Text) : Option Text :=
  match readStmt? line 0 with
  | some (.block .., c) => some (Text.trimRight c.rest)
  | _ => none

/-- Whether a line is read as a block without being an opener for the balance check. -/
def isHiddenHeader (line : Text) : Bool :=
  (headerRest? line).isSome && LineClass.of line != .opener

/-- Which condition is read, and what is left of the line, does not depend on the number of the
    line. -/
theorem headerRest?_eq_some_iff {line rest : Text} (index : Nat) :
    headerRest? line = some rest ↔
      ∃ kind condition c, readStmt? line index = some (.block kind condition [] index, c) ∧
        rest = Text.trimRight c.rest := by
  simp only [headerRest?, readStmt?]
  cases (Cursor.start line).oneOf? stmtKeywords with
  | some result =>
    obtain ⟨form, span, c₁⟩ := result
    cases form with
    | block kind => simp [StmtForm.read, eq_comm]
    | assign kind | pen down | command cmd => simp [StmtForm.read]
  | none =>
    cases hname : readFunctionName? (Cursor.start line) with
    | none => simp [readCall?, hname]
    | some result => simp [readCall?, hname]

theorem isHiddenHeader_eq_false_of_shape {line : Text} (h : LineShape.of line ≠ .statement) :
    isHiddenHeader line = false := by
  cases hrest : headerRest? line with
  | none => simp [isHiddenHeader, hrest]
  | some rest =>
    obtain ⟨kind, condition, c, hread, _⟩ := (headerRest?_eq_some_iff 0).1 hrest
    exact absurd (LineClass.of_block hread rfl).1 h

theorem isHiddenHeader_eq_false_of_leaf {line : Text} {index : Nat} {stmt : Stmt} {c : Cursor}
    (hread : readStmt? line index = some (stmt, c)) (hleaf : stmt.isBlock = false) :
    isHiddenHeader line = false := by
  cases hrest : headerRest? line with
  | none => simp [isHiddenHeader, hrest]
  | some rest =>
    obtain ⟨kind, condition, c', hread', _⟩ := (headerRest?_eq_some_iff index).1 hrest
    rw [hread] at hread'
    cases hread'
    simp [Stmt.isBlock] at hleaf

theorem isHiddenHeader_of_block {line : Text} {index : Nat} {kind : BlockKind} {condition : Expr}
    {c : Cursor} (hread : readStmt? line index = some (.block kind condition [] index, c)) :
    isHiddenHeader line = true ↔ LineClass.of line = .other := by
  have hrest : headerRest? line = some (Text.trimRight c.rest) :=
    (headerRest?_eq_some_iff index).2 ⟨kind, condition, c, hread, rfl⟩
  rcases (LineClass.of_block hread rfl).2 with hclass | hclass <;>
    simp [isHiddenHeader, hrest, hclass]

/-! ## What a line stands for -/

/-- The statement that a line stands for, the body of a block left empty: the comment that the line
    is, or else what is read from it. -/
def StandsFor (line : Text) (index : Nat) (stmt : Stmt) : Prop :=
  (∃ rest, line.trim = '/' :: '/' :: rest ∧ stmt = .comment (Text.trim rest) index) ∨
    (¬"//".toList <+: line.trim ∧ ∃ c, readStmt? line index = some (stmt, c))

/-! ## Steps -/

/-- What both phases do on a line that both take in and that is no hidden header. -/
inductive LockStep (index : Nat) (line : Text) :
    Balance → Assembly → Balance → Assembly → Prop where
  | blank {a : Balance} {s : Assembly} (htrim : line.trim = []) : LockStep index line a s a s
  | leaf {stmt : Stmt} {a : Balance} {table : FunctionTable} {pending : List BlockHeader}
      {body : List Stmt} {outer : List (List Stmt)} {decl : Option Decl}
      {headings : List (Nat × Decl)} (hclass : LineClass.of line = .other) (htrim : line.trim ≠ [])
      (hstands : StandsFor line index stmt) (hleaf : stmt.isBlock = false) :
      LockStep index line a ⟨table, pending, body :: outer, decl, headings⟩
        a ⟨table, pending, (body ++ [stmt]) :: outer, decl, headings⟩
  | opener {kind : BlockKind} {condition : Expr} {blocks : List OpenLine}
      {opened : Option OpenLine} {table : FunctionTable} {pending : List BlockHeader}
      {scopes : List (List Stmt)} {decl : Option Decl} {headings : List (Nat × Decl)}
      (hclass : LineClass.of line = .opener) (htrim : line.trim ≠ [])
      (hstands : StandsFor line index (.block kind condition [] index)) :
      LockStep index line ⟨blocks, opened⟩ ⟨table, pending, scopes, decl, headings⟩
        ⟨⟨index, line⟩ :: blocks, opened⟩
        ⟨table, ⟨kind, condition, index⟩ :: pending, [] :: scopes, decl, headings⟩
  | close {closed : OpenLine} {header : BlockHeader} {blocks : List OpenLine}
      {opened : Option OpenLine} {table : FunctionTable} {pending : List BlockHeader}
      {inner body : List Stmt} {outer : List (List Stmt)} {decl : Option Decl}
      {headings : List (Nat × Decl)} (hclass : LineClass.of line = .closer)
      (htrim : line.trim = [']']) :
      LockStep index line ⟨closed :: blocks, opened⟩
        ⟨table, header :: pending, inner :: body :: outer, decl, headings⟩
        ⟨blocks, opened⟩ ⟨table, pending, (body ++ [header.close inner]) :: outer, decl, headings⟩
  | heading {name : Text} {span : Span} {params : List Label} {c : Cursor} {table : FunctionTable}
      {pending : List BlockHeader} {scopes : List (List Stmt)} {decl : Option Decl}
      {headings : List (Nat × Decl)} (hclass : LineClass.of line = .heading)
      (hread : readDecl? line = some (⟨.named name span, params⟩, c))
      (hnew : table.contains name = false) :
      LockStep index line ⟨[], none⟩ ⟨table, pending, scopes, decl, headings⟩
        ⟨[], some ⟨index, line⟩⟩
        ⟨table, pending, [] :: scopes, some ⟨.named name span, params⟩,
          (index, ⟨.named name span, params⟩) :: headings⟩
  | ending {opened : OpenLine} {name : Text} {span : Span} {params : List Label}
      {table : FunctionTable} {pending : List BlockHeader} {body : List Stmt}
      {outer : List (List Stmt)} {headings : List (Nat × Decl)}
      (hclass : LineClass.of line = .ending) (hnew : table.contains name = false) :
      LockStep index line ⟨[], some opened⟩
        ⟨table, pending, body :: outer, some ⟨.named name span, params⟩, headings⟩
        ⟨[], none⟩ ⟨⟨table.entries ++ [(name, ⟨params, body⟩)]⟩, pending, outer, none, headings⟩

section Moves

variable {index : Nat} {line : Text} {a a' : Balance} {s s' : Assembly}

/-- On a hidden header assembly opens a block that the balance check does not see. -/
theorem moves_of_isHiddenHeader (hhidden : isHiddenHeader line = true)
    (ha : Balance.Moves index line a a') (hs : Assembly.Moves index line s s') :
    a' = a ∧
      ∃ header, s' = { s with pending := header :: s.pending, scopes := [] :: s.scopes } := by
  have hshape : LineShape.of line = .statement := by
    by_contra hne
    rw [isHiddenHeader_eq_false_of_shape hne] at hhidden
    exact absurd hhidden (by simp)
  cases hs with
  | header _ hread hrest hflaw =>
    have hclass := (isHiddenHeader_of_block hread).1 hhidden
    cases ha with
    | other _ => exact ⟨rfl, _, rfl⟩
    | opener h _ | closer h | heading h | ending h => rw [hclass] at h; exact absurd h (by simp)
  | statement _ hread hleaf _ _ =>
    rw [isHiddenHeader_eq_false_of_leaf hread hleaf] at hhidden
    exact absurd hhidden (by simp)
  | blank h | comment h | close h | heading h _ _ _ _ | ending h _ _ =>
    rw [hshape] at h
    exact absurd h (by simp)

/-- A line that both phases take in is a hidden header, or they go in lock-step. -/
theorem lockStep_of_moves (hvisible : isHiddenHeader line = false)
    (ha : Balance.Moves index line a a') (hs : Assembly.Moves index line s s') :
    LockStep index line a s a' s' := by
  -- what assembly does settles the class of the line, and with it what the check does
  cases hs with
  | blank hshape =>
    have hclass := LineClass.of_blank hshape
    cases ha with
    | other _ =>
      cases LineShape.Told.of_eq hshape with
      | blank htrim => exact .blank htrim
    | opener h _ | closer h | heading h | ending h => rw [hclass] at h; exact absurd h (by simp)
  | comment hshape =>
    have hclass := LineClass.of_comment hshape
    cases ha with
    | other _ =>
      cases LineShape.Told.of_eq hshape with
      | comment htrim => exact .leaf hclass (by simp [htrim]) (Or.inl ⟨_, htrim, rfl⟩) rfl
    | opener h _ | closer h | heading h | ending h => rw [hclass] at h; exact absurd h (by simp)
  | statement hshape hread hleaf hrest hflaw =>
    have hclass := LineClass.of_leaf hshape hread hleaf hflaw
    cases ha with
    | other _ =>
      cases LineShape.Told.of_eq hshape with
      | statement htrim hcomment _ _ _ =>
        exact .leaf hclass htrim (Or.inr ⟨hcomment, _, hread⟩) hleaf
    | opener h _ | closer h | heading h | ending h => rw [hclass] at h; exact absurd h (by simp)
  | header hshape hread hrest hflaw =>
    have hclass : LineClass.of line = .opener := by
      refine (LineClass.of_block hread rfl).2.resolve_right fun hother => ?_
      rw [(isHiddenHeader_of_block hread).2 hother] at hvisible
      exact absurd hvisible (by simp)
    cases ha with
    | opener _ _ =>
      cases LineShape.Told.of_eq hshape with
      | statement htrim hcomment _ _ _ =>
        exact .opener hclass htrim (Or.inr ⟨hcomment, _, hread⟩)
    | closer h | heading h | ending h | other h => rw [hclass] at h; exact absurd h (by simp)
  | close hshape =>
    have hclass := LineClass.of_close hshape
    cases ha with
    | closer _ =>
      cases LineShape.Told.of_eq hshape with
      | close htrim => exact .close hclass htrim
    | opener h _ | heading h | ending h | other h => rw [hclass] at h; exact absurd h (by simp)
  | heading hshape hread hrest hnew hflaw =>
    have hclass := LineClass.of_heading hshape
    cases ha with
    | heading _ => exact .heading hclass hread hnew
    | opener h _ | closer h | ending h | other h => rw [hclass] at h; exact absurd h (by simp)
  | ending hshape hafter hnew =>
    have hclass := LineClass.of_ending hshape
    cases ha with
    | ending _ => exact .ending hclass hnew
    | opener h _ | closer h | heading h | other h => rw [hclass] at h; exact absurd h (by simp)

end Moves

/-! ## Runs -/

/-- What both phases do on lines that both take in and none of which is a hidden header. -/
inductive LockSteps : Nat → List Text → Balance → Assembly → Balance → Assembly → Prop where
  | nil {index : Nat} {a : Balance} {s : Assembly} : LockSteps index [] a s a s
  | cons {index : Nat} {line : Text} {rest : List Text} {a a₁ a₂ : Balance} {s s₁ s₂ : Assembly}
      (hstep : LockStep index line a s a₁ s₁) (hrest : LockSteps (index + 1) rest a₁ s₁ a₂ s₂) :
      LockSteps index (line :: rest) a s a₂ s₂

theorem lockSteps_of_runs {lines : List Text} {index : Nat} {a a' : Balance} {s s' : Assembly}
    (hvisible : ∀ line ∈ lines, isHiddenHeader line = false)
    (ha : a.run index lines = .ok a') (hs : s.run index lines = (s', none)) :
    LockSteps index lines a s a' s' := by
  induction lines generalizing index a s with
  | nil =>
    cases ha
    cases hs
    exact .nil
  | cons line rest ih =>
    obtain ⟨a₁, hmoveA, hrunA⟩ := Balance.run_cons_eq_ok_iff.1 ha
    obtain ⟨s₁, hmoveS, hrunS⟩ := Assembly.run_cons_eq_none_iff.1 hs
    rw [List.forall_mem_cons] at hvisible
    exact .cons (lockStep_of_moves hvisible.1 hmoveA hmoveS) (ih hvisible.2 hrunA hrunS)

/-- The stacks differ by the hidden headers: each of them stays open in assembly alone. -/
theorem pending_length_of_runs {lines : List Text} {index : Nat} {a a' : Balance} {s s' : Assembly}
    (ha : a.run index lines = .ok a') (hs : s.run index lines = (s', none)) :
    s'.pending.length + a.blocks.length =
      s.pending.length + a'.blocks.length + lines.countP isHiddenHeader := by
  induction lines generalizing index a s with
  | nil =>
    cases ha
    cases hs
    rfl
  | cons line rest ih =>
    obtain ⟨a₁, hmoveA, hrunA⟩ := Balance.run_cons_eq_ok_iff.1 ha
    obtain ⟨s₁, hmoveS, hrunS⟩ := Assembly.run_cons_eq_none_iff.1 hs
    have hrest := ih hrunA hrunS
    cases hhidden : isHiddenHeader line with
    | true =>
      rw [List.countP_cons_of_pos hhidden]
      obtain ⟨rfl, header, rfl⟩ := moves_of_isHiddenHeader hhidden hmoveA hmoveS
      simp only [List.length_cons] at hrest
      omega
    | false =>
      rw [List.countP_cons_of_neg (by simp [hhidden])]
      cases lockStep_of_moves hhidden hmoveA hmoveS with
      | blank _ | leaf _ _ _ _ | heading _ _ _ | ending _ _ => omega
      | opener _ _ _ | close _ _ =>
        simp only [List.length_cons] at hrest ⊢
        omega

end LogoLang
