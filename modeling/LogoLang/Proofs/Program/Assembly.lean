import LogoLang.Proofs.Results
import LogoLang.Proofs.Syntax.Statement
import LogoLang.Program.Assembly

set_option autoImplicit false

/-! # Steps and runs of assembly

`Assembly.Moves` lists what a line can do to what has been assembled, guards included, and
`Assembly.step_eq_ok_iff` says that this is all that a step does. Runs are taken apart at any line,
in particular at the line at which they fail (`Assembly.exists_failing_step`). -/

namespace LogoLang

/-! ## Blocks -/

/-- A block is read with an empty body and the number of its line. -/
theorem readStmt?_block {line : Text} {index lineIndex : Nat} {kind : BlockKind} {condition : Expr}
    {body : List Stmt} {c : Cursor}
    (h : readStmt? line index = some (.block kind condition body lineIndex, c)) :
    body = [] ∧ lineIndex = index := by
  simp only [readStmt?] at h
  split at h
  · next form span c₁ hform =>
    cases form with
    | block kind' =>
      simp only [StmtForm.read, Option.some.injEq, Prod.mk.injEq, Stmt.block.injEq] at h
      exact ⟨h.1.2.2.1.symm, h.1.2.2.2.symm⟩
    | assign kind' | pen down | command cmd => simp [StmtForm.read] at h
  · simp only [readCall?, Option.map_eq_some_iff] at h
    obtain ⟨_, _, h⟩ := h
    exact absurd h (by simp)

/-! ## Checks on a line -/

theorem refuseRest_eq_ok_iff {line : Text} {index : Nat} {c : Cursor} :
    refuseRest line index c = .ok () ↔ Text.trimRight c.rest = [] := by
  simp only [refuseRest, List.isEmpty_iff]
  split
  · next h => simp [h]
  · next h => simp [h]

theorem refuseUnopened_eq_ok_iff {line : Text} {index : Nat} {c : Cursor} :
    refuseUnopened line index c = .ok () ↔ Text.trimRight c.rest = ['['] := by
  simp only [refuseUnopened]
  split
  · next h => simp [h]
  · next h => split <;> simp [h]

theorem refuseFlaw_eq_ok_iff {line : Text} {index : Nat} {flaw : Option Flaw} :
    refuseFlaw line index flaw = .ok () ↔ flaw = none := by
  cases flaw <;> simp [refuseFlaw]

theorem refuseRepeated_eq_ok_iff {table : FunctionTable} {line name : Text} {index : Nat}
    {span : Span} :
    refuseRepeated table line index (.named name span) = .ok () ↔ table.contains name = false := by
  cases h : table.contains name <;> simp [refuseRepeated, h]

theorem FunctionTable.insert?_eq_some_iff {table table' : FunctionTable} {name : Text}
    {f : Function} :
    table.insert? name f = some table' ↔
      table.contains name = false ∧ table' = ⟨table.entries ++ [(name, f)]⟩ := by
  cases h : table.contains name <;> simp [FunctionTable.insert?, h, eq_comm]

/-- A heading without a flaw names its function. -/
theorem Decl.exists_named {decl : Decl} (h : decl.firstFlaw? = none) :
    ∃ name span, decl.name = .named name span := by
  obtain ⟨label, params⟩ := decl
  cases label with
  | named name span => exact ⟨name, span, rfl⟩
  | malformed flaw => simp [Decl.firstFlaw?, Label.flaw?] at h

/-! ## Steps -/

/-- The moves of assembly on a line. -/
inductive Assembly.Moves (index : Nat) (line : Text) : Assembly → Assembly → Prop where
  | blank {s : Assembly} (hshape : LineShape.of line = .blank) : Assembly.Moves index line s s
  | comment {text : Text} {table : FunctionTable} {pending : List BlockHeader} {body : List Stmt}
      {outer : List (List Stmt)} {decl : Option Decl} {headings : List (Nat × Decl)}
      (hshape : LineShape.of line = .comment text) :
      Assembly.Moves index line ⟨table, pending, body :: outer, decl, headings⟩
        ⟨table, pending, (body ++ [.comment text index]) :: outer, decl, headings⟩
  | statement {stmt : Stmt} {c : Cursor} {table : FunctionTable} {pending : List BlockHeader}
      {body : List Stmt} {outer : List (List Stmt)} {decl : Option Decl}
      {headings : List (Nat × Decl)} (hshape : LineShape.of line = .statement)
      (hread : readStmt? line index = some (stmt, c)) (hleaf : stmt.isBlock = false)
      (hrest : Text.trimRight c.rest = []) (hflaw : stmt.firstFlaw? = none) :
      Assembly.Moves index line ⟨table, pending, body :: outer, decl, headings⟩
        ⟨table, pending, (body ++ [stmt]) :: outer, decl, headings⟩
  | header {kind : BlockKind} {condition : Expr} {c : Cursor} {table : FunctionTable}
      {pending : List BlockHeader} {scopes : List (List Stmt)} {decl : Option Decl}
      {headings : List (Nat × Decl)} (hshape : LineShape.of line = .statement)
      (hread : readStmt? line index = some (.block kind condition [] index, c))
      (hrest : Text.trimRight c.rest = ['[']) (hflaw : condition.firstFlaw? = none) :
      Assembly.Moves index line ⟨table, pending, scopes, decl, headings⟩
        ⟨table, ⟨kind, condition, index⟩ :: pending, [] :: scopes, decl, headings⟩
  | close {header : BlockHeader} {table : FunctionTable} {pending : List BlockHeader}
      {inner body : List Stmt} {outer : List (List Stmt)} {decl : Option Decl}
      {headings : List (Nat × Decl)} (hshape : LineShape.of line = .close) :
      Assembly.Moves index line ⟨table, header :: pending, inner :: body :: outer, decl, headings⟩
        ⟨table, pending, (body ++ [header.close inner]) :: outer, decl, headings⟩
  | heading {name : Text} {span : Span} {params : List Label} {c : Cursor} {table : FunctionTable}
      {pending : List BlockHeader} {scopes : List (List Stmt)} {decl : Option Decl}
      {headings : List (Nat × Decl)} (hshape : LineShape.of line = .heading)
      (hread : readDecl? line = some (⟨.named name span, params⟩, c))
      (hrest : Text.trimRight c.rest = []) (hnew : table.contains name = false)
      (hflaw : Decl.firstFlaw? ⟨.named name span, params⟩ = none) :
      Assembly.Moves index line ⟨table, pending, scopes, decl, headings⟩
        ⟨table, pending, [] :: scopes, some ⟨.named name span, params⟩,
          (index, ⟨.named name span, params⟩) :: headings⟩
  | ending {name : Text} {span : Span} {params : List Label} {table : FunctionTable}
      {pending : List BlockHeader} {body : List Stmt} {outer : List (List Stmt)}
      {headings : List (Nat × Decl)} (hshape : LineShape.of line = .ending)
      (hafter : afterEnd? line = none) (hnew : table.contains name = false) :
      Assembly.Moves index line
        ⟨table, pending, body :: outer, some ⟨.named name span, params⟩, headings⟩
        ⟨⟨table.entries ++ [(name, ⟨params, body⟩)]⟩, pending, outer, none, headings⟩

/-- A statement of any other kind than a block is added to the innermost body. -/
theorem Assembly.statement_of_leaf {s : Assembly} {index : Nat} {line : Text} {stmt : Stmt}
    {c : Cursor} (hread : readStmt? line index = some (stmt, c)) (hleaf : stmt.isBlock = false) :
    s.statement index line =
      (refuseRest line index c >>= fun _ =>
        refuseFlaw line index stmt.firstFlaw? >>= fun _ => s.append stmt) := by
  cases stmt with
  | block kind condition body lineIndex => simp [Stmt.isBlock] at hleaf
  | assign kind target value lineIndex => simp only [Assembly.statement, hread]
  | pen down lineIndex => simp only [Assembly.statement, hread]
  | command cmd value lineIndex => simp only [Assembly.statement, hread]
  | call name args lineIndex => simp only [Assembly.statement, hread]
  | comment text lineIndex => simp only [Assembly.statement, hread]

theorem Assembly.append_eq_ok_iff {s t : Assembly} {stmt : Stmt} :
    s.append stmt = .ok t ↔
      ∃ body outer, s.scopes = body :: outer ∧
        t = { s with scopes := (body ++ [stmt]) :: outer } := by
  rw [Assembly.append]
  cases s.scopes with
  | nil => simp
  | cons body outer =>
    constructor
    · intro h
      cases h
      exact ⟨body, outer, rfl, rfl⟩
    · rintro ⟨body', outer', hscopes, rfl⟩
      cases hscopes
      rfl

theorem Assembly.moves_of_statement {s t : Assembly} {index : Nat} {line : Text}
    (hshape : LineShape.of line = .statement) (h : s.statement index line = .ok t) :
    Assembly.Moves index line s t := by
  obtain ⟨table, pending, scopes, decl, headings⟩ := s
  cases hread : readStmt? line index with
  | none => simp [Assembly.statement, hread] at h
  | some result =>
    obtain ⟨stmt, c⟩ := result
    cases hleaf : stmt.isBlock with
    | false =>
      rw [Assembly.statement_of_leaf hread hleaf] at h
      obtain ⟨_, hrest, h⟩ := Except.bind_eq_ok_iff.1 h
      obtain ⟨_, hflaw, h⟩ := Except.bind_eq_ok_iff.1 h
      obtain ⟨body, outer, rfl, rfl⟩ := Assembly.append_eq_ok_iff.1 h
      exact .statement hshape hread hleaf (refuseRest_eq_ok_iff.1 hrest)
        (refuseFlaw_eq_ok_iff.1 hflaw)
    | true =>
      cases stmt with
      | block kind condition body lineIndex =>
        obtain ⟨rfl, rfl⟩ := readStmt?_block hread
        simp only [Assembly.statement, hread] at h
        obtain ⟨_, hrest, h⟩ := Except.bind_eq_ok_iff.1 h
        obtain ⟨_, hflaw, h⟩ := Except.bind_eq_ok_iff.1 h
        cases h
        exact .header hshape hread (refuseUnopened_eq_ok_iff.1 hrest) (refuseFlaw_eq_ok_iff.1 hflaw)
      | assign | pen | command | call | comment => simp [Stmt.isBlock] at hleaf

theorem Assembly.moves_of_declare {s t : Assembly} {index : Nat} {line : Text}
    (hshape : LineShape.of line = .heading) (h : s.declare index line = .ok t) :
    Assembly.Moves index line s t := by
  obtain ⟨table, pending, scopes, decl, headings⟩ := s
  cases hread : readDecl? line with
  | none => simp [Assembly.declare, hread] at h
  | some result =>
    obtain ⟨decl', c⟩ := result
    simp only [Assembly.declare, hread] at h
    obtain ⟨_, hrest, h⟩ := Except.bind_eq_ok_iff.1 h
    obtain ⟨_, hnew, h⟩ := Except.bind_eq_ok_iff.1 h
    obtain ⟨_, hflaw, h⟩ := Except.bind_eq_ok_iff.1 h
    obtain ⟨label, params⟩ := decl'
    obtain ⟨name, span, rfl⟩ := Decl.exists_named (refuseFlaw_eq_ok_iff.1 hflaw)
    cases h
    exact .heading hshape hread (refuseRest_eq_ok_iff.1 hrest) (refuseRepeated_eq_ok_iff.1 hnew)
      (refuseFlaw_eq_ok_iff.1 hflaw)

theorem Assembly.moves_of_endDeclaration {s t : Assembly} {index : Nat} {line : Text}
    (hshape : LineShape.of line = .ending) (h : s.endDeclaration index line = .ok t) :
    Assembly.Moves index line s t := by
  obtain ⟨table, pending, scopes, decl, headings⟩ := s
  simp only [Assembly.endDeclaration] at h
  split at h
  · exact absurd h (by simp)
  · next decl' =>
    obtain ⟨label, params⟩ := decl'
    split at h
    · exact absurd h (by simp)
    · next hafter =>
      split at h
      · exact absurd h (by simp)
      · exact absurd h (by simp)
      · next name span body outer hlabel =>
        split at h
        · exact absurd h (by simp)
        · next table' hinsert =>
          obtain ⟨hnew, rfl⟩ := FunctionTable.insert?_eq_some_iff.1 hinsert
          cases hlabel
          cases h
          exact .ending hshape hafter hnew

theorem Assembly.moves_of_closeBlock {s t : Assembly} {index : Nat} {line : Text}
    (hshape : LineShape.of line = .close) (h : s.closeBlock index line = .ok t) :
    Assembly.Moves index line s t := by
  obtain ⟨table, pending, scopes, decl, headings⟩ := s
  cases pending with
  | nil => simp [Assembly.closeBlock] at h
  | cons header pending =>
    cases scopes with
    | nil => simp [Assembly.closeBlock] at h
    | cons inner scopes =>
      simp only [Assembly.closeBlock] at h
      obtain ⟨body, outer, rfl, rfl⟩ := Assembly.append_eq_ok_iff.1 h
      exact .close hshape

/-- The moves are all that a step does. -/
theorem Assembly.step_eq_ok_iff {s t : Assembly} {index : Nat} {line : Text} :
    s.step index line = .ok t ↔ Assembly.Moves index line s t := by
  constructor
  · intro h
    cases hshape : LineShape.of line with
    | blank =>
      simp only [Assembly.step, hshape, Except.ok.injEq] at h
      subst h
      exact .blank hshape
    | comment text =>
      obtain ⟨table, pending, scopes, decl, headings⟩ := s
      simp only [Assembly.step, hshape] at h
      obtain ⟨body, outer, rfl, rfl⟩ := Assembly.append_eq_ok_iff.1 h
      exact .comment hshape
    | close =>
      simp only [Assembly.step, hshape] at h
      exact Assembly.moves_of_closeBlock hshape h
    | heading =>
      simp only [Assembly.step, hshape] at h
      exact Assembly.moves_of_declare hshape h
    | ending =>
      simp only [Assembly.step, hshape] at h
      exact Assembly.moves_of_endDeclaration hshape h
    | statement =>
      simp only [Assembly.step, hshape] at h
      exact Assembly.moves_of_statement hshape h
  · intro h
    cases h with
    | blank hshape => simp only [Assembly.step, hshape]
    | comment hshape => simp only [Assembly.step, hshape, Assembly.append]
    | statement hshape hread hleaf hrest hflaw =>
      simp only [Assembly.step, hshape]
      rw [Assembly.statement_of_leaf hread hleaf, refuseRest_eq_ok_iff.2 hrest,
        refuseFlaw_eq_ok_iff.2 hflaw]
      rfl
    | header hshape hread hrest hflaw =>
      simp only [Assembly.step, hshape, Assembly.statement, hread, refuseUnopened_eq_ok_iff.2 hrest,
        refuseFlaw_eq_ok_iff.2 hflaw]
      rfl
    | close hshape => simp only [Assembly.step, hshape, Assembly.closeBlock, Assembly.append]
    | heading hshape hread hrest hnew hflaw =>
      simp only [Assembly.step, hshape, Assembly.declare, hread, refuseRest_eq_ok_iff.2 hrest,
        refuseRepeated_eq_ok_iff.2 hnew, refuseFlaw_eq_ok_iff.2 hflaw]
      rfl
    | ending hshape hafter hnew =>
      simp only [Assembly.step, hshape, Assembly.endDeclaration, hafter,
        FunctionTable.insert?_eq_some_iff.2 ⟨hnew, rfl⟩]

/-! ## Runs -/

theorem Assembly.run_cons_eq_none_iff {s t : Assembly} {index : Nat} {line : Text}
    {rest : List Text} :
    s.run index (line :: rest) = (t, none) ↔
      ∃ mid, Assembly.Moves index line s mid ∧ mid.run (index + 1) rest = (t, none) := by
  simp only [← Assembly.step_eq_ok_iff]
  rw [Assembly.run]
  cases s.step index line with
  | ok mid => simp
  | error failure => simp

theorem Assembly.run_append {s mid : Assembly} {index : Nat} {before : List Text}
    (h : s.run index before = (mid, none)) (after : List Text) :
    s.run index (before ++ after) = mid.run (index + before.length) after := by
  induction before generalizing s index with
  | nil =>
    cases h
    rfl
  | cons line rest ih =>
    obtain ⟨next, hmove, hrun⟩ := Assembly.run_cons_eq_none_iff.1 h
    rw [List.cons_append, Assembly.run, Assembly.step_eq_ok_iff.2 hmove]
    simp only
    rw [ih hrun, List.length_cons, Nat.add_right_comm, Nat.add_assoc]

/-- Assembly that takes in lines takes in those before any line. -/
theorem Assembly.exists_run_of_append {s t : Assembly} {index : Nat} {before after : List Text}
    (h : s.run index (before ++ after) = (t, none)) : ∃ mid, s.run index before = (mid, none) := by
  induction before generalizing s index with
  | nil => exact ⟨s, rfl⟩
  | cons line rest ih =>
    obtain ⟨next, hmove, hrun⟩ := Assembly.run_cons_eq_none_iff.1 h
    obtain ⟨mid, hmid⟩ := ih hrun
    exact ⟨mid, Assembly.run_cons_eq_none_iff.2 ⟨next, hmove, hmid⟩⟩

/-- A run over a delimited part of a program. -/
theorem Assembly.run_delimited {s mid mid' t : Assembly} {index : Nat} {first last : Text}
    {body : List Text} (hfirst : Assembly.Moves index first s mid)
    (hbody : mid.run (index + 1) body = (mid', none))
    (hlast : Assembly.Moves (index + 1 + body.length) last mid' t) :
    s.run index (first :: (body ++ [last])) = (t, none) := by
  refine Assembly.run_cons_eq_none_iff.2 ⟨mid, hfirst, ?_⟩
  rw [Assembly.run_append hbody]
  exact Assembly.run_cons_eq_none_iff.2 ⟨t, hlast, rfl⟩

/-- A run that stops takes in all lines before some line and fails at that line. -/
theorem Assembly.exists_failing_step {s t : Assembly} {index : Nat} {lines : List Text}
    {failure : AssemblyFailure} (h : s.run index lines = (t, some failure)) :
    ∃ before line after, lines = before ++ line :: after ∧ s.run index before = (t, none) ∧
      t.step (index + before.length) line = .error failure := by
  induction lines generalizing s index with
  | nil => simp [Assembly.run] at h
  | cons line rest ih =>
    rw [Assembly.run] at h
    split at h
    · next mid hstep =>
      obtain ⟨before, line', after, rfl, hrun, hfail⟩ := ih h
      refine ⟨line :: before, line', after, rfl, ?_, ?_⟩
      · exact Assembly.run_cons_eq_none_iff.2 ⟨mid, Assembly.step_eq_ok_iff.1 hstep, hrun⟩
      · rw [List.length_cons, ← Nat.add_assoc, Nat.add_right_comm]
        exact hfail
    · next failure' hstep =>
      cases h
      exact ⟨[], line, rest, rfl, rfl, hstep⟩

/-- A line at which assembly fails is where it stops. -/
theorem Assembly.run_of_step_error {s : Assembly} {index : Nat} {line : Text} {rest : List Text}
    {failure : AssemblyFailure} (h : s.step index line = .error failure) :
    s.run index (line :: rest) = (s, some failure) := by
  rw [Assembly.run, h]

theorem Assembly.finish_eq_ok_iff {s : Assembly} {table : FunctionTable} :
    s.finish = .ok table ↔
      ∃ body outer, s.decl = none ∧ s.pending = [] ∧ s.scopes = body :: outer ∧
        s.table.contains mainName = false ∧
        table = ⟨s.table.entries ++ [(mainName, ⟨[], body⟩)]⟩ := by
  obtain ⟨table', pending, scopes, decl, headings⟩ := s
  cases decl with
  | some decl => simp [Assembly.finish]
  | none =>
    cases pending with
    | cons header pending => simp [Assembly.finish]
    | nil =>
      cases scopes with
      | nil => simp [Assembly.finish]
      | cons body outer =>
        simp only [Assembly.finish]
        cases hnew : table'.contains mainName with
        | true => simp [FunctionTable.insert?, hnew]
        | false => simp [FunctionTable.insert?, hnew, eq_comm]

theorem assemble_eq_ok_iff {lines : List Text} {table : FunctionTable} :
    assemble lines = .ok table ↔
      ∃ s, Assembly.start.run 0 lines = (s, none) ∧ s.finish = .ok table := by
  simp only [assemble, Assembly.ofLines]
  cases hrun : Assembly.start.run 0 lines with
  | mk s failure => cases failure <;> simp

theorem parseProgram_eq_ok_iff {lines : List Text} {table : FunctionTable} :
    parseProgram lines = .ok table ↔ checkBalance lines = .ok () ∧ assemble lines = .ok table := by
  rw [parseProgram]
  cases checkBalance lines with
  | error d => simp
  | ok u => simp

end LogoLang
