import LogoLang.Proofs.Program.Assembly
import LogoLang.Proofs.Syntax.Spans

set_option autoImplicit false

/-! # Where the statements of a program come from

Every statement of an accepted program was read from the line whose number it has, and without a flaw.
So what holds of statements as they are read (`LineProperty`) holds of all statements of the table:
it is an invariant of assembly (`Assembly.AllStmts`, `LineProperty.of_parseProgram`). In particular
each statement is well formed, and its parts have places in its line (`Stmt.TakenFrom`). With the
headings, of which the same holds, this is `takenFrom_of_parseProgram`. -/

namespace LogoLang

/-! ## Properties of lines -/

/-- A property of the line of a statement, which the statements have that are read from the lines of a
    program without a flaw. -/
structure LineProperty (lines : List Text) (motive : Stmt → Prop) : Prop where
  comment : ∀ index line text, lines[index]? = some line → LineShape.of line = .comment text →
    motive (.comment text index)
  read : ∀ index text stmt c, lines[index]? = some text → readStmt? text index = some (stmt, c) →
    stmt.firstFlaw? = none → motive stmt
  /-- It is one of the line alone, not of the body. -/
  close : ∀ (header : BlockHeader) body, motive (header.close []) → motive (header.close body)

/-- All statements that have been assembled so far have a property. -/
structure Assembly.AllStmts (motive : Stmt → Prop) (s : Assembly) : Prop where
  table : ∀ stmt ∈ s.table.stmts, motive stmt
  scopes : ∀ body ∈ s.scopes, ∀ stmt ∈ allStmts body, motive stmt
  pending : ∀ header ∈ s.pending, motive (header.close [])

theorem Assembly.allStmts_start (motive : Stmt → Prop) : Assembly.start.AllStmts motive where
  table := by simp [Assembly.start, FunctionTable.empty, FunctionTable.stmts]
  scopes := by simp [Assembly.start, LogoLang.allStmts]
  pending := by simp [Assembly.start]

theorem forall_allStmts_concat {motive : Stmt → Prop} {body : List Stmt} {stmt : Stmt}
    (hbody : ∀ s ∈ allStmts body, motive s) (hstmt : ∀ s ∈ stmt.all, motive s) :
    ∀ s ∈ allStmts (body ++ [stmt]), motive s := by
  rw [allStmts_concat, List.forall_mem_append]
  exact ⟨hbody, hstmt⟩

/-- The statements of a table with one more function. -/
theorem FunctionTable.forall_stmts_insert {motive : Stmt → Prop} {table : FunctionTable} {name : Text}
    {f : Function} (htable : ∀ stmt ∈ table.stmts, motive stmt)
    (hbody : ∀ stmt ∈ allStmts f.body, motive stmt) :
    ∀ stmt ∈ FunctionTable.stmts ⟨table.entries ++ [(name, f)]⟩, motive stmt := by
  rw [FunctionTable.stmts, List.flatMap_append, List.flatMap_singleton, List.forall_mem_append]
  exact ⟨htable, hbody⟩

section Properties

variable {lines : List Text} {motive : Stmt → Prop}

theorem Assembly.Moves.allStmts {index : Nat} {line : Text} {s t : Assembly}
    (hmove : Assembly.Moves index line s t) (hmotive : LineProperty lines motive)
    (hline : lines[index]? = some line) (h : s.AllStmts motive) : t.AllStmts motive := by
  cases hmove with
  | blank hshape => exact h
  | comment hshape =>
    obtain ⟨hbody, houter⟩ := List.forall_mem_cons.1 h.scopes
    refine ⟨h.table, List.forall_mem_cons.2 ⟨forall_allStmts_concat hbody ?_, houter⟩, h.pending⟩
    exact List.forall_mem_singleton.2 (hmotive.comment _ _ _ hline hshape)
  | statement hshape hread hleaf hrest hflaw =>
    obtain ⟨hbody, houter⟩ := List.forall_mem_cons.1 h.scopes
    refine ⟨h.table, List.forall_mem_cons.2 ⟨forall_allStmts_concat hbody ?_, houter⟩, h.pending⟩
    rw [Stmt.all_of_leaf hleaf, List.forall_mem_singleton]
    exact hmotive.read _ _ _ _ hline hread hflaw
  | header hshape hread hrest hflaw =>
    refine ⟨h.table, List.forall_mem_cons.2 ⟨by simp [LogoLang.allStmts], h.scopes⟩, ?_⟩
    exact List.forall_mem_cons.2 ⟨hmotive.read _ _ _ _ hline hread hflaw, h.pending⟩
  | close hshape =>
    obtain ⟨hinner, hscopes⟩ := List.forall_mem_cons.1 h.scopes
    obtain ⟨hbody, houter⟩ := List.forall_mem_cons.1 hscopes
    obtain ⟨hheader, hpending⟩ := List.forall_mem_cons.1 h.pending
    refine ⟨h.table, List.forall_mem_cons.2 ⟨forall_allStmts_concat hbody ?_, houter⟩, hpending⟩
    -- the block has the property by its header's line, and its statements are those of its body
    exact List.forall_mem_cons.2 ⟨hmotive.close _ _ hheader, hinner⟩
  | heading hshape hread hrest hnew hflaw =>
    exact ⟨h.table, List.forall_mem_cons.2 ⟨by simp [LogoLang.allStmts], h.scopes⟩, h.pending⟩
  | ending hshape hafter hnew =>
    obtain ⟨hbody, houter⟩ := List.forall_mem_cons.1 h.scopes
    exact ⟨FunctionTable.forall_stmts_insert h.table hbody, houter, h.pending⟩

/-- The lines of a run are lines of the program. -/
theorem Assembly.run_invariant {motive : Assembly → Prop} {rest : List Text} {index : Nat}
    {s t : Assembly} (hrun : s.run index rest = (t, none)) (hlines : lines.drop index = rest)
    (hstart : motive s)
    (hmove : ∀ index line s t, lines[index]? = some line → motive s →
      Assembly.Moves index line s t → motive t) : motive t := by
  induction rest generalizing s index with
  | nil =>
    cases hrun
    exact hstart
  | cons line rest ih =>
    obtain ⟨mid, hmid, hrun⟩ := Assembly.run_cons_eq_none_iff.1 hrun
    have hline : lines[index]? = some line := by rw [← List.head?_drop, hlines, List.head?_cons]
    have hdrop : lines.drop (index + 1) = rest := by rw [← List.tail_drop, hlines, List.tail_cons]
    exact ih hrun hdrop (hmove index line s mid hline hstart hmid)

theorem FunctionTable.forall_stmts_of_finish {s : Assembly} {table : FunctionTable}
    (h : s.AllStmts motive) (hfinish : s.finish = .ok table) : ∀ stmt ∈ table.stmts, motive stmt := by
  obtain ⟨body, outer, _, _, hscopes, _, rfl⟩ := Assembly.finish_eq_ok_iff.1 hfinish
  exact FunctionTable.forall_stmts_insert h.table (h.scopes body (by simp [hscopes]))

/-- **What holds of the statements that are read holds of those that are assembled.** -/
theorem LineProperty.of_assemble (hmotive : LineProperty lines motive) {table : FunctionTable}
    (h : assemble lines = .ok table) : ∀ stmt ∈ table.stmts, motive stmt := by
  obtain ⟨s, hrun, hfinish⟩ := assemble_eq_ok_iff.1 h
  refine FunctionTable.forall_stmts_of_finish ?_ hfinish
  exact Assembly.run_invariant hrun List.drop_zero (Assembly.allStmts_start motive)
    fun _ _ _ _ hline hs hmove => hmove.allStmts hmotive hline hs

/-- In particular it holds of those of an accepted program. -/
theorem LineProperty.of_parseProgram (hmotive : LineProperty lines motive) {table : FunctionTable}
    (h : parseProgram lines = .ok table) : ∀ stmt ∈ table.stmts, motive stmt :=
  hmotive.of_assemble (parseProgram_eq_ok_iff.1 h).2

end Properties

/-! ## Statements and tables -/

/-- A well-formed statement whose parts have places in the line of its number. -/
structure Stmt.TakenFrom (lines : List Text) (stmt : Stmt) : Prop where
  wellFormed : stmt.WellFormed
  spans : ∀ span ∈ stmt.spans,
    ∃ text, lines[stmt.line]? = some text ∧ 0 < span.length ∧ span.stop ≤ text.length

/-- A table whose functions have proper names, apart from the top level, which has no parameters, and
    proper names for parameters, and whose statements are taken from the lines. -/
structure FunctionTable.TakenFrom (lines : List Text) (table : FunctionTable) : Prop where
  names : ∀ entry ∈ table.entries,
    isValidName entry.1 = true ∨ (entry.1 = mainName ∧ entry.2.params = [])
  params : ∀ entry ∈ table.entries, ∀ param ∈ entry.2.params, param.IsName
  stmts : ∀ stmt ∈ table.stmts, stmt.TakenFrom lines

theorem Stmt.takenFrom_of_readStmt? {lines : List Text} {text : Text} {index : Nat} {stmt : Stmt}
    {c : Cursor} (hline : lines[index]? = some text)
    (hread : readStmt? text index = some (stmt, c)) (hflaw : stmt.firstFlaw? = none) :
    stmt.TakenFrom lines := by
  have hfrom := readFrom_of_readStmt? hread
  refine ⟨hfrom.placed.wellFormed hflaw, ?_⟩
  intro span hspan
  obtain ⟨hpos, hstop⟩ := (hfrom.placed.mono hfrom.pos_le).spans hflaw span hspan
  rw [hfrom.line]
  exact ⟨text, hline, hpos, hstop⟩

theorem Stmt.takenFrom_comment (lines : List Text) (text : Text) (index : Nat) :
    (Stmt.comment text index).TakenFrom lines :=
  ⟨⟨by simp [Stmt.labels], by simp [Stmt.exprs]⟩, by simp [Stmt.spans, Stmt.labels, Stmt.exprs]⟩

/-- A block is taken from the line of its header, whatever its body is. -/
theorem BlockHeader.takenFrom_close {lines : List Text} {header : BlockHeader}
    (h : (header.close []).TakenFrom lines) (body : List Stmt) :
    (header.close body).TakenFrom lines :=
  ⟨⟨h.wellFormed.labels, h.wellFormed.exprs⟩, h.spans⟩

/-- To be taken from the lines is a property of the line of a statement. -/
theorem Stmt.lineProperty_takenFrom (lines : List Text) :
    LineProperty lines (Stmt.TakenFrom lines) where
  comment _ _ text _ _ := Stmt.takenFrom_comment lines text _
  read _ _ _ _ := Stmt.takenFrom_of_readStmt?
  close _ body h := BlockHeader.takenFrom_close h body

theorem FunctionTable.TakenFrom.insert {lines : List Text} {table : FunctionTable} {name : Text}
    {f : Function} (h : table.TakenFrom lines)
    (hname : isValidName name = true ∨ (name = mainName ∧ f.params = []))
    (hparams : ∀ param ∈ f.params, param.IsName)
    (hbody : ∀ stmt ∈ allStmts f.body, stmt.TakenFrom lines) :
    FunctionTable.TakenFrom lines ⟨table.entries ++ [(name, f)]⟩ where
  names := List.forall_mem_append.2 ⟨h.names, List.forall_mem_singleton.2 hname⟩
  params := List.forall_mem_append.2 ⟨h.params, List.forall_mem_singleton.2 hparams⟩
  stmts := FunctionTable.forall_stmts_insert h.stmts hbody

/-! ## The invariant of assembly -/

/-- Everything that has been assembled so far is taken from the lines. -/
structure Assembly.TakenFrom (lines : List Text) (s : Assembly) : Prop where
  table : s.table.TakenFrom lines
  scopes : ∀ body ∈ s.scopes, ∀ stmt ∈ allStmts body, stmt.TakenFrom lines
  pending : ∀ header ∈ s.pending, (header.close []).TakenFrom lines
  decl : ∀ decl ∈ s.decl, ∀ label ∈ decl.name :: decl.params, label.IsName

theorem Assembly.takenFrom_start (lines : List Text) : Assembly.start.TakenFrom lines where
  table := ⟨by simp [Assembly.start, FunctionTable.empty],
    by simp [Assembly.start, FunctionTable.empty], (Assembly.allStmts_start _).table⟩
  scopes := (Assembly.allStmts_start _).scopes
  pending := (Assembly.allStmts_start _).pending
  decl := by simp [Assembly.start]

theorem Assembly.Moves.takenFrom {lines : List Text} {index : Nat} {line : Text} {s t : Assembly}
    (hmove : Assembly.Moves index line s t) (hline : lines[index]? = some line)
    (h : s.TakenFrom lines) : t.TakenFrom lines := by
  have hstmts := hmove.allStmts (Stmt.lineProperty_takenFrom lines) hline
    ⟨h.table.stmts, h.scopes, h.pending⟩
  -- what is left to show is about headings
  cases hmove with
  | blank | comment | statement | header | close =>
    exact ⟨h.table, hstmts.scopes, hstmts.pending, h.decl⟩
  | heading hshape hread hrest hnew hflaw =>
    refine ⟨h.table, hstmts.scopes, hstmts.pending, ?_⟩
    intro decl hdecl label hlabel
    cases hdecl
    exact ((readFrom_of_readDecl? hread).placed label hlabel).isName
      (Decl.firstFlaw?_eq_none_iff.1 hflaw label hlabel)
  | ending hshape hafter hnew =>
    -- the labels of the open heading are names, which was seen to when it was taken in
    obtain ⟨hname, hparams⟩ := List.forall_mem_cons.1 (h.decl _ rfl)
    obtain ⟨name, span, heq, hvalid⟩ := hname
    cases heq
    refine ⟨h.table.insert (Or.inl hvalid) hparams ?_, hstmts.scopes, hstmts.pending, by simp⟩
    exact (List.forall_mem_cons.1 h.scopes).1

theorem takenFrom_of_finish {lines : List Text} {s : Assembly} {table : FunctionTable}
    (h : s.TakenFrom lines) (hfinish : s.finish = .ok table) : table.TakenFrom lines := by
  obtain ⟨body, outer, _, _, hscopes, _, rfl⟩ := Assembly.finish_eq_ok_iff.1 hfinish
  refine h.table.insert (Or.inr ⟨rfl, rfl⟩) (by simp) ?_
  exact h.scopes body (by simp [hscopes])

/-- **Every part of an accepted program is taken from its line.** -/
theorem takenFrom_of_parseProgram {lines : List Text} {table : FunctionTable}
    (h : parseProgram lines = .ok table) : table.TakenFrom lines := by
  obtain ⟨s, hrun, hfinish⟩ := assemble_eq_ok_iff.1 (parseProgram_eq_ok_iff.1 h).2
  refine takenFrom_of_finish ?_ hfinish
  exact Assembly.run_invariant hrun List.drop_zero (Assembly.takenFrom_start lines)
    fun _ _ _ _ hline hs hmove => hmove.takenFrom hline hs

end LogoLang
