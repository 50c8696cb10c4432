import LogoLang.Proofs.Emit.Statement
import LogoLang.Proofs.Program.Provenance
import LogoLang.Proofs.Run.Steps

set_option autoImplicit false

/-! # Accepted programs are well formed

A text that cannot be read becomes a malformed leaf, wherever it stands. None of them gets into the
table of an accepted program, so neither a run nor an emission ever meets one
(`accepted_program_wellFormed`). -/

namespace LogoLang

/-- A table without malformed parts: all statements at any depth are well formed, all parameters are
    proper names, and so are the names of the functions, but for that of the top level. -/
structure FunctionTable.WellFormed (table : FunctionTable) : Prop where
  names : ∀ entry ∈ table.entries, isValidName entry.1 = true ∨ entry.1 = mainName
  params : ∀ entry ∈ table.entries, ∀ param ∈ entry.2.params, param.IsName
  stmts : ∀ stmt ∈ table.stmts, stmt.WellFormed

theorem FunctionTable.TakenFrom.wellFormed {lines : List Text} {table : FunctionTable}
    (h : table.TakenFrom lines) : table.WellFormed where
  names := fun entry hentry => (h.names entry hentry).imp_right And.left
  params := h.params
  stmts := fun stmt hstmt => (h.stmts stmt hstmt).wellFormed

section Runs

variable {p : Program} {t : Turtle} {c c' : Config} {cause : Refusal} {line : Nat}

/-- A step of a run is refused at a part of the statement that it is at, or by the turtle. -/
theorem cites_of_step (hstmts : ∀ stmt ∈ p.table.stmts, stmt.WellFormed)
    (hreach : Config.Reaches p (Config.start p t) c) (h : c.step p = .refused cause line c') :
    ∃ stmt rest caller outer, c.blocks = ⟨stmt :: rest, caller⟩ :: outer ∧ line = stmt.line ∧
      c' = c.decided p stmt ∧ stmt ∈ p.table.stmts ∧ cause.Cites stmt.spans := by
  obtain ⟨stmt, rest, caller, outer, hblocks, hline, hc', hrefuses⟩ := Config.step_eq_refused h
  have hmem := hreach.mem_stmts hblocks
  refine ⟨stmt, rest, caller, outer, hblocks, hline, hc', hmem, ?_⟩
  cases hrefuses with
  | fails hfails => exact Stmt.cites_of_fails (hstmts stmt hmem) hfails
  | turtle hdoes hperform => trivial

end Runs

/-- An emission that fails has come to a statement of some function, the functions before it were
    emitted, and it fails in the line of this statement and at one of its parts. -/
theorem cites_of_emit {table : FunctionTable} {failure : EmitFailure}
    (hstmts : ∀ stmt ∈ table.stmts, stmt.WellFormed) (h : table.emit.result = .error failure) :
    ∃ before name f after scope stmt depth, table.entries = before ++ (name, f) :: after ∧
      (∃ codes, (emitFunctions table before).result = .ok codes) ∧
      EmitsTo table f.scope f.body scope stmt ∧
      (stmt.withoutBody.emit table depth scope).result = .error failure ∧
      failure.line = stmt.line ∧ stmt ∈ table.stmts ∧ failure.fault.Cites stmt.spans := by
  obtain ⟨before, name, f, after, hentries, hbefore, hbody⟩ := exists_failing_function h
  obtain ⟨scope, stmt, depth, hto, hfail⟩ := exists_failing_stmt hbody
  obtain ⟨hline, hcites⟩ := Stmt.cites_of_emit hfail
  have hmem : stmt ∈ table.stmts :=
    List.mem_flatMap.2 ⟨(name, f), by simp [hentries], hto.mem⟩
  exact ⟨before, name, f, after, scope, stmt, depth, hentries, hbefore, hto, hfail, hline, hmem,
    hcites (hstmts stmt hmem)⟩

/-- **No malformed part gets into an accepted program**, and so no run of it, in either call mode and
    however long, and no emission of it fails for a text that was never understood. -/
theorem accepted_program_wellFormed {lines : List Text} {table : FunctionTable}
    (h : parseProgram lines = .ok table) :
    table.WellFormed ∧
      (∀ privateVariables t c cause line c',
        Config.Reaches ⟨table, privateVariables⟩ (Config.start ⟨table, privateVariables⟩ t) c →
          c.step ⟨table, privateVariables⟩ = .refused cause line c' → cause ≠ .malformed) ∧
      ∀ failure, table.emit.result = .error failure → failure.fault ≠ .malformed := by
  have hform := (takenFrom_of_parseProgram h).wellFormed
  refine ⟨hform, ?_, ?_⟩
  · intro privateVariables t c cause line c' hreach hstep
    obtain ⟨_, _, _, _, _, _, _, _, hcites⟩ := cites_of_step hform.stmts hreach hstep
    exact hcites.ne_malformed
  · intro failure hemit
    obtain ⟨_, _, _, _, _, _, _, _, _, _, _, _, _, hcites⟩ := cites_of_emit hform.stmts hemit
    exact hcites.ne_malformed

/-- A program with a declaration, a block and calls with arguments. -/
theorem accepted_program_wellFormed_walk :
    ∃ table, parseProgram ["TO walk \"n".toList, "IF GT :n \"0 [".toList, "FORWARD :n".toList,
        "walk - :n \"1".toList, "]".toList, "END".toList, "walk \"3".toList] = .ok table ∧
      table.WellFormed := by
  obtain ⟨table, htable⟩ := Except.exists_of_isOk (m := parseProgram ["TO walk \"n".toList,
    "IF GT :n \"0 [".toList, "FORWARD :n".toList, "walk - :n \"1".toList, "]".toList,
    "END".toList, "walk \"3".toList]) (by decide +kernel)
  exact ⟨table, htable, (accepted_program_wellFormed htable).1⟩

end LogoLang
