import LogoLang.Proofs.Program.Diagnostics
import LogoLang.Proofs.Session.WellFormed
import LogoLang.Session.Basic

set_option autoImplicit false

/-! # Diagnostics point at text

Wherever a diagnostic comes from, it has a place inside the text that it shows and a line of the
program, or the line zero (`Diagnostic.PointsInto`). One of a run or of an emission shows the line of
the statement that the run or the emission is at, and the place of a part of this statement that is
not empty (`Diagnostic.Shows`). The main statement is `diagnostics_point_at_text`. -/

namespace LogoLang

/-! ## Places of diagnostics -/

/-- A diagnostic whose place is inside its source and whose line is one of the program or zero. -/
structure Diagnostic.PointsInto (lines : List Text) (d : Diagnostic) : Prop where
  length_nonneg : 0 ≤ d.length
  stop_le : (d.start : Int) + d.length ≤ d.source.length
  line_nonneg : 0 ≤ d.line
  line_le : d.line ≤ lines.length

/-- A diagnostic that shows a flaw of a statement: its source is the line of the statement, and its
    place, which was not moved, is that of a part of the statement and not empty. -/
structure Diagnostic.Shows (stage : Stage) (lines : List Text) (stmt : Stmt) (flaw : Flaw)
    (d : Diagnostic) : Prop where
  source : lines[stmt.line]? = some d.source
  part : flaw.span ∈ stmt.spans
  nonempty : 0 < flaw.span.length
  unmoved : d = ⟨stage, flaw.kind, d.source, stmt.line + 1, flaw.span.start, flaw.span.length⟩

theorem pointsInto_of_within {lines : List Text} {stage : Stage} {kind : ErrorKind} {source : Text}
    {line start length : Int} (hstart : 0 ≤ start) (hlength : 0 ≤ length)
    (hstop : start + length ≤ source.length) (hline : 0 ≤ line) (hlines : line ≤ lines.length) :
    ((Diagnostic.at stage kind source line start length).start : Int) = start ∧
      (Diagnostic.at stage kind source line start length).PointsInto lines := by
  rw [Diagnostic.at_of_within hstart hlength hstop]
  have hcast : (start.toNat : Int) = start := Int.toNat_of_nonneg hstart
  exact ⟨hcast, hlength, by rw [hcast]; exact hstop, hline, hlines⟩

theorem shows_flawDiagnostic {lines : List Text} {stage : Stage} {stmt : Stmt} {flaw : Flaw}
    (htaken : stmt.TakenFrom lines) (hpart : flaw.span ∈ stmt.spans) :
    (flawDiagnostic stage lines flaw stmt.line).Shows stage lines stmt flaw ∧
      (flawDiagnostic stage lines flaw stmt.line).PointsInto lines := by
  obtain ⟨text, hline, hpos, hstop⟩ := htaken.spans flaw.span hpart
  have hsource : lines.getD stmt.line [] = text := by simp [List.getD, hline]
  have hbound : (flaw.span.start : Int) + flaw.span.length ≤ text.length := by
    unfold Span.stop at hstop
    omega
  have hnumber := number_le_of_getElem? hline
  rw [flawDiagnostic, hsource]
  refine ⟨?_, (pointsInto_of_within (Int.natCast_nonneg _) (Int.natCast_nonneg _) hbound hnumber.1
    hnumber.2).2⟩
  rw [Diagnostic.at_of_within (Int.natCast_nonneg _) (Int.natCast_nonneg _) hbound,
    Int.toNat_natCast]
  exact ⟨hline, hpart, hpos, rfl⟩

/-! ## Runs and emissions -/

/-- Only a flaw makes a diagnostic of the end of a run. -/
theorem Ending.failure?_eq_diagnostic {lines : List Text} {ending : Ending} {d : Diagnostic}
    (h : ending.failure? lines = some (.diagnostic d)) :
    ∃ flaw line, ending = .refused (.flaw flaw) line ∧
      d = flawDiagnostic .running lines flaw line := by
  cases ending with
  | finished | nestedTooDeeply | unfinished => simp [Ending.failure?] at h
  | refused cause line =>
    cases cause with
    | flaw flaw =>
      simp only [Ending.failure?, Option.some.injEq, Failure.diagnostic.injEq] at h
      exact ⟨flaw, line, rfl, h.symm⟩
    | turtle fault => cases fault <;> simp [Ending.failure?, TurtleFault.toFailure] at h
    | malformed => simp [Ending.failure?] at h

theorem EmitFailure.toFailure_eq_diagnostic {lines : List Text} {failure : EmitFailure}
    {d : Diagnostic} (h : failure.toFailure lines = .diagnostic d) :
    ∃ flaw, failure.fault = .flaw flaw ∧ d = flawDiagnostic .emitting lines flaw failure.line := by
  obtain ⟨fault, line⟩ := failure
  cases fault with
  | flaw flaw =>
    simp only [EmitFailure.toFailure, Failure.diagnostic.injEq] at h
    exact ⟨flaw, rfl, h.symm⟩
  | malformed => simp [EmitFailure.toFailure] at h

/-- A run that ends with a diagnostic is at the statement that the diagnostic shows. -/
theorem shows_of_run {lines : List Text} {p : Program} {t : Turtle} {fuel : Nat} {ending : Ending}
    {c : Config} {d : Diagnostic} (htaken : p.table.TakenFrom lines)
    (hrun : (Config.start p t).run p fuel = (ending, c))
    (hfailure : ending.failure? lines = some (.diagnostic d)) :
    ∃ stmt rest caller outer flaw, c.blocks = ⟨stmt :: rest, caller⟩ :: outer ∧
      stmt ∈ p.table.stmts ∧ ending = .refused (.flaw flaw) stmt.line ∧
      d.Shows .running lines stmt flaw ∧ d.PointsInto lines := by
  obtain ⟨flaw, line, rfl, rfl⟩ := Ending.failure?_eq_diagnostic hfailure
  -- the run comes to `mid`, and the step from there is refused
  obtain ⟨mid, hreach, hstep⟩ := Config.run_eq_refused hrun
  have hform := fun stmt hstmt => (htaken.stmts stmt hstmt).wellFormed
  obtain ⟨stmt, rest, caller, outer, hblocks, rfl, rfl, hmem, hcites⟩ :=
    cites_of_step hform hreach hstep
  exact ⟨stmt, rest, caller, outer, flaw, hblocks, hmem, rfl,
    shows_flawDiagnostic (htaken.stmts stmt hmem) hcites⟩

/-- **Every diagnostic points at text of the program.** One of parsing is made of a report, whose start
    is not moved. One of a run, in either call mode and however long it is, shows the statement at the
    head of the innermost open block. One of an emission shows the statement that the emission has come
    to, and whose own line it refuses. -/
theorem diagnostics_point_at_text (lines : List Text) :
    (∀ d, parseProgram lines = .error (.diagnostic d) →
      (∃ kind source line start length, Reported lines kind source line start length ∧
        d = Diagnostic.at .compiling kind source line start length ∧ (d.start : Int) = start) ∧
      d.PointsInto lines) ∧
    ∀ table, parseProgram lines = .ok table →
      (∀ privateVariables t fuel ending c d,
        (Config.start ⟨table, privateVariables⟩ t).run ⟨table, privateVariables⟩ fuel = (ending, c) →
        ending.failure? lines = some (.diagnostic d) →
        ∃ stmt rest caller outer flaw, c.blocks = ⟨stmt :: rest, caller⟩ :: outer ∧
          stmt ∈ table.stmts ∧ ending = .refused (.flaw flaw) stmt.line ∧
          d.Shows .running lines stmt flaw ∧ d.PointsInto lines) ∧
      ∀ failure d, table.emit.result = .error failure →
        failure.toFailure lines = .diagnostic d →
        ∃ before name f after scope stmt depth flaw, table.entries = before ++ (name, f) :: after ∧
          (∃ codes, (emitFunctions table before).result = .ok codes) ∧
          EmitsTo table f.scope f.body scope stmt ∧
          (stmt.withoutBody.emit table depth scope).result = .error failure ∧
          failure = ⟨.flaw flaw, stmt.line⟩ ∧
          d.Shows .emitting lines stmt flaw ∧ d.PointsInto lines := by
  refine ⟨?_, fun table hparse => ⟨?_, ?_⟩⟩
  · intro d hparse
    obtain ⟨kind, source, line, start, length, hreported, rfl⟩ := isReport_of_parseProgram hparse
    obtain ⟨hstart, hlength, hstop, hline, hlines⟩ := hreported.within
    obtain ⟨hsame, hpoints⟩ := pointsInto_of_within hstart hlength hstop hline hlines
    exact ⟨⟨kind, source, line, start, length, hreported, rfl, hsame⟩, hpoints⟩
  · intro privateVariables t fuel ending c d hrun hfailure
    exact shows_of_run (p := ⟨table, privateVariables⟩) (takenFrom_of_parseProgram hparse) hrun
      hfailure
  · intro failure d hemit hfailure
    have htaken := takenFrom_of_parseProgram hparse
    obtain ⟨flaw, hfault, rfl⟩ := EmitFailure.toFailure_eq_diagnostic hfailure
    obtain ⟨before, name, f, after, scope, stmt, depth, hentries, hbefore, hto, hfail, hline, hmem,
      hcites⟩ := cites_of_emit (fun stmt hstmt => (htaken.stmts stmt hstmt).wellFormed) hemit
    obtain ⟨fault, line⟩ := failure
    cases hfault
    cases hline
    obtain ⟨hshows, hpoints⟩ := shows_flawDiagnostic (htaken.stmts stmt hmem) hcites
    exact ⟨before, name, f, after, scope, stmt, depth, flaw, hentries, hbefore, hto, hfail, rfl,
      hshows, hpoints⟩

/-- A missing operand is reported by parsing, and an operand of the wrong type both by a run and by an
    emission. -/
theorem diagnostics_point_at_text_of_operand :
    (∃ d, parseProgram ["FORWARD".toList] = .error (.diagnostic d) ∧
      d.PointsInto ["FORWARD".toList]) ∧
    ∃ table t ending c failure d d', parseProgram ["FORWARD \"TRUE".toList] = .ok table ∧
      (Config.start ⟨table, true⟩ t).run ⟨table, true⟩ 5 = (ending, c) ∧
      ending.failure? ["FORWARD \"TRUE".toList] = some (.diagnostic d) ∧
      d.PointsInto ["FORWARD \"TRUE".toList] ∧
      table.emit.result = .error failure ∧
      failure.toFailure ["FORWARD \"TRUE".toList] = .diagnostic d' ∧
      d'.PointsInto ["FORWARD \"TRUE".toList] := by
  refine ⟨⟨_, rfl, ((diagnostics_point_at_text ["FORWARD".toList]).1 _ rfl).2⟩, ?_⟩
  obtain ⟨table, hparse, hrest⟩ := Except.exists_of_any
    (m := parseProgram ["FORWARD \"TRUE".toList])
    (p := fun table => ((Config.start ⟨table, true⟩
        ⟨.default, .default, 200, 200, 0, false, 7, [], []⟩).run ⟨table, true⟩ 5).1 =
          .refused (refusal .unexpectedBooleanType ⟨8, 5⟩) 0 &&
      table.emit.result = .error ⟨.flaw ⟨.unexpectedBooleanType, ⟨8, 5⟩⟩, 0⟩) (by decide +kernel)
  simp only [Bool.and_eq_true, decide_eq_true_eq] at hrest
  obtain ⟨hrun, hemit⟩ := hrest
  obtain ⟨hruns, hemits⟩ := (diagnostics_point_at_text ["FORWARD \"TRUE".toList]).2 table hparse
  obtain ⟨_, _, _, _, _, _, _, _, _, hran⟩ := hruns true _ 5 _ _ _ (Prod.ext hrun rfl) rfl
  obtain ⟨_, _, _, _, _, _, _, _, _, _, _, _, _, _, hemitted⟩ := hemits _ _ hemit rfl
  exact ⟨table, _, _, _, _, _, _, hparse, Prod.ext hrun rfl, rfl, hran, hemit, rfl, hemitted⟩

end LogoLang
