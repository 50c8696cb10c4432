import LogoLang.Proofs.Program.Assembly
import LogoLang.Proofs.Program.Balance
import LogoLang.Proofs.Syntax.Spans

set_option autoImplicit false

/-! # Places of the errors of parsing

`Reported` lists the positions that parsing passes to `Diagnostic.at`: those of errors of structure,
which show a line and the line before or after it, and those of complaints about a line
(`Complaint`). All of them lie inside the text that is shown (`Reported.within`), so no start is moved
(`Diagnostic.at_of_within`). Every diagnostic of parsing is one of them (`isReport_of_parseProgram`). -/

namespace LogoLang

/-! ## Starts that are not moved -/

/-- A start inside the source stays where it is. -/
theorem Diagnostic.at_of_within {stage : Stage} {kind : ErrorKind} {source : Text}
    {line start length : Int} (hstart : 0 ≤ start) (hlength : 0 ≤ length)
    (hstop : start + length ≤ source.length) :
    Diagnostic.at stage kind source line start length =
      ⟨stage, kind, source, line, start.toNat, length⟩ := by
  have hmax : max start 0 = start := Int.max_eq_left hstart
  have hmin : min start (source.length : Int) = start := Int.min_eq_left (by omega)
  rw [Diagnostic.at, hmax, hmin]

/-! ## Complaints about a line -/

/-- The complaints of assembly about a line, by their kinds and places. -/
inductive Complaint (line : Text) : ErrorKind → Span → Prop where
  | statement {index : Nat} {stmt : Stmt} {c : Cursor} {flaw : Flaw}
      (hread : readStmt? line index = some (stmt, c)) (hflaw : stmt.firstFlaw? = some flaw) :
      Complaint line flaw.kind flaw.span
  | heading {decl : Decl} {c : Cursor} {flaw : Flaw} (hread : readDecl? line = some (decl, c))
      (hflaw : decl.firstFlaw? = some flaw) : Complaint line flaw.kind flaw.span
  | repeated {decl : Decl} {c : Cursor} (hread : readDecl? line = some (decl, c)) :
      Complaint line .repeatFunctionName decl.name.span
  | afterStatement {index : Nat} {stmt : Stmt} {c : Cursor}
      (hread : readStmt? line index = some (stmt, c)) :
      Complaint line .unexpectedExtraOperand ⟨c.pos, (Text.trimRight c.rest).length⟩
  | beforeBracket {index : Nat} {stmt : Stmt} {c : Cursor}
      (hread : readStmt? line index = some (stmt, c)) :
      Complaint line .unexpectedExtraOperand ⟨c.pos, (Text.trimRight c.rest).length - 1⟩
  | afterHeading {decl : Decl} {c : Cursor} (hread : readDecl? line = some (decl, c)) :
      Complaint line .unexpectedExtraOperand ⟨c.pos, (Text.trimRight c.rest).length⟩
  | afterEnd {span : Span} (hafter : afterEnd? line = some span) :
      Complaint line .unexpectedExtraOperand span
  | noDeclaration : Complaint line .missingTo ⟨0, line.length⟩
  | noBlock (hshape : LineShape.of line = .close) : Complaint line .missingWhileOrIf ⟨0, 1⟩

theorem Text.length_trimRight_le (t : Text) : (Text.trimRight t).length ≤ t.length :=
  (Text.trimRight_prefix t).length_le

/-- Trimming takes away the blanks at the start, and perhaps more. -/
theorem Text.length_trim_le (t : Text) :
    (t.takeWhile isBlank).length + (Text.trim t).length ≤ t.length := by
  have hright := Text.length_trimRight_le (Text.trimLeft t)
  have hsplit : (t.takeWhile isBlank).length + (Text.trimLeft t).length = t.length := by
    rw [Text.trimLeft, ← List.length_append, List.takeWhile_append_dropWhile]
  unfold Text.trim
  omega

/-- What is left over after reading stands inside the line. -/
theorem Cursor.rest_stop_le {line : Text} {c : Cursor} (h : (Cursor.start line).MovesTo c) :
    c.pos + (Text.trimRight c.rest).length ≤ line.length := by
  have hlength := h.pos_le_length
  have htrim := Text.length_trimRight_le c.rest
  omega

theorem afterEnd?_stop_le {line : Text} {span : Span} (h : afterEnd? line = some span) :
    span.stop ≤ line.length := by
  simp only [afterEnd?, List.isEmpty_iff] at h
  split at h
  · exact absurd h (by simp)
  · next hne =>
    cases h
    -- `start` is the position after `END`; the place is what is left of the line there, trimmed
    generalize (line.takeWhile isBlank).length + endKeyword.length = start at hne ⊢
    have htrim := Text.length_trim_le (line.drop start)
    have hpos := List.length_pos_iff.2 hne
    rw [List.length_drop] at htrim
    show start + _ + (Text.trim (line.drop start)).length ≤ line.length
    omega

theorem length_pos_of_close {line : Text} (h : LineShape.of line = .close) : 0 < line.length := by
  cases line with
  | nil => exact absurd h (by decide)
  | cons c rest => exact Nat.succ_pos _

/-- **Complaints about a line have places in it.** -/
theorem Complaint.stop_le {line : Text} {kind : ErrorKind} {span : Span}
    (h : Complaint line kind span) : span.stop ≤ line.length := by
  cases h with
  | statement hread hflaw =>
    have hfrom := readFrom_of_readStmt? hread
    exact Nat.le_trans (hfrom.placed.flaw_stop_le hflaw) hfrom.pos_le
  | heading hread hflaw => exact (readFrom_of_readDecl? hread).flaw_stop_le hflaw
  | repeated hread =>
    have hfrom := readFrom_of_readDecl? hread
    exact Nat.le_trans (hfrom.placed _ List.mem_cons_self).stop_le hfrom.pos_le
  | afterStatement hread => exact Cursor.rest_stop_le (readFrom_of_readStmt? hread).moves
  | beforeBracket hread =>
    exact Nat.le_trans (Nat.add_le_add_left (Nat.sub_le _ _) _)
      (Cursor.rest_stop_le (readFrom_of_readStmt? hread).moves)
  | afterHeading hread => exact Cursor.rest_stop_le (readFrom_of_readDecl? hread).moves
  | afterEnd hafter => exact afterEnd?_stop_le hafter
  | noDeclaration => exact Nat.le_of_eq (Nat.zero_add _)
  | noBlock hshape => exact length_pos_of_close hshape

/-! ## Reports -/

/-- The errors that parsing reports: the kind, the text that is shown, the number of the line, and the
    start and the length of the place, as they are passed to `Diagnostic.at`. -/
inductive Reported (lines : List Text) : ErrorKind → Text → Int → Int → Int → Prop where
  | inLine {index : Nat} {line : Text} {kind : ErrorKind} {span : Span}
      (hline : lines[index]? = some line) (hcomplaint : Complaint line kind span) :
      Reported lines kind line (index + 1) span.start span.length
  | afterLine {index : Nat} {line : Text} {kind : ErrorKind} (hline : lines[index]? = some line) :
      Reported lines kind (line.trimRight ++ "  ".toList) (index + 1)
        ((line.trimRight ++ "  ".toList).length - 1) 1
  | below {line : Text} {kind : ErrorKind} {number : Int} (hline : line ∈ lines)
      (hnumber : 0 ≤ number ∧ number ≤ lines.length) :
      Reported lines kind (line ++ "\n ".toList) number ((line ++ "\n ".toList).length - 1) 1
  | above {index : Nat} {line : Text} {kind : ErrorKind} (hline : lines[index]? = some line) :
      Reported lines kind (" \n".toList ++ line) (index + 1) 0 1
  | under {index : Nat} {opened line : Text} {kind : ErrorKind} (hopened : opened ∈ lines)
      (hline : lines[index]? = some line) :
      Reported lines kind (opened ++ '\n' :: line) (index + 1)
        ((opened ++ '\n' :: line).length - line.length) line.length
  | atFinish {kind : ErrorKind} : Reported lines kind [' '] 0 0 1

theorem number_le_of_getElem? {lines : List Text} {index : Nat} {line : Text}
    (h : lines[index]? = some line) :
    (0 : Int) ≤ index + 1 ∧ (index : Int) + 1 ≤ lines.length := by
  obtain ⟨hlt, _⟩ := List.getElem?_eq_some_iff.1 h
  omega

/-- **Whatever parsing reports lies inside the text that is shown with it**, and the line has a number
    of the program or zero. -/
theorem Reported.within {lines : List Text} {kind : ErrorKind} {source : Text}
    {line start length : Int} (h : Reported lines kind source line start length) :
    0 ≤ start ∧ 0 ≤ length ∧ start + length ≤ source.length ∧
      0 ≤ line ∧ line ≤ lines.length := by
  cases h with
  | inLine hline hcomplaint =>
    have hstop := hcomplaint.stop_le
    have hnumber := number_le_of_getElem? hline
    unfold Span.stop at hstop
    omega
  | afterLine hline =>
    have hnumber := number_le_of_getElem? hline
    simp only [List.length_append, String.length_toList]
    have htwo : "  ".length = 2 := rfl
    omega
  | below hline hnumber =>
    simp only [List.length_append, String.length_toList]
    have htwo : "\n ".length = 2 := rfl
    omega
  | above hline =>
    have hnumber := number_le_of_getElem? hline
    simp only [List.length_append, String.length_toList]
    have htwo : " \n".length = 2 := rfl
    omega
  | under hopened hline =>
    have hnumber := number_le_of_getElem? hline
    simp only [List.length_append, List.length_cons]
    omega
  | atFinish => simp

/-- A diagnostic of parsing. -/
def Diagnostic.IsReport (lines : List Text) (d : Diagnostic) : Prop :=
  ∃ kind source line start length, Reported lines kind source line start length ∧
    d = Diagnostic.at .compiling kind source line start length

theorem Reported.isReport {lines : List Text} {kind : ErrorKind} {source : Text}
    {line start length : Int} (h : Reported lines kind source line start length) :
    (Diagnostic.at .compiling kind source line start length).IsReport lines :=
  ⟨kind, source, line, start, length, h, rfl⟩

/-! ## The balance check -/

/-- What is open was opened by a line of the program. -/
structure Balance.OpenedIn (lines : List Text) (s : Balance) : Prop where
  blocks : ∀ opened ∈ s.blocks, opened.text ∈ lines
  decl : ∀ opened ∈ s.decl, opened.text ∈ lines

theorem Balance.openedIn_start (lines : List Text) : Balance.start.OpenedIn lines :=
  ⟨by simp [Balance.start], by simp [Balance.start]⟩

theorem Balance.Moves.openedIn {lines : List Text} {index : Nat} {line : Text} {s t : Balance}
    (hmove : Balance.Moves index line s t) (hline : line ∈ lines) (h : s.OpenedIn lines) :
    t.OpenedIn lines := by
  cases hmove with
  | opener hclass hbracket => exact ⟨List.forall_mem_cons.2 ⟨hline, h.blocks⟩, h.decl⟩
  | closer hclass => exact ⟨(List.forall_mem_cons.1 h.blocks).2, h.decl⟩
  | heading hclass =>
    refine ⟨h.blocks, ?_⟩
    rintro opened ⟨⟩
    exact hline
  | ending hclass => exact ⟨h.blocks, by simp⟩
  | other hclass => exact h

theorem Balance.openedIn_run {lines before : List Text} {index : Nat} {s t : Balance}
    (hrun : s.run index before = .ok t) (hsub : ∀ line ∈ before, line ∈ lines)
    (h : s.OpenedIn lines) : t.OpenedIn lines := by
  induction before generalizing s index with
  | nil =>
    cases hrun
    exact h
  | cons line rest ih =>
    obtain ⟨hline, hrest⟩ := List.forall_mem_cons.1 hsub
    obtain ⟨mid, hmove, hrun⟩ := Balance.run_cons_eq_ok_iff.1 hrun
    exact ih hrun hrest (hmove.openedIn hline h)

theorem Balance.isReport_of_step {lines : List Text} {index : Nat} {line : Text} {s : Balance}
    {d : Diagnostic} (hline : lines[index]? = some line) (h : s.OpenedIn lines)
    (hfail : s.step index line = .error d) : d.IsReport lines := by
  have hnumber := number_le_of_getElem? hline
  obtain ⟨blocks, decl⟩ := s
  cases hclass : LineClass.of line with
  | opener =>
    simp only [Balance.step, hclass] at hfail
    split at hfail
    · exact absurd hfail (by simp)
    · cases hfail
      exact (Reported.afterLine hline).isReport
  | closer =>
    cases blocks with
    | nil =>
      simp only [Balance.step, hclass, Except.error.injEq] at hfail
      subst hfail
      exact (Reported.above hline).isReport
    | cons opened outer => simp [Balance.step, hclass] at hfail
  | heading =>
    cases decl with
    | some opened =>
      simp only [Balance.step, hclass, Except.error.injEq] at hfail
      subst hfail
      exact (Reported.below (h.decl opened rfl) hnumber).isReport
    | none =>
      cases blocks with
      | nil => simp [Balance.step, hclass] at hfail
      | cons opened outer =>
        simp only [Balance.step, hclass, Except.error.injEq] at hfail
        subst hfail
        exact (Reported.under (h.blocks opened List.mem_cons_self) hline).isReport
  | ending =>
    cases blocks with
    | nil =>
      cases decl with
      | some opened => simp [Balance.step, hclass] at hfail
      | none =>
        simp only [Balance.step, hclass, Except.error.injEq] at hfail
        subst hfail
        exact (Reported.above hline).isReport
    | cons opened outer =>
      cases decl with
      | some heading =>
        simp only [Balance.step, hclass, Except.error.injEq] at hfail
        subst hfail
        exact (Reported.below (h.blocks opened List.mem_cons_self) hnumber).isReport
      | none =>
        simp only [Balance.step, hclass, Except.error.injEq] at hfail
        subst hfail
        exact (Reported.under (h.blocks opened List.mem_cons_self) hline).isReport
  | other => simp [Balance.step, hclass] at hfail

theorem Balance.isReport_of_finish {lines : List Text} {s : Balance} {d : Diagnostic}
    (h : s.OpenedIn lines) (hfail : s.finish = .error d) : d.IsReport lines := by
  have hnumber : (0 : Int) ≤ 0 ∧ (0 : Int) ≤ lines.length := ⟨Int.le_refl 0, Int.natCast_nonneg _⟩
  obtain ⟨blocks, decl⟩ := s
  cases decl with
  | some opened =>
    cases hfail
    exact (Reported.below (h.decl opened rfl) hnumber).isReport
  | none =>
    cases blocks with
    | nil => simp [Balance.finish] at hfail
    | cons opened outer =>
      cases hfail
      exact (Reported.below (h.blocks opened List.mem_cons_self) hnumber).isReport

theorem isReport_of_checkBalance {lines : List Text} {d : Diagnostic}
    (h : checkBalance lines = .error d) : d.IsReport lines := by
  rcases Except.bind_eq_error_iff.1 h with hrun | ⟨s, hrun, hfinish⟩
  · obtain ⟨before, line, after, s, rfl, hbefore, hstep⟩ := Balance.exists_failing_step hrun
    rw [Nat.zero_add] at hstep
    have hsub : ∀ text ∈ before, text ∈ before ++ line :: after :=
      fun _ hmem => List.mem_append_left _ hmem
    exact Balance.isReport_of_step (by simp)
      (Balance.openedIn_run hbefore hsub (Balance.openedIn_start _)) hstep
  · exact Balance.isReport_of_finish
      (Balance.openedIn_run hrun (fun _ hmem => hmem) (Balance.openedIn_start lines)) hfinish

/-! ## Assembly -/

section Assembly

variable {lines : List Text} {index : Nat} {line : Text} {d : Diagnostic}

theorem isReport_of_lineError {kind : ErrorKind} {span : Span} (hline : lines[index]? = some line)
    (hcomplaint : Complaint line kind span) (h : lineError kind line index span = .diagnostic d) :
    d.IsReport lines := by
  cases h
  exact (Reported.inLine hline hcomplaint).isReport

theorem isReport_of_refuseFlaw {flaw? : Option Flaw} (hline : lines[index]? = some line)
    (hcomplaint : ∀ flaw, flaw? = some flaw → Complaint line flaw.kind flaw.span)
    (h : refuseFlaw line index flaw? = .error (.diagnostic d)) : d.IsReport lines := by
  cases flaw? with
  | none => simp [refuseFlaw] at h
  | some flaw => exact isReport_of_lineError hline (hcomplaint flaw rfl) (Except.error.inj h)

theorem isReport_of_refuseRest {c : Cursor} (hline : lines[index]? = some line)
    (hcomplaint : Complaint line .unexpectedExtraOperand ⟨c.pos, (Text.trimRight c.rest).length⟩)
    (h : refuseRest line index c = .error (.diagnostic d)) : d.IsReport lines := by
  simp only [refuseRest] at h
  split at h
  · exact absurd h (by simp)
  · exact isReport_of_lineError hline hcomplaint (Except.error.inj h)

theorem isReport_of_refuseUnopened {c : Cursor} {stmt : Stmt} (hline : lines[index]? = some line)
    (hread : readStmt? line index = some (stmt, c))
    (h : refuseUnopened line index c = .error (.diagnostic d)) : d.IsReport lines := by
  simp only [refuseUnopened] at h
  split at h
  · exact absurd h (by simp)
  · split at h
    · exact isReport_of_lineError hline (.beforeBracket hread) (Except.error.inj h)
    · cases h
      exact (Reported.afterLine hline).isReport

theorem isReport_of_refuseRepeated {table : FunctionTable} {name : Label}
    (hline : lines[index]? = some line) (hcomplaint : Complaint line .repeatFunctionName name.span)
    (h : refuseRepeated table line index name = .error (.diagnostic d)) : d.IsReport lines := by
  cases name with
  | malformed flaw => simp [refuseRepeated] at h
  | named text span =>
    simp only [refuseRepeated] at h
    split at h
    · exact isReport_of_lineError hline hcomplaint (Except.error.inj h)
    · exact absurd h (by simp)

theorem Assembly.append_ne_diagnostic {s : Assembly} {stmt : Stmt} :
    s.append stmt ≠ .error (.diagnostic d) := by
  rw [Assembly.append]
  split <;> simp

theorem isReport_of_statement {s : Assembly} (hline : lines[index]? = some line)
    (h : s.statement index line = .error (.diagnostic d)) : d.IsReport lines := by
  cases hread : readStmt? line index with
  | none => simp [Assembly.statement, hread] at h
  | some result =>
    obtain ⟨stmt, c⟩ := result
    have hflaw : ∀ flaw, stmt.firstFlaw? = some flaw → Complaint line flaw.kind flaw.span :=
      fun _ => .statement hread
    cases hleaf : stmt.isBlock with
    | false =>
      rw [Assembly.statement_of_leaf hread hleaf] at h
      rcases Except.bind_eq_error_iff.1 h with hrest | ⟨_, _, h⟩
      · exact isReport_of_refuseRest hline (.afterStatement hread) hrest
      rcases Except.bind_eq_error_iff.1 h with hfail | ⟨_, _, happend⟩
      · exact isReport_of_refuseFlaw hline hflaw hfail
      · exact absurd happend Assembly.append_ne_diagnostic
    | true =>
      cases stmt with
      | block kind condition body lineIndex =>
        simp only [Assembly.statement, hread] at h
        rcases Except.bind_eq_error_iff.1 h with hrest | ⟨_, _, h⟩
        · exact isReport_of_refuseUnopened hline hread hrest
        rcases Except.bind_eq_error_iff.1 h with hfail | ⟨_, _, hpush⟩
        · exact isReport_of_refuseFlaw hline hflaw hfail
        · exact absurd hpush (by simp [pure, Except.pure])
      | assign | pen | command | call | comment => simp [Stmt.isBlock] at hleaf

theorem isReport_of_declare {s : Assembly} (hline : lines[index]? = some line)
    (h : s.declare index line = .error (.diagnostic d)) : d.IsReport lines := by
  cases hread : readDecl? line with
  | none => simp [Assembly.declare, hread] at h
  | some result =>
    obtain ⟨decl, c⟩ := result
    simp only [Assembly.declare, hread] at h
    rcases Except.bind_eq_error_iff.1 h with hrest | ⟨_, _, h⟩
    · exact isReport_of_refuseRest hline (.afterHeading hread) hrest
    rcases Except.bind_eq_error_iff.1 h with hrepeated | ⟨_, _, h⟩
    · exact isReport_of_refuseRepeated hline (.repeated hread) hrepeated
    rcases Except.bind_eq_error_iff.1 h with hfail | ⟨_, _, hpush⟩
    · exact isReport_of_refuseFlaw hline (fun _ => .heading hread) hfail
    · exact absurd hpush (by simp [pure, Except.pure])

theorem isReport_of_endDeclaration {s : Assembly} (hline : lines[index]? = some line)
    (h : s.endDeclaration index line = .error (.diagnostic d)) : d.IsReport lines := by
  simp only [Assembly.endDeclaration] at h
  split at h
  · exact isReport_of_lineError hline .noDeclaration (Except.error.inj h)
  · split at h
    · next span hafter =>
      exact isReport_of_lineError hline (.afterEnd hafter) (Except.error.inj h)
    · -- what can still fail is no diagnostic
      split at h
      · exact absurd h (by simp)
      · exact absurd h (by simp)
      · split at h <;> exact absurd h (by simp)

theorem isReport_of_closeBlock {s : Assembly} (hline : lines[index]? = some line)
    (hshape : LineShape.of line = .close)
    (h : s.closeBlock index line = .error (.diagnostic d)) : d.IsReport lines := by
  simp only [Assembly.closeBlock] at h
  split at h
  · exact isReport_of_lineError hline (.noBlock hshape) (Except.error.inj h)
  · exact absurd h (by simp)
  · exact absurd h Assembly.append_ne_diagnostic

theorem Assembly.isReport_of_step {s : Assembly} (hline : lines[index]? = some line)
    (h : s.step index line = .error (.diagnostic d)) : d.IsReport lines := by
  cases hshape : LineShape.of line with
  | blank => simp [Assembly.step, hshape] at h
  | comment text =>
    simp only [Assembly.step, hshape] at h
    exact absurd h Assembly.append_ne_diagnostic
  | close =>
    simp only [Assembly.step, hshape] at h
    exact isReport_of_closeBlock hline hshape h
  | heading =>
    simp only [Assembly.step, hshape] at h
    exact isReport_of_declare hline h
  | ending =>
    simp only [Assembly.step, hshape] at h
    exact isReport_of_endDeclaration hline h
  | statement =>
    simp only [Assembly.step, hshape] at h
    exact isReport_of_statement hline h

theorem Assembly.isReport_of_finish {s : Assembly} (h : s.finish = .error (.diagnostic d)) :
    d.IsReport lines := by
  simp only [Assembly.finish] at h
  split at h
  · cases h
    exact Reported.atFinish.isReport
  · cases h
    exact Reported.atFinish.isReport
  · exact absurd h (by simp)
  · split at h <;> exact absurd h (by simp)

end Assembly

theorem isReport_of_assemble {lines : List Text} {d : Diagnostic}
    (h : assemble lines = .error (.diagnostic d)) : d.IsReport lines := by
  simp only [assemble, Assembly.ofLines] at h
  cases hrun : Assembly.start.run 0 lines with
  | mk s failure =>
    rw [hrun] at h
    cases failure with
    | none => exact Assembly.isReport_of_finish h
    | some failure =>
      cases h
      obtain ⟨before, line, after, rfl, _, hstep⟩ := Assembly.exists_failing_step hrun
      rw [Nat.zero_add] at hstep
      exact Assembly.isReport_of_step (by simp) hstep

/-- **The diagnostics of parsing are reports.** -/
theorem isReport_of_parseProgram {lines : List Text} {d : Diagnostic}
    (h : parseProgram lines = .error (.diagnostic d)) : d.IsReport lines := by
  rw [parseProgram] at h
  cases hbalance : checkBalance lines with
  | error d' =>
    rw [hbalance] at h
    cases h
    exact isReport_of_checkBalance hbalance
  | ok u =>
    rw [hbalance] at h
    exact isReport_of_assemble h

end LogoLang
