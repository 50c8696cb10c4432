import LogoLang.Proofs.Program.Aligned
import LogoLang.Proofs.Syntax.Flaws

set_option autoImplicit false

/-! # Errors of balance after the balance check

Lines that pass the balance check can still be refused by assembly, mostly for a problem inside a
line. `balanceError_iff_misreadHeader` says exactly when they are refused for their balance: when
the two phases do not agree on the header of a block. -/

namespace LogoLang

/-! ## How assembly fails on a line that the check takes in -/

/-- The kinds of error that are about the balance of a program. -/
def ErrorKind.isBalance : ErrorKind → Bool
  | .missingLeftBracket | .missingRightBracket | .missingWhileOrIf => true
  | .missingTo | .missingEnd => true
  | _ => false

/-- The kinds of error that are about a single line, or about a name that has a function already. -/
def ErrorKind.isLocal (kind : ErrorKind) : Bool :=
  kind.category = .naming || kind.category = .grammar || kind = .repeatFunctionName

theorem ErrorKind.isBalance_of_isLocal {kind : ErrorKind} (h : kind.isLocal = true) :
    kind.isBalance = false := by
  cases kind <;> first | rfl | exact absurd h (by decide)

theorem Flaw.isLocal {flaw : Flaw} (h : flaw.InLine) : flaw.kind.isLocal = true := by
  rcases h with h | h <;> simp [ErrorKind.isLocal, h]

/-- The failures of assembly at a line that the balance check takes in. -/
inductive LineFailure (index : Nat) (line : Text) : AssemblyFailure → Prop where
  | inLine {d : Diagnostic} (hkind : d.kind.isLocal = true) : LineFailure index line (.diagnostic d)
  | unbracketed {d : Diagnostic} {rest : Text} (hrest : headerRest? line = some rest)
      (hlast : rest.getLast? ≠ some '[') (hkind : d.kind = .missingLeftBracket) :
      LineFailure index line (.diagnostic d)
  | unreadable (hword : firstWord line.trim = toKeyword) (hread : readDecl? line = none) :
      LineFailure index line (.unreadable index)

section Failures

variable {index : Nat} {line : Text} {failure : AssemblyFailure}

theorem lineFailure_of_refuseRest {c : Cursor} (h : refuseRest line index c = .error failure) :
    LineFailure index line failure := by
  simp only [refuseRest] at h
  split at h
  · exact absurd h (by simp)
  · cases h
    exact .inLine rfl

theorem lineFailure_of_refuseFlaw {flaw? : Option Flaw} (hflaw : ∀ flaw ∈ flaw?, flaw.InLine)
    (h : refuseFlaw line index flaw? = .error failure) : LineFailure index line failure := by
  cases flaw? with
  | none => exact absurd h (by simp [refuseFlaw])
  | some flaw =>
    cases h
    exact .inLine (Flaw.isLocal (hflaw flaw rfl))

theorem lineFailure_of_refuseRepeated {table : FunctionTable} {name : Label}
    (h : refuseRepeated table line index name = .error failure) :
    LineFailure index line failure := by
  cases name with
  | malformed flaw => exact absurd h (by simp [refuseRepeated])
  | named text span =>
    simp only [refuseRepeated] at h
    split at h
    · cases h
      exact .inLine rfl
    · exact absurd h (by simp)

theorem lineFailure_of_refuseUnopened {c : Cursor} {rest : Text}
    (hheader : headerRest? line = some rest) (hrest : rest = Text.trimRight c.rest)
    (h : refuseUnopened line index c = .error failure) : LineFailure index line failure := by
  simp only [refuseUnopened, ← hrest] at h
  split at h
  · exact absurd h (by simp)
  · split at h
    · cases h
      exact .inLine rfl
    · next hlast =>
      cases h
      exact .unbracketed hheader hlast rfl

/-- A line that is not blank is read as a statement of some kind. -/
theorem readStmt?_isSome (index : Nat) (htrim : line.trim ≠ []) :
    (readStmt? line index).isSome = true := by
  simp only [readStmt?]
  split
  · rfl
  · simp only [readCall?, Option.isSome_map]
    cases hname : readFunctionName? (Cursor.start line) with
    | some result => rfl
    | none =>
      exfalso
      apply htrim
      rw [← Text.trim_dropWhile_isSpace]
      cases hline : line.dropWhile isSpace with
      | nil => rfl
      | cons c rest =>
        have hc : isSpace c = false := head_dropWhile_isSpace line c (by simp [hline])
        simp only [readFunctionName?, wordUntil_wordStops, Cursor.start_skipSpaces, hline,
          List.takeWhile_cons, hc] at hname
        simp at hname

theorem lineFailure_of_statement {s : Assembly} (hbody : ∃ body outer, s.scopes = body :: outer)
    (hshape : LineShape.of line = .statement) (hfail : s.statement index line = .error failure) :
    LineFailure index line failure := by
  have htrim : line.trim ≠ [] := by
    cases LineShape.Told.of_eq hshape with
    | statement htrim _ _ _ _ => exact htrim
  obtain ⟨⟨stmt, c⟩, hread⟩ := Option.isSome_iff_exists.1 (readStmt?_isSome index htrim)
  cases hleaf : stmt.isBlock with
  | false =>
    rw [Assembly.statement_of_leaf hread hleaf] at hfail
    rcases Except.bind_eq_error_iff.1 hfail with hrest | ⟨_, _, hfail⟩
    · exact lineFailure_of_refuseRest hrest
    rcases Except.bind_eq_error_iff.1 hfail with hflaw | ⟨_, _, happend⟩
    · exact lineFailure_of_refuseFlaw (fun flaw hmem => inLine_of_readStmt? hread hmem) hflaw
    · obtain ⟨body, outer, hscopes⟩ := hbody
      exact absurd happend (by simp [Assembly.append, hscopes])
  | true =>
    cases stmt with
    | block kind condition body lineIndex =>
      obtain ⟨rfl, rfl⟩ := readStmt?_block hread
      have hheader := (headerRest?_eq_some_iff lineIndex).2 ⟨kind, condition, c, hread, rfl⟩
      simp only [Assembly.statement, hread] at hfail
      rcases Except.bind_eq_error_iff.1 hfail with hrest | ⟨_, _, hfail⟩
      · exact lineFailure_of_refuseUnopened hheader rfl hrest
      rcases Except.bind_eq_error_iff.1 hfail with hflaw | ⟨_, _, hpush⟩
      · exact lineFailure_of_refuseFlaw (fun flaw hmem => inLine_of_readStmt? hread hmem) hflaw
      · exact absurd hpush (by simp [pure, Except.pure])
    | assign | pen | command | call | comment => simp [Stmt.isBlock] at hleaf

theorem lineFailure_of_declare {s : Assembly} (hshape : LineShape.of line = .heading)
    (hfail : s.declare index line = .error failure) : LineFailure index line failure := by
  cases hread : readDecl? line with
  | none =>
    simp only [Assembly.declare, hread, Except.error.injEq] at hfail
    subst hfail
    cases LineShape.Told.of_eq hshape with
    | heading hword => exact .unreadable hword hread
  | some result =>
    obtain ⟨decl, c⟩ := result
    simp only [Assembly.declare, hread] at hfail
    rcases Except.bind_eq_error_iff.1 hfail with hrest | ⟨_, _, hfail⟩
    · exact lineFailure_of_refuseRest hrest
    rcases Except.bind_eq_error_iff.1 hfail with hrepeated | ⟨_, _, hfail⟩
    · exact lineFailure_of_refuseRepeated hrepeated
    rcases Except.bind_eq_error_iff.1 hfail with hflaw | ⟨_, _, hpush⟩
    · exact lineFailure_of_refuseFlaw (fun flaw hmem => inLine_of_readDecl? hread hmem) hflaw
    · exact absurd hpush (by simp [pure, Except.pure])

/-- The bracket of a block that the check sees closes a block in assembly, too. -/
theorem closeBlock_ne_error {a a' : Balance} {s : Assembly} (h : Aligned a s)
    (hshape : LineShape.of line = .close) (ha : Balance.Moves index line a a') :
    s.closeBlock index line ≠ .error failure := by
  have hclass := LineClass.of_close hshape
  obtain ⟨table, pending, scopes, decl, headings⟩ := s
  cases ha with
  | opener h' _ | heading h' | ending h' | other h' => rw [hclass] at h'; exact absurd h' (by simp)
  | closer _ =>
    have hblocks := h.blocks
    have hscopes := h.scopes
    cases pending with
    | nil => simp at hblocks
    | cons header pending =>
      simp only [List.length_cons] at hscopes
      cases scopes with
      | nil =>
        simp only [List.length_nil] at hscopes
        omega
      | cons inner scopes =>
        cases scopes with
        | nil =>
          simp only [List.length_cons, List.length_nil] at hscopes
          omega
        | cons body outer => simp [Assembly.closeBlock, Assembly.append]

/-- The end of a declaration that the check sees ends one in assembly, too. -/
theorem lineFailure_of_endDeclaration {a a' : Balance} {s : Assembly} (h : Aligned a s)
    (hshape : LineShape.of line = .ending) (ha : Balance.Moves index line a a')
    (hfail : s.endDeclaration index line = .error failure) : LineFailure index line failure := by
  have hclass := LineClass.of_ending hshape
  obtain ⟨table, pending, scopes, decl, headings⟩ := s
  cases ha with
  | opener h' _ | closer h' | heading h' | other h' => rw [hclass] at h'; exact absurd h' (by simp)
  | ending _ =>
    cases decl with
    | none => exact absurd h.decl (by simp)
    | some decl =>
      obtain ⟨label, params⟩ := decl
      obtain ⟨name, span, rfl, _, hnew⟩ := h.named _ rfl
      obtain ⟨body, outer, hscopes⟩ := h.exists_body
      cases hscopes
      simp only [Assembly.endDeclaration, FunctionTable.insert?_eq_some_iff.2 ⟨hnew, rfl⟩] at hfail
      split at hfail
      · cases hfail
        exact .inLine rfl
      · exact absurd hfail (by simp)

/-- **Where the balance check takes in a line, assembly can fail only for a problem inside the
    line**, except on a header whose bracket it does not find and on a heading that the grammar
    cannot read. -/
theorem lineFailure_of_step {a a' : Balance} {s : Assembly} (h : Aligned a s)
    (ha : Balance.Moves index line a a') (hfail : s.step index line = .error failure) :
    LineFailure index line failure := by
  cases hshape : LineShape.of line with
  | blank => exact absurd hfail (by simp [Assembly.step, hshape])
  | comment text =>
    obtain ⟨body, outer, hscopes⟩ := h.exists_body
    exact absurd hfail (by simp [Assembly.step, hshape, Assembly.append, hscopes])
  | close =>
    simp only [Assembly.step, hshape] at hfail
    exact absurd hfail (closeBlock_ne_error h hshape ha)
  | heading =>
    simp only [Assembly.step, hshape] at hfail
    exact lineFailure_of_declare hshape hfail
  | ending =>
    simp only [Assembly.step, hshape] at hfail
    exact lineFailure_of_endDeclaration h hshape ha hfail
  | statement =>
    simp only [Assembly.step, hshape] at hfail
    exact lineFailure_of_statement h.exists_body hshape hfail

end Failures

/-! ## How assembly fails on a program that the check accepts -/

/-- Whether assembly takes in all of the lines. -/
def TakenIn (lines : List Text) : Prop := (Assembly.ofLines lines).2 = none

theorem takenIn_iff {lines : List Text} :
    TakenIn lines ↔ ∃ s, Assembly.start.run 0 lines = (s, none) := by
  rw [TakenIn, Assembly.ofLines]
  cases Assembly.start.run 0 lines with
  | mk s failure => simp

/-- The programs in which the two phases do not agree on the header of a block: assembly gets to a
    line that it reads as a header but that has no bracket at its end after the condition, or it
    gets to the end of the program and there is a header that the balance check does not see. -/
def MisreadHeader (lines : List Text) : Prop :=
  (∃ before line after rest, lines = before ++ line :: after ∧ TakenIn before ∧
    headerRest? line = some rest ∧ rest.getLast? ≠ some '[') ∨
  (TakenIn lines ∧ ∃ line ∈ lines, isHiddenHeader line = true)

/-- The failures of assembly on a program that the balance check accepts. -/
inductive BalancedFailure (lines : List Text) : AssemblyFailure → Prop where
  | inLine {d : Diagnostic} (hkind : d.kind.isLocal = true) : BalancedFailure lines (.diagnostic d)
  | misread {d : Diagnostic} (hheader : MisreadHeader lines) (hkind : d.kind.isBalance = true) :
      BalancedFailure lines (.diagnostic d)
  | unreadable {index : Nat} {line : Text} (hline : lines[index]? = some line)
      (hword : firstWord line.trim = toKeyword) (hread : readDecl? line = none) :
      BalancedFailure lines (.unreadable index)

theorem LineFailure.balanced {before after : List Text} {line : Text} {failure : AssemblyFailure}
    (h : LineFailure before.length line failure) (htaken : TakenIn before) :
    BalancedFailure (before ++ line :: after) failure := by
  cases h with
  | inLine hkind => exact .inLine hkind
  | unbracketed hrest hlast hkind =>
    exact .misread (Or.inl ⟨before, line, after, _, rfl, htaken, hrest, hlast⟩) (by rw [hkind]; rfl)
  | unreadable hword hread => exact .unreadable (by simp) hword hread

/-- A failure before the end of the program is that of a line, and all lines before it are taken in. -/
theorem lineFailure_of_run {lines : List Text} {s : Assembly} {failure : AssemblyFailure}
    (hbalance : Balance.start.run 0 lines = .ok Balance.start)
    (hrun : Assembly.start.run 0 lines = (s, some failure)) :
    ∃ before line after, lines = before ++ line :: after ∧ TakenIn before ∧
      LineFailure before.length line failure := by
  obtain ⟨before, line, after, rfl, hbefore, hstep⟩ := Assembly.exists_failing_step hrun
  rw [Balance.run_append] at hbalance
  cases hcheck : Balance.start.run 0 before with
  | error d => simp [hcheck, Except.bind] at hbalance
  | ok a =>
    simp only [hcheck, Except.bind] at hbalance
    obtain ⟨a', hmove, _⟩ := Balance.run_cons_eq_ok_iff.1 hbalance
    rw [Nat.zero_add] at hmove hstep
    -- both phases take in the lines before the failing one, so their states are aligned there
    have haligned := aligned_start.runs hcheck hbefore
    exact ⟨before, line, after, rfl, takenIn_iff.2 ⟨s, hbefore⟩,
      lineFailure_of_step haligned hmove hstep⟩

/-- A failure at the end of the program is a block that is still open, hence a hidden header. -/
theorem balancedFailure_of_finish {lines : List Text} {s : Assembly} {failure : AssemblyFailure}
    (hbalance : Balance.start.run 0 lines = .ok Balance.start)
    (hrun : Assembly.start.run 0 lines = (s, none)) (hfail : s.finish = .error failure) :
    BalancedFailure lines failure := by
  have haligned := aligned_start.runs hbalance hrun
  have hcount := pending_length_of_runs hbalance hrun
  obtain ⟨body, outer, hscopes⟩ := haligned.exists_body
  obtain ⟨table, pending, scopes, decl, headings⟩ := s
  cases hscopes
  cases decl with
  | some decl => exact absurd haligned.decl (by simp [Balance.start])
  | none =>
    cases pending with
    | nil =>
      simp only [Assembly.finish, FunctionTable.insert?_eq_some_iff.2 ⟨haligned.top, rfl⟩] at hfail
      exact absurd hfail (by simp)
    | cons header pending =>
      cases hfail
      -- the check has nothing open, so the header that is still pending was hidden from it
      refine .misread (Or.inr ⟨takenIn_iff.2 ⟨_, hrun⟩, ?_⟩) rfl
      apply List.countP_pos_iff.1
      simp only [List.length_cons, Balance.start, Assembly.start, List.length_nil] at hcount
      omega

theorem balancedFailure_of_assemble {lines : List Text} {failure : AssemblyFailure}
    (hbalance : checkBalance lines = .ok ()) (hfail : assemble lines = .error failure) :
    BalancedFailure lines failure := by
  rw [checkBalance_eq_ok_iff_run] at hbalance
  simp only [assemble, Assembly.ofLines] at hfail
  cases hrun : Assembly.start.run 0 lines with
  | mk s stop =>
    rw [hrun] at hfail
    cases stop with
    | some failure' =>
      cases hfail
      obtain ⟨before, line, after, rfl, htaken, hline⟩ := lineFailure_of_run hbalance hrun
      exact hline.balanced htaken
    | none => exact balancedFailure_of_finish hbalance hrun hfail

/-! ## Misread headers are errors of balance -/

theorem assemble_of_unbracketed {before after : List Text} {line rest : Text}
    (htaken : TakenIn before) (hrest : headerRest? line = some rest)
    (hlast : rest.getLast? ≠ some '[') :
    ∃ d, assemble (before ++ line :: after) = .error (.diagnostic d) ∧ d.kind.isBalance = true := by
  obtain ⟨s, hrun⟩ := takenIn_iff.1 htaken
  obtain ⟨kind, condition, c, hread, rfl⟩ := (headerRest?_eq_some_iff before.length).1 hrest
  have hopen : Text.trimRight c.rest ≠ ['['] := by
    intro heq
    rw [heq] at hlast
    exact hlast rfl
  have hrefuse : refuseUnopened line before.length c =
      .error (.diagnostic (errorAtEnd .missingLeftBracket line (before.length + 1))) := by
    simp only [refuseUnopened, if_neg hopen, if_neg hlast]
  have hstep : s.step before.length line =
      .error (.diagnostic (errorAtEnd .missingLeftBracket line (before.length + 1))) := by
    simp only [Assembly.step, (LineClass.of_block hread rfl).1, Assembly.statement, hread, hrefuse]
    rfl
  have hall : Assembly.start.run 0 (before ++ line :: after) =
      (s, some (.diagnostic (errorAtEnd .missingLeftBracket line (before.length + 1)))) := by
    rw [Assembly.run_append hrun, Nat.zero_add]
    exact Assembly.run_of_step_error hstep
  refine ⟨errorAtEnd .missingLeftBracket line (before.length + 1), ?_, rfl⟩
  simp only [assemble, Assembly.ofLines, hall]

theorem assemble_of_isHiddenHeader {lines : List Text} {line : Text}
    (hbalance : checkBalance lines = .ok ()) (htaken : TakenIn lines) (hmem : line ∈ lines)
    (hhidden : isHiddenHeader line = true) :
    ∃ d, assemble lines = .error (.diagnostic d) ∧ d.kind.isBalance = true := by
  rw [checkBalance_eq_ok_iff_run] at hbalance
  obtain ⟨s, hrun⟩ := takenIn_iff.1 htaken
  have haligned := aligned_start.runs hbalance hrun
  have hcount := pending_length_of_runs hbalance hrun
  have hpos : 0 < lines.countP isHiddenHeader := List.countP_pos_iff.2 ⟨line, hmem, hhidden⟩
  obtain ⟨table, pending, scopes, decl, headings⟩ := s
  cases decl with
  | some decl => exact absurd haligned.decl (by simp [Balance.start])
  | none =>
    cases pending with
    | nil =>
      simp only [Balance.start, Assembly.start, List.length_nil] at hcount
      omega
    | cons header pending =>
      refine ⟨Diagnostic.at .compiling .missingRightBracket [' '] 0 0 1, ?_, rfl⟩
      simp only [assemble, Assembly.ofLines, hrun, Assembly.finish]

/-- **After the balance check, assembly refuses a program for its balance exactly if the phases
    misread a header.** Every other refusal is for a problem inside a line or a repeated name, or
    else the line is announced as a heading by its first word once trimmed, but is none for the
    grammar. -/
theorem balanceError_iff_misreadHeader {lines : List Text}
    (hbalance : checkBalance lines = .ok ()) :
    ((∃ d, assemble lines = .error (.diagnostic d) ∧ d.kind.isBalance = true) ↔
      MisreadHeader lines) ∧
    ∀ failure, assemble lines = .error failure →
      (∃ d, failure = .diagnostic d ∧ (d.kind.isBalance = true ∨ d.kind.isLocal = true)) ∨
      ∃ index line, lines[index]? = some line ∧ failure = .unreadable index ∧
        firstWord line.trim = toKeyword ∧ readDecl? line = none := by
  refine ⟨⟨?_, ?_⟩, ?_⟩
  · rintro ⟨d, hfail, hkind⟩
    cases balancedFailure_of_assemble hbalance hfail with
    | inLine hlocal =>
      rw [ErrorKind.isBalance_of_isLocal hlocal] at hkind
      exact absurd hkind (by simp)
    | misread hheader _ => exact hheader
  · rintro (⟨before, line, after, rest, rfl, htaken, hrest, hlast⟩ | ⟨htaken, line, hmem, hhidden⟩)
    · exact assemble_of_unbracketed htaken hrest hlast
    · exact assemble_of_isHiddenHeader hbalance htaken hmem hhidden
  · intro failure hfail
    cases balancedFailure_of_assemble hbalance hfail with
    | inLine hlocal => exact Or.inl ⟨_, rfl, Or.inr hlocal⟩
    | misread _ hkind => exact Or.inl ⟨_, rfl, Or.inl hkind⟩
    | unreadable hline hword hread => exact Or.inr ⟨_, _, hline, rfl, hword, hread⟩

/-- A bracket that touches the condition is swallowed by it. -/
theorem misreadHeader_touching_bracket :
    checkBalance ["IF :x[".toList, "]".toList] = .ok () ∧
      MisreadHeader ["IF :x[".toList, "]".toList] := by
  have hbalance : checkBalance ["IF :x[".toList, "]".toList] = .ok () := by decide
  exact ⟨hbalance, (balanceError_iff_misreadHeader hbalance).1.1 ⟨_, rfl, rfl⟩⟩

/-- A condition that touches its command word hides the header from the balance check, so that the
    block is still open at the end. -/
theorem balanceError_touching_condition :
    checkBalance ["IF\"TRUE [".toList] = .ok () ∧
      ∃ d, assemble ["IF\"TRUE [".toList] = .error (.diagnostic d) ∧
        d.kind = .missingRightBracket :=
  ⟨by decide, Diagnostic.at .compiling .missingRightBracket [' '] 0 0 1, rfl, rfl⟩

end LogoLang
