import LogoLang.Proofs.Program.Derivation

set_option autoImplicit false

/-! # Failures at other line numbers

Neither phase looks at the number of a line: lines with other numbers are taken in or refused in the
same way, and a refusal names the other number (`Balance.agree_through`, `Assembly.Alike.through`).
Assembly does not look at the statements that it has collected either, so that it is enough for two
states to be alike in what is open and in the names that are taken. -/

namespace LogoLang

variable {σ : Nat → Nat}

/-! ## Renumbered failures -/

/-- A line number that is counted from one. Zero stands for the end of the input and stays. -/
def renumberFromOne (σ : Nat → Nat) (line : Int) : Int :=
  if 0 < line then σ (line - 1).toNat + 1 else line

/-- A diagnostic with the number of its line changed. -/
def Diagnostic.renumber (σ : Nat → Nat) (d : Diagnostic) : Diagnostic :=
  { d with line := renumberFromOne σ d.line }

/-- A failure of assembly with the number of its line changed. -/
def AssemblyFailure.renumber (σ : Nat → Nat) : AssemblyFailure → AssemblyFailure
  | .diagnostic d => .diagnostic (d.renumber σ)
  | .unreadable index => .unreadable (σ index)
  | .noScope => .noScope
  | .duplicate name => .duplicate name

@[simp]
theorem Diagnostic.renumber_at (σ : Nat → Nat) (stage : Stage) (kind : ErrorKind) (source : Text)
    (index : Nat) (start length : Int) :
    (Diagnostic.at stage kind source (index + 1) start length).renumber σ =
      Diagnostic.at stage kind source (σ index + 1) start length := by
  have hpos : (0 : Int) < index + 1 := by omega
  simp [Diagnostic.renumber, Diagnostic.at, renumberFromOne, hpos]

@[simp]
theorem Diagnostic.renumber_at_zero (σ : Nat → Nat) (stage : Stage) (kind : ErrorKind)
    (source : Text) (start length : Int) :
    (Diagnostic.at stage kind source 0 start length).renumber σ =
      Diagnostic.at stage kind source 0 start length := by
  simp [Diagnostic.renumber, Diagnostic.at, renumberFromOne]

theorem renumber_lineError (σ : Nat → Nat) (kind : ErrorKind) (line : Text) (index : Nat)
    (span : Span) :
    (lineError kind line index span).renumber σ = lineError kind line (σ index) span := by
  rw [lineError, AssemblyFailure.renumber, Diagnostic.renumber_at]
  rfl

/-! ## The balance check -/

/-- What is open, with the numbers of the lines changed. -/
def OpenLine.renumber (σ : Nat → Nat) (opened : OpenLine) : OpenLine := ⟨σ opened.index, opened.text⟩

/-- A state of the balance check with the numbers of the lines changed. -/
def Balance.renumber (σ : Nat → Nat) (s : Balance) : Balance :=
  ⟨s.blocks.map (OpenLine.renumber σ), s.decl.map (OpenLine.renumber σ)⟩

/-- The two states, or the two diagnostics, differ in line numbers only. -/
abbrev Balance.Agrees (σ : Nat → Nat) : Except Diagnostic Balance → Except Diagnostic Balance → Prop :=
  Agree (fun s s' => s' = s.renumber σ) (fun d d' => d' = d.renumber σ)

theorem Balance.agree_step (σ : Nat → Nat) (s : Balance) (index : Nat) (line : Text) :
    Balance.Agrees σ (s.step index line) ((s.renumber σ).step (σ index) line) := by
  obtain ⟨blocks, decl⟩ := s
  simp only [Balance.step, Balance.renumber]
  cases LineClass.of line with
  | opener =>
    by_cases hbracket : endsWithBracket line = true
    · rw [if_pos hbracket, if_pos hbracket]
      exact .ok rfl
    · rw [if_neg hbracket, if_neg hbracket]
      exact .error (Diagnostic.renumber_at ..).symm
  | closer =>
    cases blocks with
    | nil => exact .error (Diagnostic.renumber_at ..).symm
    | cons opened outer => exact .ok rfl
  | heading =>
    cases decl with
    | some opened => exact .error (Diagnostic.renumber_at ..).symm
    | none =>
      cases blocks with
      | nil => exact .ok rfl
      | cons opened outer => exact .error (Diagnostic.renumber_at ..).symm
  | ending =>
    cases decl with
    | some opened =>
      cases blocks with
      | nil => exact .ok rfl
      | cons opened outer => exact .error (Diagnostic.renumber_at ..).symm
    | none =>
      cases blocks with
      | nil => exact .error (Diagnostic.renumber_at ..).symm
      | cons opened outer => exact .error (Diagnostic.renumber_at ..).symm
  | other => exact .ok rfl

theorem Balance.agree_through (σ : Nat → Nat) (s : Balance) (lines : NumberedLines) :
    Balance.Agrees σ (s.through lines) ((s.renumber σ).through (renumberLines σ lines)) := by
  induction lines generalizing s with
  | nil => exact .ok rfl
  | cons line rest ih =>
    refine (Balance.agree_step σ s line.2 line.1).bind ?_
    rintro t _ rfl
    exact ih t

theorem Balance.agree_finish (σ : Nat → Nat) (s : Balance) :
    Agree Eq (fun d d' => d' = d.renumber σ) s.finish (s.renumber σ).finish := by
  obtain ⟨blocks, decl⟩ := s
  cases decl with
  | some opened => exact .error (Diagnostic.renumber_at_zero ..).symm
  | none =>
    cases blocks with
    | nil => exact .ok rfl
    | cons opened outer => exact .error (Diagnostic.renumber_at_zero ..).symm

/-! ## Assembly -/

/-- Two states that no line tells apart: the same names are taken, the same declaration is open, and as
    many blocks and bodies are. -/
structure Assembly.Alike (s s' : Assembly) : Prop where
  names : ∀ name, s'.table.contains name = s.table.contains name
  pending : s'.pending.length = s.pending.length
  scopes : s'.scopes.length = s.scopes.length
  decl : s'.decl = s.decl

theorem Assembly.Alike.refl (s : Assembly) : s.Alike s := ⟨fun _ => rfl, rfl, rfl, rfl⟩

/-- The two states are alike, or the two failures differ in line numbers only. -/
abbrev Assembly.Agrees (σ : Nat → Nat) :
    Except AssemblyFailure Assembly → Except AssemblyFailure Assembly → Prop :=
  Agree Assembly.Alike (fun failure failure' => failure' = failure.renumber σ)

/-- Two checks of a line, or two failures that differ in line numbers only. -/
abbrev ChecksAgree (σ : Nat → Nat) : Except AssemblyFailure Unit → Except AssemblyFailure Unit → Prop :=
  Agree Eq (fun failure failure' => failure' = failure.renumber σ)

theorem agree_refuseRest (σ : Nat → Nat) (line : Text) (index : Nat) (c : Cursor) :
    ChecksAgree σ (refuseRest line index c) (refuseRest line (σ index) c) := by
  simp only [refuseRest]
  by_cases h : (Text.trimRight c.rest).isEmpty = true
  · rw [if_pos h, if_pos h]
    exact .ok rfl
  · rw [if_neg h, if_neg h]
    exact .error (renumber_lineError ..).symm

theorem agree_refuseUnopened (σ : Nat → Nat) (line : Text) (index : Nat) (c : Cursor) :
    ChecksAgree σ (refuseUnopened line index c) (refuseUnopened line (σ index) c) := by
  simp only [refuseUnopened]
  by_cases h : Text.trimRight c.rest = ['[']
  · rw [if_pos h, if_pos h]
    exact .ok rfl
  · rw [if_neg h, if_neg h]
    by_cases hlast : (Text.trimRight c.rest).getLast? = some '['
    · rw [if_pos hlast, if_pos hlast]
      exact .error (renumber_lineError ..).symm
    · rw [if_neg hlast, if_neg hlast]
      exact .error (congrArg AssemblyFailure.diagnostic (Diagnostic.renumber_at ..).symm)

theorem agree_refuseFlaw (σ : Nat → Nat) (line : Text) (index : Nat) (flaw : Option Flaw) :
    ChecksAgree σ (refuseFlaw line index flaw) (refuseFlaw line (σ index) flaw) := by
  cases flaw with
  | none => exact .ok rfl
  | some flaw => exact .error (renumber_lineError ..).symm

theorem agree_refuseRepeated (σ : Nat → Nat) {table table' : FunctionTable} {name : Label}
    (h : ∀ name, table'.contains name = table.contains name) (line : Text) (index : Nat) :
    ChecksAgree σ (refuseRepeated table line index name)
      (refuseRepeated table' line (σ index) name) := by
  cases name with
  | malformed flaw => exact .ok rfl
  | named text span =>
    simp only [refuseRepeated, h]
    by_cases hold : table.contains text = true
    · rw [if_pos hold, if_pos hold]
      exact .error (renumber_lineError ..).symm
    · rw [if_neg hold, if_neg hold]
      exact .ok rfl

section Alike

variable {s s' : Assembly}

/-- In states that are alike there is either no body in both or one in both. -/
theorem Assembly.Alike.scopes_cases (h : s.Alike s') :
    (s.scopes = [] ∧ s'.scopes = []) ∨ ∃ body outer body' outer', s.scopes = body :: outer ∧
      s'.scopes = body' :: outer' ∧ outer'.length = outer.length := by
  have hlength := h.scopes
  cases hscopes : s.scopes with
  | nil =>
    rw [hscopes] at hlength
    exact Or.inl ⟨rfl, List.length_eq_zero_iff.1 hlength⟩
  | cons body outer =>
    rw [hscopes] at hlength
    obtain ⟨body', outer', hscopes'⟩ := List.exists_of_length_succ _ hlength
    rw [hscopes'] at hlength
    exact Or.inr ⟨body, outer, body', outer', rfl, hscopes', Nat.succ.inj hlength⟩

theorem Assembly.Alike.append (h : s.Alike s') (stmt stmt' : Stmt) :
    Assembly.Agrees σ (s.append stmt) (s'.append stmt') := by
  simp only [Assembly.append]
  obtain ⟨hnone, hnone'⟩ | ⟨body, outer, body', outer', hscopes, hscopes', hlength⟩ := h.scopes_cases
  · rw [hnone, hnone']
    exact .error rfl
  · rw [hscopes, hscopes']
    exact .ok ⟨h.names, h.pending, by simp [hlength], h.decl⟩

theorem Assembly.Alike.closeBlock (h : s.Alike s') (index : Nat) (line : Text) :
    Assembly.Agrees σ (s.closeBlock index line) (s'.closeBlock (σ index) line) := by
  have hpending := h.pending
  simp only [Assembly.closeBlock]
  cases hheader : s.pending with
  | nil =>
    rw [hheader] at hpending
    rw [List.length_eq_zero_iff.1 hpending]
    exact .error (renumber_lineError ..).symm
  | cons header pending =>
    rw [hheader] at hpending
    obtain ⟨header', pending', hheader'⟩ := List.exists_of_length_succ _ hpending
    rw [hheader', List.length_cons, List.length_cons] at hpending
    rw [hheader']
    obtain ⟨hnone, hnone'⟩ | ⟨body, outer, body', outer', hscopes, hscopes', hlength⟩ :=
      h.scopes_cases
    · rw [hnone, hnone']
      exact .error rfl
    · rw [hscopes, hscopes']
      have hinner : Assembly.Alike { s with pending, scopes := outer }
          { s' with pending := pending', scopes := outer' } :=
        ⟨h.names, Nat.succ.inj hpending, hlength, h.decl⟩
      exact hinner.append _ _

theorem Assembly.Alike.declare (h : s.Alike s') (index : Nat) (line : Text) :
    Assembly.Agrees σ (s.declare index line) (s'.declare (σ index) line) := by
  simp only [Assembly.declare]
  cases readDecl? line with
  | none => exact .error rfl
  | some result =>
    obtain ⟨decl, c⟩ := result
    refine (agree_refuseRest σ line index c).bind fun _ _ _ => ?_
    refine (agree_refuseRepeated σ h.names line index).bind fun _ _ _ => ?_
    refine (agree_refuseFlaw σ line index decl.firstFlaw?).bind fun _ _ _ => ?_
    exact .ok ⟨h.names, h.pending, by simp [h.scopes], rfl⟩

/-- A name that is inserted is taken in both tables, or refused by both. -/
theorem insert?_alike {table table' : FunctionTable}
    (h : ∀ name, table'.contains name = table.contains name) (name : Text) (f f' : Function) :
    (table.insert? name f = none ∧ table'.insert? name f' = none) ∨
      ∃ new new', table.insert? name f = some new ∧ table'.insert? name f' = some new' ∧
        ∀ name, new'.contains name = new.contains name := by
  simp only [FunctionTable.insert?, h]
  by_cases hold : table.contains name = true
  · rw [if_pos hold, if_pos hold]
    exact Or.inl ⟨rfl, rfl⟩
  · rw [if_neg hold, if_neg hold]
    refine Or.inr ⟨_, _, rfl, rfl, fun other => ?_⟩
    rw [FunctionTable.contains_append, FunctionTable.contains_append, h]

theorem Assembly.Alike.endDeclaration (h : s.Alike s') (index : Nat) (line : Text) :
    Assembly.Agrees σ (s.endDeclaration index line) (s'.endDeclaration (σ index) line) := by
  simp only [Assembly.endDeclaration, h.decl]
  cases s.decl with
  | none => exact .error (renumber_lineError ..).symm
  | some decl =>
    cases hafter : afterEnd? line with
    | some span => exact .error (renumber_lineError ..).symm
    | none =>
      obtain ⟨label, params⟩ := decl
      cases label with
      | malformed flaw => exact .error rfl
      | named name span =>
        obtain ⟨hnone, hnone'⟩ | ⟨body, outer, body', outer', hscopes, hscopes', hlength⟩ :=
          h.scopes_cases
        · rw [hnone, hnone']
          exact .error rfl
        · rw [hscopes, hscopes']
          obtain ⟨hold, hold'⟩ | ⟨new, new', hnew, hnew', hnames⟩ :=
            insert?_alike h.names name ⟨params, body⟩ ⟨params, body'⟩
          · simp only [hold, hold']
            exact .error rfl
          · simp only [hnew, hnew']
            exact .ok ⟨hnames, h.pending, hlength, rfl⟩

theorem Assembly.Alike.statement (h : s.Alike s') (index : Nat) (line : Text) :
    Assembly.Agrees σ (s.statement index line) (s'.statement (σ index) line) := by
  cases hread : readStmt? line index with
  | none =>
    have hread' : readStmt? line (σ index) = none := by rw [readStmt?_renumber, hread]; rfl
    simp only [Assembly.statement, hread, hread']
    exact .error rfl
  | some result =>
    obtain ⟨stmt, c⟩ := result
    have hread' : readStmt? line (σ index) = some (stmt.renumber σ, c) :=
      readStmt?_eq_some_renumber hread
    by_cases hblock : stmt.isBlock = true
    · cases stmt with
      | block kind condition body line =>
        simp only [Assembly.statement, hread, hread', Stmt.renumber]
        refine (agree_refuseUnopened σ _ index c).bind fun _ _ _ => ?_
        refine (agree_refuseFlaw σ _ index condition.firstFlaw?).bind fun _ _ _ => ?_
        exact .ok ⟨h.names, by simp [h.pending], by simp [h.scopes], h.decl⟩
      | assign | pen | command | call | comment => exact absurd hblock (by simp [Stmt.isBlock])
    · rw [Bool.not_eq_true] at hblock
      rw [Assembly.statement_of_leaf hread hblock,
        Assembly.statement_of_leaf hread' (by simpa using hblock), Stmt.firstFlaw?_renumber]
      refine (agree_refuseRest σ line index c).bind fun _ _ _ => ?_
      refine (agree_refuseFlaw σ line index stmt.firstFlaw?).bind fun _ _ _ => ?_
      exact h.append _ _

theorem Assembly.Alike.step (h : s.Alike s') (index : Nat) (line : Text) :
    Assembly.Agrees σ (s.step index line) (s'.step (σ index) line) := by
  simp only [Assembly.step]
  cases LineShape.of line with
  | blank => exact .ok h
  | comment text => exact h.append _ _
  | close => exact h.closeBlock index line
  | heading => exact h.declare index line
  | ending => exact h.endDeclaration index line
  | statement => exact h.statement index line

theorem Assembly.Alike.through (h : s.Alike s') (σ : Nat → Nat) (lines : NumberedLines) :
    Assembly.Agrees σ (s.through lines) (s'.through (renumberLines σ lines)) := by
  induction lines generalizing s s' with
  | nil => exact .ok h
  | cons line rest ih => exact (h.step line.2 line.1).bind fun _ _ h => ih h

theorem Assembly.Alike.finish (h : s.Alike s') :
    Agree (fun _ _ => True) (fun failure failure' => failure' = failure.renumber σ) s.finish
      s'.finish := by
  have hpending := h.pending
  simp only [Assembly.finish, h.decl]
  cases s.decl with
  | some decl => exact .error (congrArg AssemblyFailure.diagnostic (Diagnostic.renumber_at_zero ..).symm)
  | none =>
    cases hheader : s.pending with
    | cons header pending =>
      rw [hheader] at hpending
      obtain ⟨header', pending', hheader'⟩ := List.exists_of_length_succ _ hpending
      rw [hheader']
      exact .error (congrArg AssemblyFailure.diagnostic (Diagnostic.renumber_at_zero ..).symm)
    | nil =>
      rw [hheader] at hpending
      rw [List.length_eq_zero_iff.1 hpending]
      obtain ⟨hnone, hnone'⟩ | ⟨body, outer, body', outer', hscopes, hscopes', hlength⟩ :=
        h.scopes_cases
      · rw [hnone, hnone']
        exact .error rfl
      · rw [hscopes, hscopes']
        obtain ⟨hold, hold'⟩ | ⟨new, new', hnew, hnew', _⟩ :=
          insert?_alike h.names mainName ⟨[], body⟩ ⟨[], body'⟩
        · simp only [hold, hold']
          exact .error rfl
        · simp only [hnew, hnew']
          exact .ok trivial

end Alike

end LogoLang
