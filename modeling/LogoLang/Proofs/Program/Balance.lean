import LogoLang.Program.Balance

set_option autoImplicit false

/-! # Steps and runs of the balance check

`Balance.Moves` lists what a line can do to the state of the check, guards included, and
`Balance.step_eq_ok_iff` says that this is all that a step does. Runs are then taken apart at any
line (`Balance.run_append`), in particular at the line at which they fail
(`Balance.exists_failing_step`). -/

namespace LogoLang

/-! ## Steps -/

/-- The moves of the balance check on a line. -/
inductive Balance.Moves (index : Nat) (line : Text) : Balance → Balance → Prop where
  | opener {blocks : List OpenLine} {decl : Option OpenLine}
      (hclass : LineClass.of line = .opener) (hbracket : endsWithBracket line = true) :
      Balance.Moves index line ⟨blocks, decl⟩ ⟨⟨index, line⟩ :: blocks, decl⟩
  | closer {opened : OpenLine} {blocks : List OpenLine} {decl : Option OpenLine}
      (hclass : LineClass.of line = .closer) :
      Balance.Moves index line ⟨opened :: blocks, decl⟩ ⟨blocks, decl⟩
  | heading (hclass : LineClass.of line = .heading) :
      Balance.Moves index line ⟨[], none⟩ ⟨[], some ⟨index, line⟩⟩
  | ending {opened : OpenLine} (hclass : LineClass.of line = .ending) :
      Balance.Moves index line ⟨[], some opened⟩ ⟨[], none⟩
  | other {s : Balance} (hclass : LineClass.of line = .other) : Balance.Moves index line s s

theorem Balance.step_eq_ok_iff {s t : Balance} {index : Nat} {line : Text} :
    s.step index line = .ok t ↔ Balance.Moves index line s t := by
  obtain ⟨blocks, decl⟩ := s
  constructor
  · intro h
    cases hclass : LineClass.of line with
    | opener =>
      simp only [Balance.step, hclass] at h
      split at h
      · next hbracket =>
        cases h
        exact .opener hclass hbracket
      · exact absurd h (by simp)
    | closer =>
      cases blocks with
      | nil => simp [Balance.step, hclass] at h
      | cons opened outer =>
        simp only [Balance.step, hclass, Except.ok.injEq] at h
        subst h
        exact .closer hclass
    | heading =>
      cases decl <;> cases blocks <;> simp only [Balance.step, hclass, reduceCtorEq] at h
      cases h
      exact .heading hclass
    | ending =>
      cases decl <;> cases blocks <;> simp only [Balance.step, hclass, reduceCtorEq] at h
      cases h
      exact .ending hclass
    | other =>
      simp only [Balance.step, hclass, Except.ok.injEq] at h
      subst h
      exact .other hclass
  · intro h
    cases h with
    | opener hclass hbracket => simp [Balance.step, hclass, hbracket]
    | closer hclass => simp [Balance.step, hclass]
    | heading hclass => simp [Balance.step, hclass]
    | ending hclass => simp [Balance.step, hclass]
    | other hclass => simp [Balance.step, hclass]

/-- Whatever is wrong with a line is reported at that line. -/
theorem Balance.step_error_line {s : Balance} {index : Nat} {line : Text} {d : Diagnostic}
    (h : s.step index line = .error d) : d.line = index + 1 := by
  simp only [Balance.step] at h
  split at h
  · split at h
    · exact absurd h (by simp)
    · cases h; rfl
  · split at h
    · cases h; rfl
    · exact absurd h (by simp)
  · split at h
    · cases h; rfl
    · cases h; rfl
    · exact absurd h (by simp)
  · split at h
    · cases h; rfl
    · cases h; rfl
    · cases h; rfl
    · exact absurd h (by simp)
  · exact absurd h (by simp)

theorem Balance.finish_eq_ok_iff {s : Balance} : s.finish = .ok () ↔ s = Balance.start := by
  obtain ⟨blocks, decl⟩ := s
  cases decl <;> cases blocks <;> simp [Balance.finish, Balance.start]

/-- What is open at the end is reported at no line. -/
theorem Balance.finish_error_line {s : Balance} {d : Diagnostic} (h : s.finish = .error d) :
    d.line = 0 := by
  obtain ⟨blocks, decl⟩ := s
  cases decl <;> cases blocks <;> cases h <;> rfl

/-! ## Runs -/

theorem Balance.run_cons (s : Balance) (index : Nat) (line : Text) (rest : List Text) :
    s.run index (line :: rest) = (s.step index line).bind fun t => t.run (index + 1) rest := rfl

theorem Balance.run_cons_eq_ok_iff {s t : Balance} {index : Nat} {line : Text} {rest : List Text} :
    s.run index (line :: rest) = .ok t ↔
      ∃ mid, Balance.Moves index line s mid ∧ mid.run (index + 1) rest = .ok t := by
  simp only [Balance.run_cons, ← Balance.step_eq_ok_iff]
  cases s.step index line with
  | ok mid => simp [Except.bind]
  | error d => simp [Except.bind]

theorem Balance.run_append (s : Balance) (index : Nat) (before after : List Text) :
    s.run index (before ++ after) =
      (s.run index before).bind fun t => t.run (index + before.length) after := by
  induction before generalizing s index with
  | nil => rfl
  | cons line rest ih =>
    rw [List.cons_append, Balance.run_cons, Balance.run_cons]
    cases s.step index line with
    | error d => rfl
    | ok t =>
      simp only [Except.bind]
      rw [ih, List.length_cons, Nat.add_right_comm, Nat.add_assoc]
      rfl

theorem Balance.run_append_eq_ok_iff {s t : Balance} {index : Nat} {before after : List Text} :
    s.run index (before ++ after) = .ok t ↔
      ∃ mid, s.run index before = .ok mid ∧ mid.run (index + before.length) after = .ok t := by
  rw [Balance.run_append]
  cases s.run index before with
  | ok mid => simp [Except.bind]
  | error d => simp [Except.bind]

/-- A run over a delimited part of a program and over what follows it. -/
theorem Balance.run_delimited {s mid t u : Balance} {index : Nat} {first last : Text}
    {body rest : List Text} (hfirst : Balance.Moves index first s mid)
    (hbody : mid.run (index + 1) body = .ok mid)
    (hlast : Balance.Moves (index + 1 + body.length) last mid t)
    (hrest : t.run (index + 1 + body.length + 1) rest = .ok u) :
    s.run index (first :: (body ++ last :: rest)) = .ok u := by
  refine Balance.run_cons_eq_ok_iff.2 ⟨mid, hfirst, ?_⟩
  rw [Balance.run_append, hbody]
  exact Balance.run_cons_eq_ok_iff.2 ⟨t, hlast, hrest⟩

/-- A run that fails goes well up to some line and fails there. -/
theorem Balance.exists_failing_step {s : Balance} {index : Nat} {lines : List Text} {d : Diagnostic}
    (h : s.run index lines = .error d) :
    ∃ before line after t, lines = before ++ line :: after ∧ s.run index before = .ok t ∧
      t.step (index + before.length) line = .error d := by
  induction lines generalizing s index with
  | nil => simp [Balance.run] at h
  | cons line rest ih =>
    rw [Balance.run_cons] at h
    cases hstep : s.step index line with
    | error d' =>
      rw [hstep] at h
      cases h
      exact ⟨[], line, rest, s, rfl, rfl, hstep⟩
    | ok mid =>
      rw [hstep] at h
      obtain ⟨before, line', after, t, rfl, hrun, hfail⟩ := ih h
      refine ⟨line :: before, line', after, t, rfl, ?_, ?_⟩
      · rw [Balance.run_cons, hstep]
        exact hrun
      · rw [List.length_cons, ← Nat.add_assoc, Nat.add_right_comm]
        exact hfail

theorem checkBalance_eq_ok_iff_run {lines : List Text} :
    checkBalance lines = .ok () ↔ Balance.start.run 0 lines = .ok Balance.start := by
  have hdef : checkBalance lines = (Balance.start.run 0 lines).bind Balance.finish := rfl
  rw [hdef]
  cases Balance.start.run 0 lines with
  | error d => simp [Except.bind]
  | ok t => simp [Except.bind, Balance.finish_eq_ok_iff]

end LogoLang
