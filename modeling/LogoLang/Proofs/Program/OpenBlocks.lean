import LogoLang.Proofs.Program.Layout

set_option autoImplicit false

/-! # What is open in both phases

On an accepted program the two phases have the same open after any number of its lines
(`accepted_program_sameOpen`): blocks of the same lines, in the same order, and a declaration in both
of them or in neither. This is not so line by line, since a hidden header opens a block in assembly
alone. But such a block would still be open at the end, and then the program is not accepted. -/

namespace LogoLang

/-! ## Open blocks -/

/-- The open blocks start on the same lines in both phases, the innermost first. -/
def SameBlocks (a : Balance) (s : Assembly) : Prop :=
  a.blocks.map OpenLine.index = s.pending.map BlockHeader.line

theorem SameBlocks.lockStep {index : Nat} {line : Text} {a a' : Balance} {s s' : Assembly}
    (h : SameBlocks a s) (hstep : LockStep index line a s a' s') : SameBlocks a' s' := by
  cases hstep with
  | blank _ | leaf _ _ _ _ | heading _ _ _ | ending _ _ => exact h
  | opener _ _ _ => exact congrArg (index :: ·) h
  | close _ _ => exact (List.cons.inj h).2

theorem SameBlocks.lockSteps {index : Nat} {lines : List Text} {a a' : Balance} {s s' : Assembly}
    (h : SameBlocks a s) (hsteps : LockSteps index lines a s a' s') : SameBlocks a' s' := by
  induction hsteps with
  | nil => exact h
  | cons hstep _ ih => exact ih (h.lockStep hstep)

theorem sameBlocks_start : SameBlocks Balance.start Assembly.start := rfl

/-! ## All that is open -/

/-- The same is open in both phases, and assembly has a list of statements for the top level and one
    for each block and declaration that is open. -/
structure SameOpen (a : Balance) (s : Assembly) : Prop where
  blocks : SameBlocks a s
  decl : a.decl.isSome = s.decl.isSome
  scopes : s.scopes.length = 1 + s.pending.length + if s.decl.isSome then 1 else 0

theorem Aligned.sameOpen {a : Balance} {s : Assembly} (h : Aligned a s) (hblocks : SameBlocks a s) :
    SameOpen a s := by
  refine ⟨hblocks, h.decl, ?_⟩
  rw [h.scopes]
  cases s.decl with
  | none => simp [Nat.add_comm]
  | some decl => simp [Nat.add_comm]

/-- **The phases are in step on an accepted program**: both take in any first lines of it, and the same
    is open in them after these lines. -/
theorem accepted_program_sameOpen {lines : List Text} {table : FunctionTable}
    (h : parseProgram lines = .ok table) :
    ∀ before, before <+: lines → ∃ a s, Balance.start.run 0 before = .ok a ∧
      Assembly.start.run 0 before = (s, none) ∧ SameOpen a s := by
  rintro before ⟨after, rfl⟩
  obtain ⟨hcheck, hassemble⟩ := parseProgram_eq_ok_iff.1 h
  rw [checkBalance_eq_ok_iff_run] at hcheck
  obtain ⟨last, hrun, hfinish⟩ := assemble_eq_ok_iff.1 hassemble
  obtain ⟨_, _, _, hpending, _⟩ := Assembly.finish_eq_ok_iff.1 hfinish
  -- no line of the whole program is a hidden header, hence none of the first ones
  have hvisible := not_isHiddenHeader_of_accepted hcheck hrun hpending
  obtain ⟨a, ha, _⟩ := Balance.run_append_eq_ok_iff.1 hcheck
  obtain ⟨s, hs⟩ := Assembly.exists_run_of_append hrun
  have hsteps := lockSteps_of_runs (fun line hline => hvisible line (List.mem_append_left _ hline))
    ha hs
  exact ⟨a, s, ha, hs, (aligned_start.runs ha hs).sameOpen (sameBlocks_start.lockSteps hsteps)⟩

/-- After the fourth line of this program a declaration is open, with one block in another. -/
theorem accepted_program_sameOpen_nested :
    ∃ table, parseProgram ["PENUP".toList, "TO f \"n".toList, "WHILE GT :n \"0 [".toList,
        "IF LT :n \"9 [".toList, "ADDASSIGN \"n - \"0 \"1".toList, "]".toList, "]".toList,
        "END".toList] = .ok table ∧
      ∃ a s, Balance.start.run 0 ["PENUP".toList, "TO f \"n".toList, "WHILE GT :n \"0 [".toList,
          "IF LT :n \"9 [".toList] = .ok a ∧ SameOpen a s ∧
        s.pending.map BlockHeader.line = [3, 2] ∧ s.decl.isSome ∧ s.scopes.length = 4 := by
  obtain ⟨table, htable⟩ := Except.exists_of_isOk (m := parseProgram ["PENUP".toList,
    "TO f \"n".toList, "WHILE GT :n \"0 [".toList, "IF LT :n \"9 [".toList,
    "ADDASSIGN \"n - \"0 \"1".toList, "]".toList, "]".toList, "END".toList]) (by decide +kernel)
  obtain ⟨a, s, ha, _, hopen⟩ := accepted_program_sameOpen htable ["PENUP".toList,
    "TO f \"n".toList, "WHILE GT :n \"0 [".toList, "IF LT :n \"9 [".toList] ⟨_, rfl⟩
  have hlines : a.blocks.map OpenLine.index = [3, 2] ∧ a.decl.isSome := by
    cases ha
    exact ⟨rfl, rfl⟩
  have hpending : s.pending.map BlockHeader.line = [3, 2] := hopen.blocks.symm.trans hlines.1
  have hdecl : s.decl.isSome := hopen.decl.symm.trans hlines.2
  refine ⟨table, htable, a, s, ha, hopen, hpending, hdecl, ?_⟩
  rw [hopen.scopes, if_pos hdecl, ← List.length_map BlockHeader.line, hpending]
  rfl

end LogoLang
