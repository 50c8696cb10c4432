import LogoLang.Proofs.Program.BalanceErrors

set_option autoImplicit false

/-! # How parsing can end

Whether a line is the heading of a declaration is told from the line without the blanks at its ends,
while a heading is read from the line as it stands, by a grammar that knows spaces and tabs only. A
heading that is indented with any other blank is announced, but there is none to be read
(`IsHiddenHeading`). Parsing ends with a table or with a diagnostic unless it comes to such a line
(`parseProgram_stuck_iff`). -/

namespace LogoLang

/-! ## Headings that cannot be read -/

/-- The heading of a declaration that the grammar does not see: what follows the spaces and tabs at
    its start is another blank. -/
def IsHiddenHeading (line : Text) : Prop :=
  firstWord line.trim = toKeyword ∧ (line.dropWhile isSpace).head?.any isBlank = true

instance (line : Text) : Decidable (IsHiddenHeading line) :=
  inferInstanceAs (Decidable (_ ∧ _))

theorem readDecl?_eq_none_iff {line : Text} :
    readDecl? line = none ↔
      ∀ rest, line.dropWhile isSpace = toKeyword ++ rest → runsOn toKeyword rest = true := by
  rw [readDecl?, Option.map_eq_none_iff, Cursor.keyword?_eq_none_iff, Cursor.start_rest]

/-- A line that starts as its trimmed form does holds all of it, from its first character on. -/
theorem Text.trim_prefix_of_head {line : Text}
    (h : (line.dropWhile isSpace).head?.any isBlank = false) :
    line.trim <+: line.dropWhile isSpace := by
  rw [← Text.trim_dropWhile_isSpace]
  cases hline : line.dropWhile isSpace with
  | nil => exact List.prefix_refl _
  | cons c rest =>
    rw [hline] at h
    rw [Text.trim_cons h, List.cons_prefix_cons]
    exact ⟨rfl, Text.trimRight_prefix rest⟩

/-- No name goes on after the first word of a line, if this is made of name characters. -/
theorem runsOn_of_firstWord {line word rest : Text} (hword : firstWord line.trim = word)
    (hchars : ∀ c ∈ word, isNameChar c = true)
    (hline : line.dropWhile isSpace = word ++ rest) : runsOn word rest = false := by
  apply runsOn_eq_false
  intro c hc
  by_contra hname
  rw [Bool.not_eq_false] at hname
  obtain ⟨rest', rfl⟩ := List.head?_eq_some_iff.1 hc
  -- otherwise the first word would go on with the character `c`
  have hlonger : line.dropWhile isSpace = (word ++ [c]) ++ rest' := by
    rw [hline, List.append_assoc, List.singleton_append]
  have hall : ∀ x ∈ word ++ [c], isNameChar x = true := by
    rw [List.forall_mem_append, List.forall_mem_singleton]
    exact ⟨hchars, hname⟩
  rw [firstWord_of_word hlonger (by simp) hall] at hword
  have hlength := congrArg List.length hword
  simp only [List.length_append, List.length_singleton] at hlength
  omega

/-- A line that is announced as a heading can be read as one unless it is hidden. -/
theorem readDecl?_eq_none_iff_isHiddenHeading {line : Text}
    (hword : firstWord line.trim = toKeyword) : readDecl? line = none ↔ IsHiddenHeading line := by
  rw [readDecl?_eq_none_iff]
  constructor
  · intro hnone
    refine ⟨hword, ?_⟩
    by_contra hblank
    rw [Bool.not_eq_true] at hblank
    -- the line starts with its trimmed form, and this one with the keyword
    have hkeyword : toKeyword <+: line.dropWhile isSpace := by
      rw [← hword, firstWord_trim]
      exact (List.takeWhile_prefix _).trans (Text.trim_prefix_of_head hblank)
    obtain ⟨rest, hrest⟩ := hkeyword
    have hstop := runsOn_of_firstWord hword toKeyword_nameChars hrest.symm
    rw [hnone rest hrest.symm] at hstop
    exact absurd hstop (by simp)
  · rintro ⟨_, hblank⟩ rest hrest
    rw [hrest] at hblank
    exact absurd hblank (by simp [toKeyword, show isBlank 'T' = false from by decide])

/-! ## Parsing that comes to one -/

/-- Whether parsing comes to a hidden heading, at the line of the given index: the lines are balanced,
    and those before this one are taken in. -/
def ComesToHiddenHeading (lines : List Text) (index : Nat) : Prop :=
  checkBalance lines = .ok () ∧ ∃ before line after, lines = before ++ line :: after ∧
    index = before.length ∧ TakenIn before ∧ IsHiddenHeading line

theorem Assembly.step_of_isHiddenHeading {s : Assembly} {index : Nat} {line : Text}
    (h : IsHiddenHeading line) : s.step index line = .error (.unreadable index) := by
  have hshape := LineShape.of_eq_heading h.1
  have hread := (readDecl?_eq_none_iff_isHiddenHeading h.1).2 h
  simp only [Assembly.step, hshape, Assembly.declare, hread]

theorem assemble_of_isHiddenHeading {before after : List Text} {line : Text}
    (htaken : TakenIn before) (h : IsHiddenHeading line) :
    assemble (before ++ line :: after) = .error (.unreadable before.length) := by
  obtain ⟨s, hrun⟩ := takenIn_iff.1 htaken
  have hall : Assembly.start.run 0 (before ++ line :: after) =
      (s, some (.unreadable before.length)) := by
    rw [Assembly.run_append hrun, Nat.zero_add]
    exact Assembly.run_of_step_error (Assembly.step_of_isHiddenHeading h)
  simp only [assemble, Assembly.ofLines, hall]

/-- The end of a program is not a line that could be a heading. -/
theorem Assembly.finish_ne_unreadable (s : Assembly) (index : Nat) :
    s.finish ≠ .error (.unreadable index) := by
  intro h
  unfold Assembly.finish at h
  split at h
  · exact absurd h (by simp)
  · exact absurd h (by simp)
  · exact absurd h (by simp)
  · split at h <;> exact absurd h (by simp)

/-- On lines that are balanced, assembly fails with a diagnostic or at a hidden heading. -/
theorem assemble_eq_error {lines : List Text} {failure : AssemblyFailure}
    (hbalance : checkBalance lines = .ok ()) (hfail : assemble lines = .error failure) :
    (∃ d, failure = .diagnostic d) ∨
      ∃ index, failure = .unreadable index ∧ ComesToHiddenHeading lines index := by
  have hrunBalance := checkBalance_eq_ok_iff_run.1 hbalance
  cases hrun : Assembly.start.run 0 lines with
  | mk s stop =>
    simp only [assemble, Assembly.ofLines, hrun] at hfail
    cases stop with
    | none =>
      cases balancedFailure_of_finish hrunBalance hrun hfail with
      | inLine | misread => exact Or.inl ⟨_, rfl⟩
      | unreadable => exact absurd hfail (Assembly.finish_ne_unreadable s _)
    | some failure' =>
      cases hfail
      obtain ⟨before, line, after, rfl, htaken, hline⟩ := lineFailure_of_run hrunBalance hrun
      cases hline with
      | inLine | unbracketed => exact Or.inl ⟨_, rfl⟩
      | unreadable hword hread =>
        have hhidden := (readDecl?_eq_none_iff_isHiddenHeading hword).1 hread
        exact Or.inr ⟨_, rfl, hbalance, before, line, after, rfl, rfl, htaken, hhidden⟩

theorem parseProgram_eq_unreadable_iff {lines : List Text} {index : Nat} :
    parseProgram lines = .error (.unreadable index) ↔ ComesToHiddenHeading lines index := by
  rw [parseProgram]
  constructor
  · intro hfail
    cases hbalance : checkBalance lines with
    | error d => simp [hbalance] at hfail
    | ok u =>
      rw [hbalance] at hfail
      rcases assemble_eq_error hbalance hfail with ⟨d, hd⟩ | ⟨index', hindex, hcomes⟩
      · exact absurd hd (by simp)
      · cases hindex
        exact hcomes
  · rintro ⟨hbalance, before, line, after, rfl, rfl, htaken, hhidden⟩
    rw [hbalance]
    exact assemble_of_isHiddenHeading htaken hhidden

/-- **Parsing ends with a table or with a diagnostic, unless it comes to a heading that is indented
    with a blank other than a space or a tab.** There it ends with neither, at just this line. -/
theorem parseProgram_stuck_iff (lines : List Text) :
    (((∃ table, parseProgram lines = .ok table) ∨
        ∃ d, parseProgram lines = .error (.diagnostic d)) ↔
      ∀ index, ¬ ComesToHiddenHeading lines index) ∧
    ∀ index, parseProgram lines = .error (.unreadable index) ↔
      ComesToHiddenHeading lines index := by
  refine ⟨⟨?_, ?_⟩, fun index => parseProgram_eq_unreadable_iff⟩
  · rintro hends index hcomes
    rw [← parseProgram_eq_unreadable_iff] at hcomes
    rcases hends with ⟨table, htable⟩ | ⟨d, hd⟩
    · rw [htable] at hcomes
      exact absurd hcomes (by simp)
    · rw [hd] at hcomes
      exact absurd hcomes (by simp)
  · intro hnever
    cases hparse : parseProgram lines with
    | ok table => exact Or.inl ⟨table, rfl⟩
    | error failure =>
      rw [parseProgram] at hparse
      cases hbalance : checkBalance lines with
      | error d =>
        rw [hbalance] at hparse
        cases hparse
        exact Or.inr ⟨d, rfl⟩
      | ok u =>
        rw [hbalance] at hparse
        rcases assemble_eq_error hbalance hparse with ⟨d, rfl⟩ | ⟨index, _, hcomes⟩
        · exact Or.inr ⟨d, rfl⟩
        · exact absurd hcomes (hnever index)

/-- A declaration whose heading is indented with a no-break space. -/
theorem parseProgram_no_break_space :
    parseProgram ["\u00a0TO f".toList, "END".toList] = .error (.unreadable 0) := rfl

end LogoLang
