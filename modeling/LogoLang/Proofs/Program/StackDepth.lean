import LogoLang.Proofs.Program.HiddenHeading

set_option autoImplicit false

/-! # The stacks of assembly on lines that need not be balanced

On lines that nobody has checked, headings can stand inside each other and declarations can end inside
blocks, so that the two stacks of assembly drift apart. What is kept is an inequality: there is a list of
statements for the top level, one for each header that waits for its body, and one for an open
declaration, and there may be more of them (`Assembly.Supported`). So assembly never closes a body that
is not open, and it never gives a name to a second function (`assembly_never_runs_out`). -/

namespace LogoLang

/-! ## The invariant -/

/-- There are at least as many lists of statements as can be asked for. There is room in the table for
    the declaration that is open and for the top level. -/
structure Assembly.Supported (s : Assembly) : Prop where
  scopes : 1 + s.pending.length + (if s.decl.isSome then 1 else 0) ≤ s.scopes.length
  top : s.table.contains mainName = false
  named : ∀ decl ∈ s.decl, ∃ name span, decl.name = .named name span ∧ name ≠ mainName ∧
    s.table.contains name = false

theorem Assembly.supported_start : Assembly.start.Supported :=
  ⟨Nat.le_refl 1, rfl, by simp [Assembly.start]⟩

theorem Assembly.Supported.exists_body {s : Assembly} (h : s.Supported) :
    ∃ body outer, s.scopes = body :: outer := by
  refine List.exists_cons_of_ne_nil (List.length_pos_iff.1 ?_)
  have hscopes := h.scopes
  omega

/-- Behind the body of a block or of a declaration there is another body. -/
theorem Assembly.Supported.exists_two_bodies {s : Assembly} (h : s.Supported)
    (hopen : s.pending ≠ [] ∨ s.decl.isSome = true) :
    ∃ inner body outer, s.scopes = inner :: body :: outer := by
  obtain ⟨inner, outer, hcons⟩ := h.exists_body
  have hscopes := h.scopes
  rw [hcons, List.length_cons] at hscopes
  have hrest : outer ≠ [] := by
    refine List.length_pos_iff.1 ?_
    rcases hopen with hpending | hdecl
    · have hpos := List.length_pos_iff.2 hpending
      omega
    · rw [if_pos hdecl] at hscopes
      omega
  obtain ⟨body, outer, rfl⟩ := List.exists_cons_of_ne_nil hrest
  exact ⟨inner, body, outer, hcons⟩

/-! ## Steps and runs -/

theorem Assembly.Moves.supported {index : Nat} {line : Text} {s t : Assembly}
    (hmove : Assembly.Moves index line s t) (h : s.Supported) : t.Supported := by
  have hscopes := h.scopes
  cases hmove with
  | blank _ => exact h
  | comment _ => exact ⟨h.scopes, h.top, h.named⟩
  | statement _ _ _ _ _ => exact ⟨h.scopes, h.top, h.named⟩
  | header _ _ _ _ =>
    refine ⟨?_, h.top, h.named⟩
    simp only [List.length_cons] at hscopes ⊢
    omega
  | close _ =>
    refine ⟨?_, h.top, h.named⟩
    simp only [List.length_cons] at hscopes ⊢
    omega
  | heading _ hread _ hnew _ =>
    refine ⟨?_, h.top, ?_⟩
    · -- an open declaration is forgotten, but its list of statements is kept
      simp only [List.length_cons, Option.isSome_some, if_true] at hscopes ⊢
      omega
    · intro decl hdecl
      cases hdecl
      refine ⟨_, _, rfl, ?_, hnew⟩
      rintro rfl
      exact absurd (isValidName_of_readDecl? hread) (by decide)
  | ending _ _ hnew =>
    obtain ⟨name, span, hname, hmain, _⟩ := h.named _ rfl
    cases hname
    refine ⟨?_, ?_, by simp⟩
    · simp only [List.length_cons, Option.isSome_some, Option.isSome_none, if_true,
        Bool.false_eq_true, if_false] at hscopes ⊢
      omega
    · rw [FunctionTable.contains_append, h.top]
      simpa using hmain

theorem Assembly.Supported.run {lines : List Text} {index : Nat} {s : Assembly} (h : s.Supported) :
    (s.run index lines).1.Supported := by
  induction lines generalizing index s with
  | nil => exact h
  | cons line rest ih =>
    rw [Assembly.run]
    split
    · next mid hstep => exact ih ((Assembly.step_eq_ok_iff.1 hstep).supported h)
    · exact h

/-! ## Refusals -/

/-- A line is refused with a diagnostic, or because it is a heading that the grammar does not see. -/
inductive RefusedLine (index : Nat) (line : Text) : AssemblyFailure → Prop where
  | diagnostic (d : Diagnostic) : RefusedLine index line (.diagnostic d)
  | hidden (hhidden : IsHiddenHeading line) : RefusedLine index line (.unreadable index)

section Refusals

variable {index : Nat} {line : Text} {s : Assembly} {failure : AssemblyFailure}

theorem LineFailure.refused (h : LineFailure index line failure) : RefusedLine index line failure := by
  cases h with
  | inLine | unbracketed => exact .diagnostic _
  | unreadable hword hread => exact .hidden ((readDecl?_eq_none_iff_isHiddenHeading hword).1 hread)

theorem Assembly.Supported.refused_of_closeBlock (h : s.Supported)
    (hfail : s.closeBlock index line = .error failure) : RefusedLine index line failure := by
  cases hpending : s.pending with
  | nil =>
    simp only [Assembly.closeBlock, hpending, Except.error.injEq] at hfail
    exact hfail ▸ .diagnostic _
  | cons header pending =>
    obtain ⟨inner, body, outer, hscopes⟩ := h.exists_two_bodies (Or.inl (by simp [hpending]))
    exact absurd hfail (by simp [Assembly.closeBlock, Assembly.append, hpending, hscopes])

theorem Assembly.Supported.refused_of_endDeclaration (h : s.Supported)
    (hfail : s.endDeclaration index line = .error failure) : RefusedLine index line failure := by
  cases hdecl : s.decl with
  | none =>
    simp only [Assembly.endDeclaration, hdecl, Except.error.injEq] at hfail
    exact hfail ▸ .diagnostic _
  | some decl =>
    obtain ⟨name, span, hname, _, hnew⟩ := h.named decl hdecl
    obtain ⟨body, outer, hscopes⟩ := h.exists_body
    simp only [Assembly.endDeclaration, hdecl, hname, hscopes,
      FunctionTable.insert?_eq_some_iff.2 ⟨hnew, rfl⟩] at hfail
    split at hfail
    · cases hfail
      exact .diagnostic _
    · exact absurd hfail (by simp)

/-- **No line makes assembly ask for a body that is not open, or give a name to a second function.** -/
theorem Assembly.Supported.refused_of_step (h : s.Supported)
    (hfail : s.step index line = .error failure) : RefusedLine index line failure := by
  cases hshape : LineShape.of line with
  | blank => exact absurd hfail (by simp [Assembly.step, hshape])
  | comment text =>
    obtain ⟨body, outer, hscopes⟩ := h.exists_body
    exact absurd hfail (by simp [Assembly.step, hshape, Assembly.append, hscopes])
  | close =>
    simp only [Assembly.step, hshape] at hfail
    exact h.refused_of_closeBlock hfail
  | heading =>
    simp only [Assembly.step, hshape] at hfail
    exact (lineFailure_of_declare hshape hfail).refused
  | ending =>
    simp only [Assembly.step, hshape] at hfail
    exact h.refused_of_endDeclaration hfail
  | statement =>
    simp only [Assembly.step, hshape] at hfail
    exact (lineFailure_of_statement h.exists_body hshape hfail).refused

end Refusals

/-! ## Ends -/

/-- A function that is added under a new name is found under it. -/
theorem FunctionTable.get?_append_self {table : FunctionTable} {name : Text} (f : Function)
    (hnew : table.contains name = false) :
    FunctionTable.get? ⟨table.entries ++ [(name, f)]⟩ name = some f := by
  obtain ⟨entries⟩ := table
  simp only [FunctionTable.contains, FunctionTable.get?] at hnew ⊢
  induction entries with
  | nil => simp [Bindings.get?]
  | cons entry rest ih =>
    by_cases hname : entry.1 = name
    · simp [Bindings.get?, hname] at hnew
    · simp only [Bindings.get?, if_neg hname] at hnew
      simp only [List.cons_append, Bindings.get?, if_neg hname]
      exact ih hnew

/-- What is left open at the end is refused with a diagnostic. If nothing is, the outermost body is the
    one that is left, and it becomes the top level. -/
inductive Assembly.Ends (s : Assembly) : Except AssemblyFailure FunctionTable → Prop where
  | refused (d : Diagnostic) (hopen : s.decl ≠ none ∨ s.pending ≠ []) :
      Assembly.Ends s (.error (.diagnostic d))
  | completed {table : FunctionTable} {body : List Stmt} {outer : List (List Stmt)}
      (hdecl : s.decl = none) (hpending : s.pending = []) (hscopes : s.scopes = body :: outer)
      (hmain : table.mainBody? = some body) : Assembly.Ends s (.ok table)

theorem Assembly.Supported.ends {s : Assembly} (h : s.Supported) : s.Ends s.finish := by
  obtain ⟨body, outer, hscopes⟩ := h.exists_body
  cases hdecl : s.decl with
  | some decl =>
    simp only [Assembly.finish, hdecl]
    exact .refused _ (Or.inl (by simp [hdecl]))
  | none =>
    cases hpending : s.pending with
    | cons header pending =>
      simp only [Assembly.finish, hdecl, hpending]
      exact .refused _ (Or.inr (by simp [hpending]))
    | nil =>
      rw [Assembly.finish_eq_ok_iff.2 ⟨body, outer, hdecl, hpending, hscopes, h.top, rfl⟩]
      refine .completed hdecl hpending hscopes ?_
      rw [FunctionTable.mainBody?, FunctionTable.get?_append_self _ h.top, Option.map_some]

/-- Assembly fails with a diagnostic or at a heading that the grammar does not see. -/
theorem assemble_error_cases {lines : List Text} {failure : AssemblyFailure}
    (hfail : assemble lines = .error failure) :
    (∃ d, failure = .diagnostic d) ∨ ∃ before line after, lines = before ++ line :: after ∧
      IsHiddenHeading line ∧ failure = .unreadable before.length := by
  cases hrun : Assembly.ofLines lines with
  | mk s stop =>
    have hsupported : s.Supported := by
      have hrunSupported : (Assembly.ofLines lines).1.Supported := Assembly.supported_start.run
      rwa [hrun] at hrunSupported
    simp only [assemble, hrun] at hfail
    cases stop with
    | none =>
      have hends := hsupported.ends
      simp only at hfail
      rw [hfail] at hends
      cases hends with
      | refused d _ => exact Or.inl ⟨d, rfl⟩
    | some failure' =>
      cases hfail
      obtain ⟨before, line, after, rfl, _, hstep⟩ := Assembly.exists_failing_step hrun
      rw [Nat.zero_add] at hstep
      cases hsupported.refused_of_step hstep with
      | diagnostic d => exact Or.inl ⟨d, rfl⟩
      | hidden hhidden => exact Or.inr ⟨before, line, after, rfl, hhidden, rfl⟩

/-- **Assembly never runs out of bodies**, in whatever order lines that nobody has checked open and
    close things. After any number of lines it has a body for the top level, for each header that waits
    for its own and for an open declaration. So it never asks for a body that is not there, it never
    gives a name to a second function, and if nothing is left open the program ends with a table that
    has a top level. -/
theorem assembly_never_runs_out (lines : List Text) :
    (∀ count, let s := (Assembly.ofLines (lines.take count)).1
      1 + s.pending.length + (if s.decl.isSome then 1 else 0) ≤ s.scopes.length) ∧
    assemble lines ≠ .error .noScope ∧
    (∀ name, assemble lines ≠ .error (.duplicate name)) ∧
    ∀ s, Assembly.ofLines lines = (s, none) → s.decl = none → s.pending = [] →
      ∃ body outer table, s.scopes = body :: outer ∧ assemble lines = .ok table ∧
        table.mainBody? = some body := by
  have hsupported (count : Nat) : (Assembly.ofLines (lines.take count)).1.Supported :=
    Assembly.supported_start.run
  have hfailures (failure : AssemblyFailure) (hfail : assemble lines = .error failure) :
      failure ≠ .noScope ∧ ∀ name, failure ≠ .duplicate name := by
    rcases assemble_error_cases hfail with ⟨d, rfl⟩ | ⟨_, _, _, _, _, rfl⟩
    · simp
    · simp
  refine ⟨fun count => (hsupported count).scopes, ?_, ?_, ?_⟩
  · exact fun hfail => (hfailures _ hfail).1 rfl
  · exact fun name hfail => (hfailures _ hfail).2 name rfl
  · intro s hrun hdecl hpending
    have hends : s.Ends s.finish := by
      refine Assembly.Supported.ends ?_
      have hall := hsupported lines.length
      rwa [List.take_length, hrun] at hall
    cases hfinish : s.finish with
    | error failure =>
      rw [hfinish] at hends
      cases hends with
      | refused d hopen => exact absurd hopen (by simp [hdecl, hpending])
    | ok table =>
      rw [hfinish] at hends
      cases hends with
      | completed _ _ hscopes hmain =>
        exact ⟨_, _, table, hscopes, assemble_eq_ok_iff.2 ⟨s, hrun, hfinish⟩, hmain⟩

/-- The `END` of this program closes the body of the block and the `]` that of the declaration, so that
    the top level is made of what stands in the outer declaration. -/
example : ((Assembly.ofLines ["TO f".toList, "PENUP".toList, "TO g".toList, "IF \"TRUE [".toList,
    "PENDOWN".toList, "END".toList, "]".toList]).1.scopes.map (·.map Stmt.line),
    (assemble ["TO f".toList, "PENUP".toList, "TO g".toList, "IF \"TRUE [".toList,
      "PENDOWN".toList, "END".toList, "]".toList]).toOption.map FunctionTable.names) =
    ([[1, 3], []], some ["g".toList, []]) := by
  decide +kernel

end LogoLang
