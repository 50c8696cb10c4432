import LogoLang.Proofs.Program.Rearrangement
import LogoLang.Proofs.Session.Emission

set_option autoImplicit false

/-! # Programs with their declarations in other places

Where a declaration stands is no part of what a program does: with whole declarations moved to other
places of the top level, a program has the same functions, the same runs in either call mode, and the
same code but for the order of the functions (`declarations_stand_anywhere`). -/

namespace LogoLang

/-! ## Modules of the same functions -/

/-- Neither program can be emitted, or both can, and the modules have the same functions in some order
    and are the same in all other parts. -/
inductive SameDefinitions (s s' : Session) : Prop where
  | failed {failure failure' : Failure} (h : s.emit.result = .error failure)
      (h' : s'.emit.result = .error failure')
  | emitted {codes codes' : List Text} (hcodes : s.table.emit.result = .ok codes)
      (hcodes' : s'.table.emit.result = .ok codes') (hperm : codes.Perm codes')
      (h : s.emit.result =
        .ok (moduleText codes s.emit.methods s.options.canvas.1 s.options.canvas.2))
      (h' : s'.emit.result =
        .ok (moduleText codes' s.emit.methods s.options.canvas.1 s.options.canvas.2))

/-! ## Tables in another order -/

section Tables

variable {σ : Nat → Nat} {table table' : FunctionTable}

/-- Renumbered functions in another order have grown, by no comment at all. -/
theorem FunctionTable.grows_of_perm (hdistinct : table.names.Nodup)
    (hperm : (table.renumber σ).entries.Perm table'.entries) : table.Grows σ table' where
  entries := ⟨[], _, entriesGrow_renumber σ table.entries, hperm⟩
  distinct := hdistinct

/-- The functions of a table are emitted in their new order. -/
theorem emit_of_perm (hdistinct : table.names.Nodup)
    (hperm : (table.renumber σ).entries.Perm table'.entries) {codes : List Text}
    (h : table.emit.result = .ok codes) :
    ∃ codes', table'.emit.result = .ok codes' ∧ codes.Perm codes' ∧
      usedMethods table'.emit.trace = usedMethods table.emit.trace := by
  have harity := (FunctionTable.grows_of_perm hdistinct hperm).arity?
  obtain ⟨codes₁, hcodes₁, hsame, hmethods₁⟩ :=
    (entriesGrow_renumber σ table.entries).emit_ok harity h
  obtain rfl := hsame.eq_of_nil
  obtain ⟨codes', hcodes', hcodes, hmethods⟩ := emitFunctions_perm hperm hcodes₁
  exact ⟨codes', hcodes', hcodes, hmethods.trans hmethods₁⟩

/-- A table that cannot be emitted cannot be emitted in another order. -/
theorem emit_error_of_perm (hdistinct : table.names.Nodup)
    (hperm : (table.renumber σ).entries.Perm table'.entries) {failure : EmitFailure}
    (h : table.emit.result = .error failure) : ∃ failure', table'.emit.result = .error failure' := by
  cases hresult : table'.emit.result with
  | error failure' => exact ⟨failure', rfl⟩
  | ok codes' =>
    obtain ⟨codes, hcodes, _⟩ := emitFunctions_perm hperm.symm hresult
    have hagree := (entriesGrow_renumber σ table.entries).emit
      (FunctionTable.grows_of_perm hdistinct hperm).arity?
    have hfail : (emitFunctions table table.entries).result = .error failure := h
    have hrenumbered : (emitFunctions table' (table.entries.map (renumberEntry σ))).result =
      .ok codes := hcodes
    rw [hfail, hrenumbered] at hagree
    cases hagree

theorem sameDefinitions_of_perm (hdistinct : table.names.Nodup)
    (hperm : (table.renumber σ).entries.Perm table'.entries) (options : Options) (name : Setting)
    (lines lines' : List Text) :
    SameDefinitions ⟨options, name, lines, table⟩ ⟨options, name, lines', table'⟩ := by
  cases h : table.emit.result with
  | error failure =>
    obtain ⟨failure', h'⟩ := emit_error_of_perm hdistinct hperm h
    exact .failed (Session.emit_of_error h) (Session.emit_of_error h')
  | ok codes =>
    obtain ⟨codes', h', hcodes, hmethods⟩ := emit_of_perm hdistinct hperm h
    refine .emitted h h' hcodes (Session.emit_of_ok h) ?_
    rw [Session.emit_of_ok h']
    exact congrArg (fun methods => Except.ok (moduleText codes' methods _ _)) hmethods

end Tables

/-! ## Programs in another order -/

/-- **Declarations can stand anywhere.** Whole declarations of an accepted program are moved to other
    places of the top level, in any order. The program is accepted again, with the same functions up to
    their order and the numbers of the lines; it runs as before, in either call mode; and it is emitted
    as before, up to the order of the functions. -/
theorem declarations_stand_anywhere {lines : List Text} {parts parts' : List Part}
    {table : FunctionTable} (hparts : parts.flatMap Part.lines = lines.zipIdx)
    (hmove : Rearranges parts parts') (h : parseProgram lines = .ok table) :
    (∀ index, (arrangedTexts parts')[newNumber parts' index]? = lines[index]?) ∧
      (∀ i j, i < lines.length → newNumber parts' i = newNumber parts' j → i = j) ∧
      ∃ table', parseProgram (arrangedTexts parts') = .ok table' ∧
        (table.renumber (newNumber parts')).entries.Perm table'.entries ∧
        (∀ privateVariables t, SameRuns (newNumber parts') lines (arrangedTexts parts')
          ⟨table, privateVariables⟩ ⟨table', privateVariables⟩ t) ∧
        ∀ options name, SameDefinitions ⟨options, name, lines, table⟩
          ⟨options, name, arrangedTexts parts', table'⟩ := by
  have hlines := getElem?_newNumber hparts hmove
  have hdistinct := nodup_names_of_parseProgram h
  obtain ⟨functions, functions', main, hentries, hfunctions, h'⟩ :=
    parseProgram_rearranged hparts hmove h
  have hperm : (table.renumber (newNumber parts')).entries.Perm (FunctionTable.renumber
      (newNumber parts') ⟨functions' ++ [(mainName, ⟨[], main⟩)]⟩).entries := by
    rw [FunctionTable.renumber, hentries]
    exact (hfunctions.append_right _).map _
  refine ⟨hlines, fun i j => newNumber_injective hparts hmove, _, h', hperm,
    fun privateVariables t => ?_, fun options name => ?_⟩
  · have hgrows : Program.Grows (newNumber parts') ⟨table, privateVariables⟩ ⟨_, privateVariables⟩ :=
      ⟨FunctionTable.grows_of_perm hdistinct hperm, rfl⟩
    exact hgrows.sameRuns hlines t
  · exact sameDefinitions_of_perm hdistinct hperm options name _ _

/-- A declaration that is moved behind the call of its function. -/
theorem declarations_stand_anywhere_after_call :
    ∃ table table', parseProgram ["PENUP".toList, "TO go \"n".toList, "FORWARD :n".toList,
        "END".toList, "go XCOR".toList] = .ok table ∧
      parseProgram ["PENUP".toList, "go XCOR".toList, "TO go \"n".toList, "FORWARD :n".toList,
        "END".toList] = .ok table' ∧
      ∀ options name, SameDefinitions
        ⟨options, name, ["PENUP".toList, "TO go \"n".toList, "FORWARD :n".toList, "END".toList,
          "go XCOR".toList], table⟩
        ⟨options, name, ["PENUP".toList, "go XCOR".toList, "TO go \"n".toList,
          "FORWARD :n".toList, "END".toList], table'⟩ := by
  obtain ⟨table, htable⟩ := Except.exists_of_isOk (m := parseProgram ["PENUP".toList,
    "TO go \"n".toList, "FORWARD :n".toList, "END".toList, "go XCOR".toList]) (by decide +kernel)
  let before : Part := .stretch [("PENUP".toList, 0)]
  let declaration : Part :=
    .declaration [("TO go \"n".toList, 1), ("FORWARD :n".toList, 2), ("END".toList, 3)]
  let after : Part := .stretch [("go XCOR".toList, 4)]
  have hbefore : before.Whole := .other .nil
  have hafter : after.Whole := .other .nil
  have hdeclaration : declaration.Whole := ⟨[.other], .other .nil, by decide⟩
  have hmove : Rearranges [before, declaration, after] [before, after, declaration] :=
    ⟨by simp [hbefore, hdeclaration, hafter], by simp [hbefore, hdeclaration, hafter],
      .refl _, rfl⟩
  obtain ⟨_, _, table', htable', _, _, hemit⟩ := declarations_stand_anywhere rfl hmove htable
  exact ⟨table, table', htable, htable', hemit⟩

end LogoLang
