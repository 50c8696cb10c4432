import LogoLang.Proofs.Emit.DefinedNames
import LogoLang.Proofs.Program.Derivation
import LogoLang.Proofs.Session.Emission
import LogoLang.Proofs.Session.WellFormed

set_option autoImplicit false

/-! # Distinct names in emitted modules

The names that an emitted module defines differ from each other, because the functions of a program do
and the emitted names of functions are no others (`nodup_moduleNames`). Of the parameters of a program
nothing says that they differ, so the emitted parameters of a function differ exactly if the ones of the
program do (`emitted_names_distinct`), and a function can be emitted with one parameter twice
(`emitted_parameter_repeated`). -/

namespace LogoLang

/-! ## Names of modules -/

theorem functionName_injective : Function.Injective functionName := by
  intro name other h
  unfold functionName at h
  by_cases hname : name.isEmpty = true
  · by_cases hother : other.isEmpty = true
    · rw [List.isEmpty_iff.1 hname, List.isEmpty_iff.1 hother]
    · rw [if_pos hname, if_neg hother] at h
      exact absurd (congrArg List.head? h) (by simp)
  · by_cases hother : other.isEmpty = true
    · rw [if_neg hname, if_pos hother] at h
      exact absurd (congrArg List.head? h) (by simp)
    · rw [if_neg hname, if_neg hother] at h
      exact List.append_cancel_left h

theorem variableName_injective : Function.Injective variableName :=
  fun _ _ h => List.append_cancel_left h

/-- An emitted function is named by the word for the top level or by a name behind a prefix. -/
theorem head?_functionName (name : Text) :
    (functionName name).head? = some 'p' ∨ (functionName name).head? = some 'f' := by
  unfold functionName
  split
  · exact Or.inl rfl
  · exact Or.inr rfl

/-- **The names that a module defines differ** if the functions of the program have different names. -/
theorem nodup_moduleNames {functions : List Text} (h : functions.Nodup) :
    (moduleNames functions).Nodup := by
  have hhead : ∀ fixed ∈ ["math".toList, "struct".toList, "_f32".toList] ++
      ["Draw".toList, "main".toList], fixed.head? ≠ some 'p' ∧ fixed.head? ≠ some 'f' := by decide
  unfold moduleNames
  rw [(List.perm_append_comm.append_right _).nodup_iff, List.append_assoc, List.nodup_append]
  refine ⟨h.map functionName_injective, by decide, ?_⟩
  rintro _ hfunction fixed hfixed rfl
  obtain ⟨name, _, rfl⟩ := List.mem_map.1 hfunction
  rcases head?_functionName name with hstart | hstart
  · exact (hhead _ hfixed).1 hstart
  · exact (hhead _ hfixed).2 hstart

/-! ## Parameters -/

/-- The words of name characters in a text. -/
def nameWords (t : Text) : List Text :=
  (t.splitOnP fun c => !isNameChar c).filter fun word => !word.isEmpty

/-- The parameters in the first line of a function: the words from the opening parenthesis on. -/
def signatureParams (row : Text) : List Text := nameWords (row.dropWhile (· != '('))

theorem nameWords_append {c : Char} (hc : isNameChar c = false) (t rest : Text) :
    nameWords (t ++ c :: rest) = nameWords t ++ nameWords rest := by
  unfold nameWords
  rw [List.splitOnP_append_cons t rest (by simp [hc]), List.filter_append]

theorem nameWords_cons {c : Char} (hc : isNameChar c = false) (t : Text) :
    nameWords (c :: t) = nameWords t :=
  nameWords_append hc [] t

theorem nameWords_name {name : Text} (hne : name ≠ []) (h : ∀ c ∈ name, isNameChar c = true) :
    nameWords name = [name] := by
  unfold nameWords
  rw [List.splitOnP_eq_singleton fun c hc => by simp [h c hc]]
  simp [hne]

theorem nameWords_join {names : List Text} (hne : [] ∉ names)
    (h : ∀ name ∈ names, ∀ c ∈ name, isNameChar c = true) :
    nameWords (Text.join ", ".toList names) = names := by
  fun_induction Text.join ", ".toList names with
  | case1 => rfl
  | case2 name =>
    exact nameWords_name (Ne.symm (List.ne_of_not_mem_cons hne)) (h name (List.mem_singleton_self _))
  | case3 name rest _ ih =>
    rw [List.mem_cons, not_or] at hne
    obtain ⟨hname, hrest⟩ := List.forall_mem_cons.1 h
    have hsep : name ++ ", ".toList ++ Text.join ", ".toList rest =
        name ++ ',' :: ' ' :: Text.join ", ".toList rest := by simp
    rw [hsep, nameWords_append (by decide), nameWords_cons (by decide),
      nameWords_name (Ne.symm hne.1) hname, ih hne.2 hrest, List.singleton_append]

/-- **The parameters are read back from the first line of a function**, after that of the turtle. -/
theorem signatureParams_signature {name : Text} {f : Function}
    (hname : isValidName name = true ∨ name = mainName) (hparams : ∀ param ∈ f.params, param.IsName) :
    signatureParams (signature name f) = "draw".toList :: f.paramNames.map variableName := by
  have hstart : signature name f = ("def ".toList ++ functionName name) ++ '(' ::
      (Text.join ", ".toList ("draw".toList :: f.paramNames.map variableName) ++
        ')' :: ':' :: ['\n']) := by
    simp [signature, parenthesized]
  have hopen : ∀ c ∈ "def ".toList ++ functionName name, (c != '(') = true := by
    refine List.forall_mem_append.2 ⟨List.all_eq_true.1 (by decide), fun c hc => ?_⟩
    have hchar := isNameChar_of_mem_functionName hname c hc
    rw [bne_iff_ne]
    rintro rfl
    exact absurd hchar (by decide)
  have hwords : ∀ word ∈ "draw".toList :: f.paramNames.map variableName,
      ∀ c ∈ word, isNameChar c = true := by
    refine List.forall_mem_cons.2 ⟨List.all_eq_true.1 (by decide), fun word hword => ?_⟩
    obtain ⟨param, hparam, rfl⟩ := List.mem_map.1 hword
    have hvalid := isValidName_of_mem_paramNames hparams hparam
    have hmarked : ∀ c ∈ "v_".toList, isNameChar c = true := List.all_eq_true.1 (by decide)
    exact List.forall_mem_append.2 ⟨hmarked, (isNameChar_of_isValidName hvalid).2⟩
  have hnonempty : [] ∉ "draw".toList :: f.paramNames.map variableName := by
    simp [variableName]
  unfold signatureParams
  rw [hstart, List.dropWhile_append_of_pos hopen, List.dropWhile_cons_of_neg (by decide),
    nameWords_cons (by decide), nameWords_append (by decide), nameWords_cons (by decide),
    nameWords_cons (by decide), nameWords_join hnonempty hwords]
  exact List.append_nil _

theorem nodup_signatureParams_iff {f : Function} :
    ("draw".toList :: f.paramNames.map variableName).Nodup ↔ f.paramNames.Nodup := by
  have hdraw : "draw".toList ∉ f.paramNames.map variableName := by
    simp [variableName]
  rw [List.nodup_cons, List.nodup_map_iff variableName_injective]
  exact and_iff_right hdraw

/-! ## Emitted programs -/

/-- The first line of the code defines the function and has its parameters, which differ exactly if
    those of the program do. -/
structure DefinesEntry (entry : Text × Function) (code : Text) : Prop where
  first : ∃ row rest, code.rows = row :: rest ∧
    definedName? moduleStarts row = some (functionName entry.1) ∧
    signatureParams row = "draw".toList :: entry.2.paramNames.map variableName ∧
    ((signatureParams row).Nodup ↔ entry.2.paramNames.Nodup)

theorem EntryEmitted.definesEntry {table : FunctionTable} {entry : Text × Function} {code : Text}
    (hname : isValidName entry.1 = true ∨ entry.1 = mainName)
    (hparams : ∀ param ∈ entry.2.params, param.IsName) (h : EntryEmitted table entry code) :
    DefinesEntry entry code := by
  obtain ⟨lines, _, rfl⟩ := h
  have hread := signatureParams_signature hname hparams
  refine ⟨signature entry.1 entry.2, Text.rows (lines.flatMap CodeLine.toText), ?_,
    definedName?_signature hname, hread, hread ▸ nodup_signatureParams_iff⟩
  have hrow : (signature entry.1 entry.2).rows = [signature entry.1 entry.2] := by
    rw [signature_eq]
    exact (oneRow_heading hname hparams).rows_line []
  rw [functionText, closed_signature, hrow, List.singleton_append]

/-- The code of a function defines nothing else if its comments have no line ends in them. -/
theorem EntryEmitted.definedNames {table : FunctionTable} {entry : Text × Function} {code : Text}
    (hname : isValidName entry.1 = true ∨ entry.1 = mainName)
    (hparams : ∀ param ∈ entry.2.params, param.IsName)
    (hform : ∀ stmt ∈ allStmts entry.2.body, stmt.WellFormed)
    (hcomments : ∀ text ∈ bodyComments entry.2.body, Text.OneRow text)
    (h : EntryEmitted table entry code) :
    definedNames moduleStarts code = [functionName entry.1] := by
  obtain ⟨lines, hlines, rfl⟩ := h
  obtain ⟨_, _, _, _, hread⟩ := exists_shown_of_emitLines hform hcomments hlines
  exact definedNames_functionText hname hparams hread (le_depth_of_emitLines hlines)

theorem closed_of_emitted {table : FunctionTable} {entries : List (Text × Function)}
    {codes : List Text} (h : List.Forall₂ (EntryEmitted table) entries codes) :
    ∀ code ∈ codes, Text.Closed code := by
  induction h with
  | nil => simp
  | cons hcode _ ih =>
    obtain ⟨lines, _, rfl⟩ := hcode
    exact List.forall_mem_cons.2 ⟨closed_functionText _ _ lines, ih⟩

theorem flatMap_of_forall₂ {α β γ : Type} {f : β → List γ} {g : α → γ} {l : List α} {l' : List β}
    (h : List.Forall₂ (fun a b => f b = [g a]) l l') : l'.flatMap f = l.map g := by
  induction h with
  | nil => rfl
  | cons hab _ ih => rw [List.flatMap_cons, hab, ih, List.map_cons, List.singleton_append]

/-- **The names that an emitted module defines differ**, and so do the parameters of each function whose
    parameters differ in the program. The code of each function starts with a line that defines it. If no
    comment has a line end in it, these are all lines without indentation that define a name. -/
theorem emitted_names_distinct {lines : List Text} {table : FunctionTable} {codes : List Text}
    (hparse : parseProgram lines = .ok table) (hcodes : table.emit.result = .ok codes) :
    (moduleNames table.names).Nodup ∧ List.Forall₂ DefinesEntry table.entries codes ∧
      ((∀ text ∈ table.comments, Text.OneRow text) → ∀ methods width height,
        definedNames moduleStarts (moduleText codes methods width height) =
          moduleNames table.names) := by
  have hform := (takenFrom_of_parseProgram hparse).wellFormed
  have hemitted : List.Forall₂ (EntryEmitted table) table.entries codes :=
    emitFunctions_eq_ok_iff.1 hcodes
  have hboth := (List.forall₂_and_left _ _).2 ⟨fun entry hentry => hentry, hemitted⟩
  refine ⟨nodup_moduleNames (nodup_names_of_parseProgram hparse), hboth.imp ?_, ?_⟩
  · rintro entry code ⟨hentry, hcode⟩
    exact hcode.definesEntry (hform.names entry hentry) (hform.params entry hentry)
  · intro hcomments methods width height
    rw [table.comments_eq] at hcomments
    have hnames : List.Forall₂ (fun entry code => definedNames moduleStarts code =
        [functionName entry.1]) table.entries codes := by
      refine hboth.imp ?_
      rintro entry code ⟨hentry, hcode⟩
      refine hcode.definedNames (hform.names entry hentry) (hform.params entry hentry) ?_ ?_
      · exact fun stmt hstmt => hform.stmts stmt (List.mem_flatMap.2 ⟨entry, hentry, hstmt⟩)
      · exact fun text htext => hcomments text (List.mem_flatMap.2 ⟨entry, hentry, htext⟩)
    refine definedNames_moduleText (closed_of_emitted hemitted) ?_
    rw [flatMap_of_forall₂ hnames, FunctionTable.names, Bindings.names, List.map_map]
    rfl

/-- A function with two parameters, and one that it calls. -/
theorem emitted_names_distinct_step :
    ∃ table codes, parseProgram ["TO step \"a \"b".toList, "FORWARD + :a :b".toList, "stop".toList,
        "END".toList, "TO stop".toList, "// rest".toList, "END".toList] = .ok table ∧
      table.emit.result = .ok codes ∧
      ∀ methods width height, definedNames moduleStarts (moduleText codes methods width height) =
        ["math".toList, "struct".toList, "_f32".toList, "fn_step".toList, "fn_stop".toList,
          "process".toList, "Draw".toList, "main".toList] := by
  obtain ⟨table, hparse, hcheck⟩ := Except.exists_of_any
    (m := parseProgram ["TO step \"a \"b".toList, "FORWARD + :a :b".toList, "stop".toList,
      "END".toList, "TO stop".toList, "// rest".toList, "END".toList])
    (p := fun table => table.emit.result.isOk && table.comments = ["rest".toList] &&
      table.names = ["step".toList, "stop".toList, []]) (by decide +kernel)
  simp only [Bool.and_eq_true, decide_eq_true_eq] at hcheck
  obtain ⟨⟨hemitted, hcomments⟩, hnames⟩ := hcheck
  obtain ⟨codes, hcodes⟩ := Except.exists_of_isOk hemitted
  have hrows : ∀ text ∈ table.comments, Text.OneRow text := by
    rw [hcomments]
    decide
  refine ⟨table, codes, hparse, hcodes, fun methods width height => ?_⟩
  rw [(emitted_names_distinct hparse hcodes).2.2 hrows methods width height, hnames]
  decide

/-- A function with a parameter that is given twice is accepted, and emitted with the parameter twice. -/
theorem emitted_parameter_repeated :
    ∃ table code code', parseProgram ["TO f \"a \"a".toList, "END".toList] = .ok table ∧
      table.emit.result = .ok [code, code'] ∧
      code.rows.head? = some "def fn_f(draw, v_a, v_a):\n".toList ∧
      ¬ (signatureParams "def fn_f(draw, v_a, v_a):\n".toList).Nodup := by
  obtain ⟨table, hparse, hcheck⟩ := Except.exists_of_any
    (m := parseProgram ["TO f \"a \"a".toList, "END".toList])
    (p := fun table => table.emit.result.toOption ==
      some ["def fn_f(draw, v_a, v_a):\n    pass\n".toList,
        "def process(draw):\n    pass\n".toList]) (by decide +kernel)
  have hcodes := Except.eq_ok_of_toOption (eq_of_beq hcheck)
  exact ⟨table, _, _, hparse, hcodes, by decide +kernel, by decide +kernel⟩

end LogoLang
