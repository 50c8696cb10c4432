import LogoLang.Proofs.Emit.Reading

set_option autoImplicit false

/-! # The names that an emitted module defines

A physical line that starts in one of a few ways defines a name, which is what follows in name
characters (`definedNames`). The class of turtles defines the method that makes a turtle and then the
ones that it is given (`definedNames_turtleClass`). A module defines, without indentation, the names of
its header, one for each function, the class and the entry point (`definedNames_moduleText`). -/

namespace LogoLang

/-! ## Lines that define a name -/

/-- The name that a physical line defines, if it starts in one of the given ways. -/
def definedName? (starts : List Text) (row : Text) : Option Text :=
  (starts.find? (·.isPrefixOf row)).map fun start => (row.drop start.length).takeWhile isNameChar

/-- The names that the physical lines of a text define, in order. -/
def definedNames (starts : List Text) (t : Text) : List Text := t.rows.filterMap (definedName? starts)

/-- The start of a line that defines a method of a class. -/
def methodStarts : List Text := ["    def ".toList]

/-- The starts of the lines that define a name of the module. -/
def moduleStarts : List Text := ["import ".toList, "def ".toList, "class ".toList]

section Reading

variable {starts : List Text}

theorem definedNames_append {t : Text} (h : t.Closed) (u : Text) :
    definedNames starts (t ++ u) = definedNames starts t ++ definedNames starts u := by
  unfold definedNames
  rw [h, List.filterMap_append]

theorem definedNames_flatMap {α : Type} {f : α → Text} (hf : ∀ a, (f a).Closed) (l : List α) :
    definedNames starts (l.flatMap f) = l.flatMap fun a => definedNames starts (f a) := by
  induction l with
  | nil => rfl
  | cons a rest ih => rw [List.flatMap_cons, definedNames_append (hf a), ih, List.flatMap_cons]

/-- Parts that are set apart by blank lines define their names one after the other. -/
theorem definedNames_join {sep : Text} (hsep : sep.Closed) (hblank : definedNames starts sep = [])
    {parts : List Text} (hparts : ∀ part ∈ parts, Text.Closed part) :
    definedNames starts (Text.join sep parts) = parts.flatMap (definedNames starts) := by
  fun_induction Text.join sep parts with
  | case1 => rfl
  | case2 part => rw [List.flatMap_singleton]
  | case3 part rest _ ih =>
    obtain ⟨hpart, hrest⟩ := List.forall_mem_cons.1 hparts
    rw [definedNames_append (hpart.append hsep), definedNames_append hpart, hblank, List.append_nil,
      ih hrest, List.flatMap_cons]

theorem definedNames_line {line : Text} (h : line.OneRow) :
    definedNames starts (line ++ ['\n']) = (definedName? starts (line ++ ['\n'])).toList := by
  unfold definedNames
  rw [h.rows_line []]
  simp only [List.filterMap_cons, List.filterMap_nil, Text.rows]
  cases definedName? starts (line ++ ['\n']) <;> rfl

theorem Text.closed_of_getLast? {t : Text} (h : t.getLast? = some '\n') : t.Closed := by
  rw [← List.dropLast_append_getLast? '\n' h]
  exact Text.closed_newline _

end Reading

/-! ## The class of turtles -/

/-- The text of a method ends its last line, and defines the method and no name of the module. -/
theorem Method.read_body (method : Method) :
    method.body.toList.getLast? = some '\n' ∧
      definedNames methodStarts method.body.toList = [method.name] ∧
      definedNames moduleStarts method.body.toList = [] := by
  -- the texts are taken apart first: characters are compared faster in short texts
  unfold Method.body recordLine methodStarts moduleStarts Method.name
  cases method <;>
    (simp only
     repeat rw [String.toList_append]
     repeat rw [String.toList_ofList]
     decide +kernel)

theorem Method.closed_body (method : Method) : Text.Closed method.body.toList :=
  Text.closed_of_getLast? method.read_body.1

/-- The same of the method that makes a turtle. -/
theorem read_constructorText :
    constructorText.toList.getLast? = some '\n' ∧
      definedNames methodStarts constructorText.toList = ["__init__".toList] ∧
      definedNames moduleStarts constructorText.toList = [] := by
  unfold constructorText methodStarts moduleStarts
  repeat rw [String.toList_append]
  repeat rw [String.toList_ofList]
  decide +kernel

/-- The parts of the class after its first line. -/
theorem closed_classParts (methods : List Method) :
    ∀ part ∈ constructorText.toList :: methods.map (fun method => method.body.toList),
      Text.Closed part := by
  have hconstructor := Text.closed_of_getLast? read_constructorText.1
  refine List.forall_mem_cons.2 ⟨hconstructor, fun part hpart => ?_⟩
  obtain ⟨method, _, rfl⟩ := List.mem_map.1 hpart
  exact method.closed_body

theorem definedNames_class {starts : List Text} (hblank : definedNames starts ['\n'] = [])
    (methods : List Method) :
    definedNames starts (turtleClass methods) = definedNames starts "class Draw:\n".toList ++
      (definedNames starts constructorText.toList ++
        methods.flatMap fun method => definedNames starts method.body.toList) := by
  have hfirst : Text.Closed "class Draw:\n".toList := Text.closed_of_getLast? (by decide)
  have hbreak : Text.Closed ['\n'] := Text.closed_newline []
  unfold turtleClass
  rw [definedNames_append hfirst, definedNames_join hbreak hblank (closed_classParts methods),
    List.flatMap_cons, List.flatMap_map]

/-- **The class defines the method that makes a turtle and then the given ones**, in their order. -/
theorem definedNames_turtleClass (methods : List Method) :
    definedNames methodStarts (turtleClass methods) =
      "__init__".toList :: methods.map Method.name := by
  have hbodies : (methods.flatMap fun method => definedNames methodStarts method.body.toList) =
      methods.map Method.name := by
    induction methods with
    | nil => rfl
    | cons method rest ih =>
      rw [List.flatMap_cons, method.read_body.2.1, ih]
      rfl
  have hfirst : definedNames methodStarts "class Draw:\n".toList = [] := by decide
  rw [definedNames_class (by decide), hbodies, hfirst, read_constructorText.2.1]
  rfl

/-- Without indentation there is nothing but the class itself. -/
theorem definedNames_turtleClass_module (methods : List Method) :
    definedNames moduleStarts (turtleClass methods) = ["Draw".toList] := by
  have hbodies : (methods.flatMap fun method => definedNames moduleStarts method.body.toList) = [] :=
    List.flatMap_eq_nil_iff.2 fun method _ => method.read_body.2.2
  have hfirst : definedNames moduleStarts "class Draw:\n".toList = ["Draw".toList] := by decide
  rw [definedNames_class (by decide), hbodies, hfirst, read_constructorText.2.2]
  rfl

theorem closed_turtleClass (methods : List Method) : (turtleClass methods).Closed := by
  have hfirst : Text.Closed "class Draw:\n".toList := Text.closed_of_getLast? (by decide)
  refine hfirst.append ?_
  have hparts := closed_classParts methods
  have hsep : Text.Closed ['\n'] := Text.closed_newline []
  generalize constructorText.toList :: methods.map (fun m => m.body.toList) = parts at hparts ⊢
  fun_induction Text.join ['\n'] parts with
  | case1 => exact Text.closed_nil
  | case2 part => exact hparts part (List.mem_singleton_self _)
  | case3 part rest _ ih =>
    obtain ⟨hpart, hrest⟩ := List.forall_mem_cons.1 hparts
    exact (hpart.append hsep).append (ih hrest)

/-! ## Functions -/

section Functions

variable {table : FunctionTable} {name : Text} {f : Function} {lines : List CodeLine}

theorem le_depth_closeBody {depth : Nat} (h : ∀ line ∈ lines, depth ≤ line.depth) :
    ∀ line ∈ closeBody depth lines, depth ≤ line.depth := by
  unfold closeBody
  split
  · exact List.forall_mem_append.2 ⟨h, List.forall_mem_singleton.2 (Nat.le_refl depth)⟩
  · exact h

mutual

/-- Nothing inside a body is indented less than the body. -/
theorem Stmt.le_depth_of_emit {stmt : Stmt} {depth : Nat} {scope scope' : Scope}
    {lines : List CodeLine} (h : (stmt.emit table depth scope).result = .ok (scope', lines)) :
    ∀ line ∈ lines, depth ≤ line.depth := by
  cases stmt with
  | block kind condition body line =>
    simp only [Stmt.emit, Traced.bind_eq_ok_iff, Prod.exists] at h
    obtain ⟨code, _, scope₁, inner, hbody, h⟩ := h
    cases h
    refine List.forall_mem_cons.2 ⟨Nat.le_refl depth, fun line hline => ?_⟩
    exact Nat.le_of_succ_le (le_depth_closeBody (le_depth_of_emitBody hbody) line hline)
  | assign kind target value line =>
    simp only [Stmt.emit, Traced.bind_eq_ok_iff, Prod.exists] at h
    obtain ⟨_, _, _, h⟩ := h
    cases h
    exact List.forall_mem_singleton.2 (Nat.le_refl depth)
  | pen down line =>
    cases h
    exact List.forall_mem_singleton.2 (Nat.le_refl depth)
  | command cmd value line =>
    simp only [Stmt.emit, Traced.bind_eq_ok_iff] at h
    obtain ⟨_, _, _, _, h⟩ := h
    cases h
    exact List.forall_mem_singleton.2 (Nat.le_refl depth)
  | call label args line =>
    simp only [Stmt.emit, Traced.bind_eq_ok_iff] at h
    obtain ⟨_, _, h⟩ := h
    cases h
    exact List.forall_mem_singleton.2 (Nat.le_refl depth)
  | comment text line =>
    cases h
    exact List.forall_mem_singleton.2 (Nat.le_refl depth)

theorem le_depth_of_emitBody {body : List Stmt} {depth : Nat} {scope scope' : Scope}
    {lines : List CodeLine} (h : (emitBody table depth scope body).result = .ok (scope', lines)) :
    ∀ line ∈ lines, depth ≤ line.depth := by
  cases body with
  | nil =>
    cases h
    simp
  | cons stmt rest =>
    simp only [emitBody, Traced.bind_eq_ok_iff, Prod.exists] at h
    obtain ⟨scope₁, first, hfirst, scope₂, others, hothers, h⟩ := h
    cases h
    exact List.forall_mem_append.2 ⟨Stmt.le_depth_of_emit hfirst, le_depth_of_emitBody hothers⟩

end

theorem le_depth_of_emitLines (h : (f.emitLines table).result = .ok lines) :
    ∀ line ∈ lines, 1 ≤ line.depth := by
  simp only [Function.emitLines, Traced.bind_eq_ok_iff, Prod.exists] at h
  obtain ⟨scope, inner, hbody, h⟩ := h
  cases h
  exact le_depth_closeBody (le_depth_of_emitBody hbody)

/-- An indented line defines no name of the module. -/
theorem CodeLine.Readable.definedNames {line : CodeLine} (h : line.Readable)
    (hdepth : 1 ≤ line.depth) : definedNames moduleStarts line.toText = [] := by
  obtain ⟨rest, hrest⟩ : ∃ rest, line.toText = ' ' :: rest := by
    obtain ⟨count, hcount⟩ : ∃ count, 4 * line.depth = count + 1 := ⟨4 * line.depth - 1, by omega⟩
    refine ⟨Text.spaces count ++ line.code ++ ['\n'], ?_⟩
    rw [CodeLine.toText, hcount, Text.spaces, List.replicate_succ]
    rfl
  unfold LogoLang.definedNames
  rw [h.rows, hrest]
  rfl

theorem isNameChar_of_mem_functionName (hname : isValidName name = true ∨ name = mainName) :
    ∀ c ∈ functionName name, isNameChar c = true := by
  unfold functionName
  rcases hname with hname | rfl
  · rw [if_neg (by simp [(isNameChar_of_isValidName hname).1])]
    have hmarked : ∀ c ∈ "fn_".toList, isNameChar c = true := List.all_eq_true.1 (by decide)
    exact List.forall_mem_append.2 ⟨hmarked, (isNameChar_of_isValidName hname).2⟩
  · have hprocess : ∀ c ∈ "process".toList, isNameChar c = true := List.all_eq_true.1 (by decide)
    exact hprocess

/-- The first line of a function defines the function. -/
theorem definedName?_signature (hname : isValidName name = true ∨ name = mainName) :
    definedName? moduleStarts (signature name f) = some (functionName name) := by
  have hstart : signature name f = "def ".toList ++ (functionName name ++ '(' ::
      (Text.join ", ".toList ("draw".toList :: f.paramNames.map variableName) ++ "):\n".toList)) := by
    simp [signature, parenthesized]
  have hfind : moduleStarts.find? (·.isPrefixOf (signature name f)) = some "def ".toList := by
    rw [hstart]
    rfl
  unfold definedName?
  rw [hfind, hstart, Option.map_some, List.drop_left' rfl,
    List.takeWhile_append_of_pos (isNameChar_of_mem_functionName hname),
    List.takeWhile_cons_of_neg (by decide), List.append_nil]

/-- **The code of a function defines the function and nothing else.** -/
theorem definedNames_functionText (hname : isValidName name = true ∨ name = mainName)
    (hparams : ∀ param ∈ f.params, param.IsName) (hread : ∀ line ∈ lines, line.Readable)
    (hdepth : ∀ line ∈ lines, 1 ≤ line.depth) :
    definedNames moduleStarts (functionText name f lines) = [functionName name] := by
  have hlines : definedNames moduleStarts (lines.flatMap CodeLine.toText) = [] := by
    rw [definedNames_flatMap CodeLine.closed_toText]
    exact List.flatMap_eq_nil_iff.2 fun line hline => (hread line hline).definedNames (hdepth line hline)
  rw [functionText, definedNames_append (closed_signature name f), hlines, List.append_nil,
    signature_eq, definedNames_line (oneRow_heading hname hparams), ← signature_eq,
    definedName?_signature hname]
  rfl

end Functions

/-! ## Whole modules -/

theorem read_moduleHeader :
    moduleHeader.toList.getLast? = some '\n' ∧
      definedNames moduleStarts moduleHeader.toList =
        ["math".toList, "struct".toList, "_f32".toList] := by
  unfold moduleHeader moduleStarts
  repeat rw [String.toList_append]
  repeat rw [String.toList_ofList]
  decide +kernel

theorem definedNames_moduleFooter (width height : Measure) :
    definedNames moduleStarts (moduleFooter width height) = ["main".toList] := by
  have hnumber : ∀ measure : Measure, Text.OneRow measure.toText :=
    fun measure => measure.isNumeral_toText.oneRow
  obtain ⟨first, hfirst, hrow⟩ : ∃ first, Text.OneRow first ∧
      moduleFooter width height = "def main(width=".toList ++ first ++ ['\n'] ++
        ("    draw = Draw(width, height)\n    process(draw)\n    return draw\n".toList
          ++ "\n\nif __name__ == '__main__':\n    main()\n".toList) := by
    refine ⟨width.toText ++ ", height=".toList ++ height.toText ++ "):".toList, ?_, ?_⟩
    · have hheight : Text.OneRow ", height=".toList := by decide
      have hclose : Text.OneRow "):".toList := by decide
      exact (((hnumber width).append hheight).append (hnumber height)).append hclose
    · unfold moduleFooter
      repeat rw [String.toList_ofList]
      simp only [List.append_assoc, List.cons_append, List.nil_append]
  have hopen : Text.OneRow "def main(width=".toList := by decide
  have hrest : definedNames moduleStarts
      ("    draw = Draw(width, height)\n    process(draw)\n    return draw\n".toList
        ++ "\n\nif __name__ == '__main__':\n    main()\n".toList) = [] := by
    unfold moduleStarts
    repeat rw [String.toList_ofList]
    decide +kernel
  have hname : definedName? moduleStarts ("def main(width=".toList ++ first ++ ['\n']) =
      some "main".toList := rfl
  rw [hrow, definedNames_append (Text.closed_newline _), hrest, List.append_nil,
    definedNames_line (hopen.append hfirst), hname]
  rfl

/-- The names that a module of the functions defines, in order. -/
def moduleNames (functions : List Text) : List Text :=
  ["math".toList, "struct".toList, "_f32".toList] ++ functions.map functionName ++
    ["Draw".toList, "main".toList]

theorem closed_moduleFooter (width height : Measure) : (moduleFooter width height).Closed := by
  have hend : "\n\nif __name__ == '__main__':\n    main()\n".toList.getLast? = some '\n' := by
    rw [String.toList_ofList]
    rfl
  refine Text.closed_of_getLast? ?_
  unfold moduleFooter
  rw [List.getLast?_append, hend, Option.some_or]

/-- **A module defines the names of its parts**, if each function defines its own name. -/
theorem definedNames_moduleText {codes functions : List Text} {methods : List Method}
    {width height : Measure} (hclosed : ∀ code ∈ codes, Text.Closed code)
    (hcodes : codes.flatMap (definedNames moduleStarts) = functions.map functionName) :
    definedNames moduleStarts (moduleText codes methods width height) = moduleNames functions := by
  have hsep : Text.Closed "\n\n".toList := Text.closed_newline ['\n']
  have hparts : ∀ part ∈ moduleHeader.toList :: codes ++ [turtleClass methods,
      moduleFooter width height], Text.Closed part := by
    refine List.forall_mem_append.2 ⟨List.forall_mem_cons.2 ⟨?_, hclosed⟩, ?_⟩
    · exact Text.closed_of_getLast? read_moduleHeader.1
    · simp [closed_turtleClass, closed_moduleFooter]
  rw [moduleText, definedNames_join hsep (by decide) hparts, List.flatMap_append, List.flatMap_cons,
    read_moduleHeader.2, hcodes, List.flatMap_cons, List.flatMap_singleton,
    definedNames_turtleClass_module, definedNames_moduleFooter]
  rfl

end LogoLang
