import LogoLang.Proofs.Program.CallLine
import LogoLang.Proofs.Program.Growth
import LogoLang.Proofs.Program.Provenance
import LogoLang.Proofs.Run.CallFaults

set_option autoImplicit false

/-! # Which declared functions can be called

A function can be declared under any name, but a line that starts with a command word, with `TO` or
with `END` is never read as a call. All other declared functions can be called: the line of the name
and as many expressions as there are parameters is taken in after the program, as a call that is bound
(`declared_function_called_iff`). -/

namespace LogoLang

/-- The line of a name and expressions, after the lines of a program, is taken in as a call of the name
    with these arguments, and the call is bound. Nothing else changes. -/
structure ParsedAsCall (lines : List Text) (table : FunctionTable) (name : Text)
    (args : List WrittenExpr) (table' : FunctionTable) : Prop where
  accepted : parseProgram (lines ++ [callLine name args]) = .ok table'
  appended : table.ContinuedBy table' [callStmt name args lines.length]
  bound : table'.callFlaw? name ⟨0, name.length⟩ (WrittenExpr.placed name.length args).length = none

section

variable {lines : List Text} {table table' : FunctionTable} {name : Text} {f : Function}
  {args : List WrittenExpr}

/-! ## Calls that are bound -/

/-- More statements at the top level leave the declared functions as they are. -/
theorem FunctionTable.ContinuedBy.get? {stmts : List Stmt} (h : table.ContinuedBy table' stmts)
    (hdistinct : table'.names.Nodup) (hget : table.get? name = some f) (hname : name ≠ mainName) :
    table'.get? name = some f := by
  obtain ⟨functions, main, hentries, hentries'⟩ := h
  have hmem := Bindings.mem_of_get? hget
  rw [hentries, List.mem_append, List.mem_singleton] at hmem
  rcases hmem with hmem | hmain
  · refine (Bindings.get?_eq_some_iff hdistinct).2 ?_
    rw [hentries']
    exact List.mem_append_left _ hmem
  · exact absurd (congrArg Prod.fst hmain) hname

theorem exists_parsedAsCall (h : parseProgram lines = .ok table) (hget : table.get? name = some f)
    (hname : name ≠ mainName) (hargs : args.length = f.params.length) (hfree : name ∉ reservedWords) :
    ∃ table', ParsedAsCall lines table name args table' := by
  have hvalid : isValidName name = true :=
    ((takenFrom_of_parseProgram h).names _ (Bindings.mem_of_get? hget)).resolve_right
      fun hmain => hname hmain.1
  have hline := lineRead_callLine ⟨⟨name, hvalid⟩, hfree⟩ args lines.length
  obtain ⟨table', haccepted, happended⟩ := exists_parseProgram_append h hline
  refine ⟨table', haccepted, happended, FunctionTable.callFlaw?_eq_none_iff.2 ?_⟩
  have hget' := happended.get? (nodup_names_of_parseProgram haccepted) hget hname
  rw [FunctionTable.arity?, hget', WrittenExpr.length_placed, hargs]
  rfl

/-! ## Words that start other lines -/

/-- Whether a statement is a call. -/
def Stmt.isCall : Stmt → Bool
  | .call .. => true
  | .block .. | .assign .. | .pen .. | .command .. | .comment .. => false

theorem StmtForm.isCall_read (form : StmtForm) (c : Cursor) (line : Nat) :
    (form.read c line).1.isCall = false := by
  cases form <;> rfl

/-- The line of a command word has no call on it. -/
theorem lineProperty_commandLine {keyword : Text} {form : StmtForm}
    (hmem : (keyword, form) ∈ stmtKeywords) :
    LineProperty (lines ++ [callLine keyword args])
      fun stmt => stmt.line = lines.length → stmt.isCall = false where
  comment _ _ _ _ _ _ := rfl
  close _ _ _ _ := rfl
  read index text stmt c htext hread _ hline := by
    have hindex : index = lines.length := (readFrom_of_readStmt? hread).line.symm.trans hline
    rw [hindex, List.getElem?_concat_length, Option.some.injEq] at htext
    obtain ⟨c', hform, _⟩ := readStmt?_keyword index hmem (endsWord_spaced (args.map WrittenExpr.text))
    rw [← htext, callLine, WrittenExpr.row, hform, Option.some.injEq] at hread
    have hcall := form.isCall_read c' index
    rw [hread] at hcall
    exact hcall

/-- A statement at the end of the top level is one of the table. -/
theorem FunctionTable.ContinuedBy.mem_stmts {stmt : Stmt} (h : table.ContinuedBy table' [stmt])
    (hleaf : stmt.isBlock = false) : stmt ∈ table'.stmts := by
  obtain ⟨functions, main, _, hentries'⟩ := h
  have hmain : (mainName, ⟨[], main ++ [stmt]⟩) ∈ table'.entries := by
    rw [hentries']
    exact List.mem_append_right _ (List.mem_singleton_self _)
  refine List.mem_flatMap.2 ⟨_, hmain, ?_⟩
  rw [allStmts_concat, Stmt.all_of_leaf hleaf]
  exact List.mem_append_right _ (List.mem_singleton_self _)

theorem ParsedAsCall.not_mem_reservedWords (h : parseProgram lines = .ok table)
    (hcall : ParsedAsCall lines table name args table') : name ∉ reservedWords := by
  intro hreserved
  have htail : EndsWord (WrittenExpr.row args) := endsWord_spaced _
  have hother := class_of_appended h hcall.accepted
  unfold reservedWords at hreserved
  rw [List.mem_cons, List.mem_cons] at hreserved
  rcases hreserved with rfl | rfl | hkeyword
  · have hclass : LineClass.of (callLine toKeyword args) = .heading :=
      LineClass.of_eq_heading_iff.2 (firstWord_line (by decide) toKeyword_nameChars htail)
    rw [hclass] at hother
    exact absurd hother (by decide)
  · have hclass : LineClass.of (callLine endKeyword args) = .ending :=
      LineClass.of_eq_ending_iff.2
        (firstWord_line (by decide) (List.all_eq_true.1 (by decide)) htail)
    rw [hclass] at hother
    exact absurd hother (by decide)
  · obtain ⟨⟨keyword, form⟩, hmem, rfl⟩ := List.mem_map.1 hkeyword
    have hstmt := hcall.appended.mem_stmts rfl
    have hline := (lineProperty_commandLine hmem).of_parseProgram hcall.accepted _ hstmt rfl
    exact absurd hline (by simp [callStmt, Stmt.isCall])

/-! ## The exact condition -/

/-- **A declared function can be called exactly if its name is not one of the fifteen command words,
    `TO` or `END`**: the line of the name and as many expressions as it has parameters, after the lines
    of an accepted program, is accepted and parsed as a call of the function with these arguments. -/
theorem declared_function_called_iff (h : parseProgram lines = .ok table)
    (hget : table.get? name = some f) (hname : name ≠ mainName)
    (hargs : args.length = f.params.length) :
    (∃ table', ParsedAsCall lines table name args table') ↔ name ∉ reservedWords := by
  constructor
  · rintro ⟨table', hcall⟩
    exact hcall.not_mem_reservedWords h
  · intro hfree
    exact exists_parsedAsCall h hget hname hargs hfree

end

/-- A sum that is written with more than one space between its words. -/
def spacedSum : WrittenExpr where
  text := "+  XCOR YCOR ".toList
  expr := .binary .add (.query .x ⟨3, 4⟩) (.query .y ⟨8, 4⟩) ⟨0, 12⟩
  whole := ⟨⟨13, []⟩, by decide, rfl⟩
  flawless := rfl

theorem declared_function_called_iff_walk :
    ∃ table f, parseProgram ["TO walk \"n".toList, "FORWARD :n".toList, "END".toList] = .ok table ∧
      table.get? "walk".toList = some f ∧ [spacedSum].length = f.params.length ∧
      ∃ table', ParsedAsCall ["TO walk \"n".toList, "FORWARD :n".toList, "END".toList] table
        "walk".toList [spacedSum] table' := by
  refine ⟨_, _, rfl, rfl, rfl, ?_⟩
  exact (declared_function_called_iff rfl rfl (by decide) rfl).2 (by decide)

/-- A function that is declared under a command word is not called by its line. -/
theorem declared_penup_not_called :
    ∃ table table', parseProgram ["TO PENUP".toList, "END".toList] = .ok table ∧
      table.get? "PENUP".toList = some ⟨[], []⟩ ∧
      parseProgram (["TO PENUP".toList, "END".toList] ++ [callLine "PENUP".toList []]) = .ok table' ∧
      table'.mainBody? = some [.pen false 2] ∧
      ¬ ∃ table'', ParsedAsCall ["TO PENUP".toList, "END".toList] table "PENUP".toList [] table'' := by
  refine ⟨_, _, rfl, rfl, rfl, rfl, ?_⟩
  rintro ⟨table'', hcall⟩
  exact hcall.not_mem_reservedWords rfl (by decide)

end LogoLang
