import LogoLang.Proofs.Emit.CalledNames
import LogoLang.Proofs.Emit.DefinedNames
import LogoLang.Proofs.Session.Emission
import LogoLang.Proofs.Session.WellFormed

set_option autoImplicit false

/-! # The class that an emitted program brings along

The class of turtles in an emitted module has just the methods that the program needs, in the order of
their names, and so every method that is called is there (`emitted_class_is_what_is_needed`). It makes no
difference what the emitter was used for before. -/

namespace LogoLang

/-- The methods are what the program needs: in the order of their names, and each of them once, they are
    what the class defines after the method that makes a turtle, and the code of each function calls those that its statements need, as often
    and in the same order, which are all defined. -/
structure FunctionTable.SupportedBy (table : FunctionTable) (methods : List Method)
    (codes : List Text) : Prop where
  needed : ∀ method, method ∈ methods ↔ table.Needs method
  sorted : methods.Pairwise fun method other => method.name.le other.name = true
  distinct : methods.Nodup
  defined : definedNames methodStarts (turtleClass methods) =
    "__init__".toList :: methods.map Method.name
  called : List.Forall₂ (fun entry code => ∃ lines, (entry.2.emitLines table).result = .ok lines ∧
    code = functionText entry.1 entry.2 lines ∧
    linesCalledNames lines = ((allStmts entry.2.body).flatMap Stmt.needs).map Method.name ∧
    ∀ name ∈ linesCalledNames lines, name ∈ definedNames methodStarts (turtleClass methods))
    table.entries codes

/-- A session emits what an emitter of its program does. -/
theorem Session.emit_eq_emitter (s : Session) :
    s.emit.result = ((Emitter.new s.table).emit s.options.canvas.1 s.options.canvas.2).2.mapError
        (EmitFailure.toFailure s.lines) ∧
      s.emit.methods =
        ((Emitter.new s.table).emit s.options.canvas.1 s.options.canvas.2).1.sortedMethods := by
  have hmethods := (Emitter.new s.table).sortedMethods_emit s.options.canvas.1 s.options.canvas.2
  refine ⟨?_, hmethods.symm⟩
  unfold Emitter.emit at hmethods ⊢
  cases hresult : s.table.emit.result with
  | ok codes =>
    rw [Session.emit_of_ok hresult]
    have hnew : (Emitter.new s.table).table.emit.result = .ok codes := hresult
    simp only [hnew, Except.map, Except.mapError, hmethods]
    rfl
  | error failure =>
    rw [Session.emit_of_error hresult]
    have hnew : (Emitter.new s.table).table.emit.result = .error failure := hresult
    simp only [hnew, Except.map, Except.mapError]

theorem Emitter.supportedBy {e : Emitter} {width height : Measure} {codes : List Text}
    (hform : e.table.WellFormed) (hcodes : e.table.emit.result = .ok codes) :
    e.table.SupportedBy (e.emit width height).1.sortedMethods codes := by
  have hneeded : ∀ method, method ∈ (e.emit width height).1.sortedMethods ↔
      e.table.Needs method := by
    intro method
    rw [Emitter.sortedMethods, List.mem_mergeSort, Emitter.mem_methods_emit,
      FunctionTable.mem_trace_emit hcodes]
  have hdefined := definedNames_turtleClass (e.emit width height).1.sortedMethods
  have hmethods := Emitter.sortedMethods_eq (e.nodup_methods_emit width height)
  refine ⟨hneeded, ?_, ?_, hdefined, ?_⟩
  · rw [hmethods]
    exact Method.pairwise_all.filter _
  · rw [hmethods]
    exact Method.nodup_all.filter _
  · have hemitted := emitFunctions_eq_ok_iff.1 hcodes
    have hboth := (List.forall₂_and_left _ _).2 ⟨fun entry hentry => hentry, hemitted⟩
    refine hboth.imp ?_
    rintro entry code ⟨hentry, lines, hlines, rfl⟩
    have hstmts : ∀ stmt ∈ allStmts entry.2.body, stmt ∈ e.table.stmts := fun stmt hstmt =>
      List.mem_flatMap.2 ⟨entry, hentry, hstmt⟩
    have hcalled := calledNames_of_emitLines
      (fun stmt hstmt => hform.stmts stmt (hstmts stmt hstmt)) hlines
    refine ⟨lines, hlines, rfl, hcalled, fun name hname => ?_⟩
    -- what is called is needed, and what is needed is defined
    rw [hcalled] at hname
    obtain ⟨method, hmethod, rfl⟩ := List.mem_map.1 hname
    obtain ⟨stmt, hstmt, hneeds⟩ := List.mem_flatMap.1 hmethod
    rw [hdefined]
    exact List.mem_cons_of_mem _
      (List.mem_map_of_mem ((hneeded method).2 ⟨stmt, hstmts stmt hstmt, hneeds⟩))

/-- **The emitted class is what the program needs**, for every accepted program that is emitted, and
    whatever its emitter was used for before. The emitter then holds the methods that some statement of
    the program needs, and these are the ones that the class in the module has. -/
theorem emitted_class_is_what_is_needed {lines : List Text} {e : Emitter}
    (hparse : parseProgram lines = .ok e.table) (sizes : List (Measure × Measure))
    {width height : Measure} {module : Text}
    (hemit : ((e.after sizes).emit width height).2 = .ok module) :
    (∀ method, method ∈ ((e.after sizes).emit width height).1.methods ↔ e.table.Needs method) ∧
      ∃ codes, module = Text.join "\n\n".toList (moduleHeader.toList :: codes ++
          [turtleClass ((e.after sizes).emit width height).1.sortedMethods,
            moduleFooter width height]) ∧
        e.table.SupportedBy ((e.after sizes).emit width height).1.sortedMethods codes := by
  rw [Emitter.emit_after] at hemit ⊢
  obtain ⟨codes, hcodes, rfl⟩ := Emitter.emit_eq_ok_iff.1 hemit
  have hform := (takenFrom_of_parseProgram hparse).wellFormed
  refine ⟨fun method => Emitter.mem_methods_iff hemit, codes, rfl, ?_⟩
  exact Emitter.supportedBy hform hcodes

/-- A program that needs a method at the top level and others in a loop of a function that nothing
    calls. Its emitter held other methods before, and was used twice. -/
theorem emitted_class_is_what_is_needed_twice :
    ∃ (e : Emitter) (module : Text), e.methods = [.turn, .color] ∧
      parseProgram ["TO f".toList, "WHILE LT XCOR \"9 [".toList, "BACK HEADING".toList, "]".toList,
        "END".toList, "PENDOWN".toList] = .ok e.table ∧
      ((e.after [(.whole 1, .whole 2), (.default, .default)]).emit .default .default).2 =
        .ok module ∧
      ∀ method, method ∈ ((e.after [(.whole 1, .whole 2), (.default, .default)]).emit
        .default .default).1.methods ↔ e.table.Needs method := by
  obtain ⟨table, hparse, hemitted⟩ := Except.exists_of_any
    (m := parseProgram ["TO f".toList, "WHILE LT XCOR \"9 [".toList, "BACK HEADING".toList,
      "]".toList, "END".toList, "PENDOWN".toList])
    (p := fun table => table.emit.result.isOk) (by decide +kernel)
  obtain ⟨codes, hcodes⟩ := Except.exists_of_isOk hemitted
  obtain ⟨e, rfl, hmethods⟩ : ∃ e : Emitter, e.table = table ∧ e.methods = [.turn, .color] :=
    ⟨⟨table, [.turn, .color]⟩, rfl, rfl⟩
  obtain ⟨module, hemit⟩ : ∃ module, (e.emit .default .default).2 = .ok module :=
    ⟨_, Emitter.emit_eq_ok_iff.2 ⟨codes, hcodes, rfl⟩⟩
  rw [← e.emit_after [(.whole 1, .whole 2), (.default, .default)]] at hemit
  exact ⟨e, module, hmethods, hparse, hemit, (emitted_class_is_what_is_needed hparse _ hemit).1⟩

end LogoLang
