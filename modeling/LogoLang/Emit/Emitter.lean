import LogoLang.Emit.Module

set_option autoImplicit false

/-! # Emitters

An emitter can be asked for the module of its program again and again. It keeps a set of the methods
that the last emission took note of, up to a failure if there was one, and the module brings along just
these. -/

namespace LogoLang

/-- An emitter of a program, with the methods noted last, each of them once. -/
structure Emitter where
  table : FunctionTable
  methods : List Method

/-- An emitter that has not been used yet. -/
def Emitter.new (table : FunctionTable) : Emitter := ⟨table, []⟩

/-- Takes note of a method that the emitted code uses. -/
def Emitter.take (e : Emitter) : EmitNote → Emitter
  | .uses method => { e with methods := e.methods.insert method }
  | .wrote _ _ => e

/-- The methods that an emitter has noted, in the order of their names. -/
def Emitter.sortedMethods (e : Emitter) : List Method :=
  e.methods.mergeSort fun a b => a.name.le b.name

/-- Emits the program once more. What was noted before is forgotten. -/
def Emitter.emit (e : Emitter) (width height : Measure) : Emitter × Except EmitFailure Text :=
  let emitted := e.table.emit
  let e := emitted.trace.foldl Emitter.take { e with methods := [] }
  (e, emitted.result.map fun functions => moduleText functions e.sortedMethods width height)

end LogoLang
