import LogoLang.Bindings
import LogoLang.Syntax.Tree
import LogoLang.Text.Quoted

set_option autoImplicit false

/-! # The function table

The functions of a program by name, in the order in which they were declared. The top-level program
is the entry with the empty name. -/

namespace LogoLang

/-- A function: its formal parameters and its body. -/
structure Function where
  params : List Label
  body : List Stmt

/-- The names of the well-formed parameters. -/
def Function.paramNames (f : Function) : List Text := f.params.filterMap Label.name?

/-- Functions by name, in the order of their insertion. -/
structure FunctionTable where
  entries : Bindings Function

/-- The name of the top-level program. -/
def mainName : Text := []

/-- A table with no entries. -/
def FunctionTable.empty : FunctionTable := ⟨[]⟩

/-- The names of the entries, in order. -/
def FunctionTable.names (table : FunctionTable) : List Text := table.entries.names

/-- The number of entries. -/
def FunctionTable.size (table : FunctionTable) : Nat := table.entries.length

/-- The function of a name. -/
def FunctionTable.get? (table : FunctionTable) (name : Text) : Option Function :=
  table.entries.get? name

/-- Whether a name has an entry. -/
def FunctionTable.contains (table : FunctionTable) (name : Text) : Bool :=
  (table.get? name).isSome

/-- Adds an entry at the end; a name that has an entry already is refused. -/
def FunctionTable.insert? (table : FunctionTable) (name : Text) (f : Function) :
    Option FunctionTable :=
  if table.contains name then none else some ⟨table.entries ++ [(name, f)]⟩

/-- The body of the top-level program. -/
def FunctionTable.mainBody? (table : FunctionTable) : Option (List Stmt) :=
  (table.get? mainName).map Function.body

/-- The number of formal parameters of a function. -/
def FunctionTable.arity? (table : FunctionTable) (name : Text) : Option Nat :=
  (table.get? name).map fun f => f.params.length

/-- The names of the parameters of all functions, in order. -/
def FunctionTable.allParams (table : FunctionTable) : List Text :=
  table.entries.flatMap fun (_, f) => f.paramNames

/-- What is said when a name is inserted a second time. -/
def duplicateMessage (name : Text) : Text :=
  "Function ".toList ++ name.quoted ++ " is already defined".toList

/-- The names of a table as they are shown. -/
def FunctionTable.toText (table : FunctionTable) : Text :=
  "FunctionTable([".toList ++ Text.join ", ".toList (table.names.map Text.quoted) ++ "])".toList

end LogoLang
