import LogoLang.Bindings
import LogoLang.Number.Decimal
import LogoLang.Text.Quoted

set_option autoImplicit false

/-! # Values and variables

A running program computes with numbers and truth values. A variable is missing as long as nothing
names it, declared once it is known as a parameter, and bound when it has a value. -/

namespace LogoLang

/-! ## Values -/

/-- What an expression evaluates to. -/
inductive Value where
  | number (x : Float)
  | truth (b : Bool)
deriving DecidableEq

/-- Whether a value is a truth value. -/
def Value.isTruth : Value → Bool
  | .number _ => false
  | .truth _ => true

/-- A value as it is shown. -/
def Value.toText : Value → Text
  | .number x => Text.ofDouble x
  | .truth b => Text.ofBool b

/-- Values in parentheses; a single one is followed by a comma. -/
def Value.tupleToText : List Value → Text
  | [v] => '(' :: v.toText ++ ",)".toList
  | vs => '(' :: Text.join ", ".toList (vs.map Value.toText) ++ [')']

/-! ## Environments -/

/-- The variables of a program; a declared variable has the value `none`. -/
abbrev Environment := Bindings (Option Value)

/-- Declares a name, which keeps its value if it has one. -/
def Environment.declare (env : Environment) (name : Text) : Environment :=
  if Bindings.contains env name then env else Bindings.set env name none

/-- Declares names one after the other. -/
def Environment.declareAll (env : Environment) (names : List Text) : Environment :=
  names.foldl Environment.declare env

/-- Gives a name a value. -/
def Environment.bind (env : Environment) (name : Text) (value : Value) : Environment :=
  Bindings.set env name (some value)

/-- Gives names values, as far as there are as many of both. -/
def Environment.bindAll (env : Environment) (names : List Text) (values : List Value) :
    Environment :=
  Bindings.setAll env (names.zip (values.map some))

/-- A variable's value as it is shown. -/
def valueToText : Option Value → Text
  | none => "UNBOUND".toList
  | some v => v.toText

/-- An environment as it is shown. -/
def Environment.toText (env : Environment) : Text :=
  let entries := env.map fun (name, value) => name.quoted ++ ": ".toList ++ valueToText value
  "Environment(\x7b".toList ++ Text.join ", ".toList entries ++ "\x7d)".toList

end LogoLang
