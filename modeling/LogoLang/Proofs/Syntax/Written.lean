import LogoLang.Proofs.Syntax.Bare
import LogoLang.Syntax.Statement

set_option autoImplicit false

/-! # Programs and how they are written

Abstract programs, in which every name is valid and every number is one, and the lines that they are
written on: one statement a line, in prefix notation with a single space between two words. The tree
of an abstract program is what reading the lines should give, up to the places. -/

namespace LogoLang

/-! ## Words -/

/-- A name of a variable or of a function. -/
structure Name where
  text : Text
  valid : isValidName text = true

/-- The words that cannot be used to call a function. -/
def reservedWords : List Text := toKeyword :: endKeyword :: stmtKeywords.map Prod.fst

/-- A name by which a function can be called. -/
structure CallName extends Name where
  free : text ∉ reservedWords

/-- The digits, points and minus signs of a number. -/
structure NumberLiteral where
  text : Text
  chars : ∀ c ∈ text, isNumberChar c = true
  accepted : (singleOfLiteral? text).isSome = true

/-- The number of single precision that a literal stands for. -/
def NumberLiteral.value (literal : NumberLiteral) : Float :=
  (singleOfLiteral? literal.text).get literal.accepted

/-- What a comment says. -/
structure Remark where
  text : Text
  trimmed : text.trim = text

/-- An operator as it is written. -/
def BinaryOp.keyword : BinaryOp → Text
  | .add => "+".toList
  | .sub => "-".toList
  | .mul => "*".toList
  | .div => "/".toList
  | .eq => "EQ".toList
  | .ne => "NE".toList
  | .lt => "LT".toList
  | .gt => "GT".toList
  | .and => "AND".toList
  | .or => "OR".toList

/-- A question to the turtle as it is written. -/
def Query.keyword : Query → Text
  | .x => "XCOR".toList
  | .y => "YCOR".toList
  | .heading => "HEADING".toList
  | .color => "COLOR".toList

/-- A truth value as it is written. -/
def truthKeyword (value : Bool) : Text := if value then "\"TRUE".toList else "\"FALSE".toList

/-- The word that starts a block. -/
def BlockKind.keyword : BlockKind → Text
  | .branch => "IF".toList
  | .loop => "WHILE".toList

/-- The word that starts an assignment. -/
def AssignKind.keyword : AssignKind → Text
  | .make => "MAKE".toList
  | .increase => "ADDASSIGN".toList

/-- The word that moves the pen. -/
def penKeyword (down : Bool) : Text := if down then "PENDOWN".toList else "PENUP".toList

/-- The word of a command. -/
def Command.keyword : Command → Text
  | .forward => "FORWARD".toList
  | .back => "BACK".toList
  | .left => "LEFT".toList
  | .right => "RIGHT".toList
  | .setPenColor => "SETPENCOLOR".toList
  | .turn => "TURN".toList
  | .setHeading => "SETHEADING".toList
  | .setX => "SETX".toList
  | .setY => "SETY".toList

/-! ## Terms -/

/-- An expression without flaws. -/
inductive Term where
  | truth (value : Bool)
  | number (literal : NumberLiteral)
  | var (name : Name)
  | query (query : Query)
  | binary (op : BinaryOp) (left right : Term)

/-- A term as it is written. -/
def Term.print : Term → Text
  | .truth value => truthKeyword value
  | .number literal => '"' :: literal.text
  | .var name => ':' :: name.text
  | .query q => q.keyword
  | .binary op left right => op.keyword ++ ' ' :: left.print ++ ' ' :: right.print

/-- The tree of a term. -/
def Term.expr : Term → Expr
  | .truth value => .truth value .nowhere
  | .number literal => .number literal.value .nowhere
  | .var name => .var name.text .nowhere
  | .query q => .query q .nowhere
  | .binary op left right => .binary op left.expr right.expr .nowhere

/-- Words with a space before each of them. -/
def spaced (words : List Text) : Text := words.flatMap (' ' :: ·)

/-- A name as the target of an assignment and as a parameter. -/
def Name.quoted (name : Name) : Text := '"' :: name.text

/-- The label of a name. -/
def Name.label (name : Name) : Label := .named name.text .nowhere

/-! ## Phrases -/

/-- A statement without flaws. -/
inductive Phrase where
  | block (kind : BlockKind) (condition : Term) (body : List Phrase)
  | assign (kind : AssignKind) (target : Name) (value : Term)
  | pen (down : Bool)
  | command (command : Command) (value : Term)
  | call (name : CallName) (args : List Term)
  | comment (remark : Remark)

/-- The line that opens a block. -/
def headerLine (kind : BlockKind) (condition : Term) : Text :=
  kind.keyword ++ ' ' :: condition.print ++ " [".toList

mutual

/-- The lines of a phrase. -/
def Phrase.lines : Phrase → List Text
  | .block kind condition body => headerLine kind condition :: (bodyLines body ++ [[']']])
  | .assign kind target value => [kind.keyword ++ ' ' :: target.quoted ++ ' ' :: value.print]
  | .pen down => [penKeyword down]
  | .command cmd value => [cmd.keyword ++ ' ' :: value.print]
  | .call name args => [name.text ++ spaced (args.map Term.print)]
  | .comment remark => ["// ".toList ++ remark.text]

/-- The lines of phrases one after the other. -/
def bodyLines : List Phrase → List Text
  | [] => []
  | phrase :: rest => phrase.lines ++ bodyLines rest

end

mutual

/-- The tree of a phrase whose first line has the given number. -/
def Phrase.stmt (line : Nat) : Phrase → Stmt
  | .block kind condition body => .block kind condition.expr (bodyStmts (line + 1) body) line
  | .assign kind target value => .assign kind target.label value.expr line
  | .pen down => .pen down line
  | .command cmd value => .command cmd value.expr line
  | .call name args => .call name.label (args.map Term.expr) line
  | .comment remark => .comment remark.text line

/-- The trees of phrases one after the other. -/
def bodyStmts (line : Nat) : List Phrase → List Stmt
  | [] => []
  | phrase :: rest => phrase.stmt line :: bodyStmts (line + phrase.lines.length) rest

end

/-! ## Programs -/

/-- The declaration of a function. -/
structure Declaration where
  name : Name
  params : List Name
  body : List Phrase

/-- The line that starts a declaration. -/
def Declaration.heading (d : Declaration) : Text :=
  toKeyword ++ ' ' :: d.name.text ++ spaced (d.params.map Name.quoted)

/-- The lines of a declaration. -/
def Declaration.lines (d : Declaration) : List Text :=
  d.heading :: (bodyLines d.body ++ [endKeyword])

/-- The function of a declaration whose heading has the given line number. -/
def Declaration.function (d : Declaration) (line : Nat) : Function :=
  ⟨d.params.map Name.label, bodyStmts (line + 1) d.body⟩

/-- A part of a program at the top level. -/
inductive Item where
  | phrase (phrase : Phrase)
  | declaration (declaration : Declaration)

/-- The lines of an item. -/
def Item.lines : Item → List Text
  | .phrase p => p.lines
  | .declaration d => d.lines

/-- The name that an item declares. -/
def Item.name? : Item → Option Text
  | .phrase _ => none
  | .declaration d => some d.name.text

/-- The functions of items, the first of which has the given line number. -/
def functionsOf (line : Nat) : List Item → List (Text × Function)
  | [] => []
  | .phrase p :: rest => functionsOf (line + p.lines.length) rest
  | .declaration d :: rest =>
    (d.name.text, d.function line) :: functionsOf (line + d.lines.length) rest

/-- The top-level statements of items, the first of which has the given line number. -/
def mainOf (line : Nat) : List Item → List Stmt
  | [] => []
  | .phrase p :: rest => p.stmt line :: mainOf (line + p.lines.length) rest
  | .declaration d :: rest => mainOf (line + d.lines.length) rest

/-- A program: phrases and declarations in any order, no two of which declare the same name. -/
structure AbstractProgram where
  items : List Item
  distinct : (items.filterMap Item.name?).Nodup

/-- The lines of a program. -/
def AbstractProgram.lines (p : AbstractProgram) : List Text := p.items.flatMap Item.lines

/-- The function table of a program. -/
def AbstractProgram.table (p : AbstractProgram) : FunctionTable :=
  ⟨functionsOf 0 p.items ++ [(mainName, ⟨[], mainOf 0 p.items⟩)]⟩

example : AbstractProgram.lines
    ⟨[.declaration ⟨⟨"step".toList, by decide⟩, [⟨"n".toList, by decide⟩],
        [.block .loop (.binary .gt (.var ⟨"n".toList, by decide⟩) (.query .x)) [.pen true]]⟩,
      .phrase (.call ⟨⟨"step".toList, by decide⟩, by decide⟩ [.truth false])], by decide⟩ =
    ["TO step \"n".toList, "WHILE GT :n XCOR [".toList, "PENDOWN".toList, "]".toList,
      "END".toList, "step \"FALSE".toList] := by
  decide

end LogoLang
