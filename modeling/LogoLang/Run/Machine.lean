import LogoLang.Program.FunctionTable
import LogoLang.Run.Evaluation

set_option autoImplicit false

/-! # Running a program

A program runs in steps. A step looks at the next statement, decides what it does (`Stmt.effect`), and
does it. Deciding evaluates the statement's expressions and may fail, but changes nothing, so that a
statement that fails has no effect. What is still to be done is a stack of open blocks: the innermost
body, the one around it, and so on, also across calls. -/

namespace LogoLang

/-- What a run needs to know of a program. With private variables every call has variables of its own,
which are its parameters; otherwise all calls share those of the top level. -/
structure Program where
  table : FunctionTable
  privateVariables : Bool

/-! ## Effects of statements -/

/-- What a statement does. -/
inductive Effect where
  | skip
  | assign (name : Text) (value : Value)
  | act (action : Action)
  /-- Runs a body, and then goes on after the statement. -/
  | branch (body : List Stmt)
  /-- Runs a body, and then comes back to the statement. -/
  | loop (body : List Stmt)
  | call (name : Text) (function : Function) (args : List Value)

/-- The name of a label. -/
def Label.require : Label → Except Refusal Text
  | .named name _ => .ok name
  | .malformed _ => .error .malformed

/-- The number to which an increment is added. -/
def Environment.readNumber (env : Environment) (name : Text) (span : Span) :
    Except Refusal Float := do
  let v ← env.read name span
  v.asNumber span

/-- The number of a color. -/
def requireColor (span : Span) (index : Int) : Except Refusal Int :=
  if 0 ≤ index ∧ index < 16 then .ok index else .error (refusal .undefinedColor span)

/-- The action of a command. -/
def Command.action (env : Environment) (t : Turtle) (value : Expr) : Command → Asking Action
  | .forward => return .move 0 (← value.evalNumber env t)
  | .back => return .move 180 (← value.evalNumber env t)
  | .left => return .move (-90) (← value.evalNumber env t)
  | .right => return .move 90 (← value.evalNumber env t)
  | .setPenColor => do
    let index ← value.evalInteger env t
    return .setPenColor (← .ofExcept (requireColor value.span index))
  | .turn => return .turn (← value.evalInteger env t)
  | .setHeading => return .setHeading (← value.evalInteger env t)
  | .setX => return .setX (← value.evalNumber env t)
  | .setY => return .setY (← value.evalNumber env t)

/-- The function that a call names. It is at fault if there is none, if it has fewer parameters than
the call has arguments, and, with private variables, if it has more. -/
def Program.callee (p : Program) (name : Text) (span : Span) (args : Nat) :
    Except Refusal Function :=
  match p.table.get? name with
  | none => .error (refusal .undefinedFunction span)
  | some f =>
    if f.paramNames.length < args then .error (refusal .tooManyArguments span)
    else if p.privateVariables ∧ args < f.paramNames.length then
      .error (refusal .missingArguments span)
    else .ok f

/-- What a statement does, given the variables and the turtle. -/
def Stmt.effect (p : Program) (env : Environment) (t : Turtle) : Stmt → Asking Effect
  | .block kind condition body _ => do
    let holds ← condition.evalTruth env t
    match holds, kind with
    | false, _ => return .skip
    | true, .branch => return .branch body
    | true, .loop => return .loop body
  | .assign .make target value _ => do
    let v ← value.eval env t
    return .assign (← .ofExcept target.require) v
  | .assign .increase target value _ => do
    let name ← .ofExcept target.require
    let x ← .ofExcept (env.readNumber name target.span)
    let y ← value.evalNumber env t
    return .assign name (.number (single (x + y)))
  | .pen down _ => return .act (if down then .penDown else .penUp)
  | .command cmd value _ => return .act (← cmd.action env t value)
  | .call label args _ => do
    let name ← .ofExcept label.require
    let f ← .ofExcept (p.callee name label.span args.length)
    return .call name f (← evalAll env t args)
  | .comment _ _ => return .skip

/-! ## Configurations -/

/-- What is worth telling of a run. -/
inductive Event where
  | asked (query : Query) (answer : Answer)
  | acted (action : Action) (answer : Answer)
  | entered (line : Nat) (name : Text) (args : List Value)
deriving DecidableEq

/-- A body that is being run: the statements that are left of it and, if it is that of a call with
variables of its own, the variables of the caller. -/
structure Block where
  rest : List Stmt
  caller : Option Environment

/-- A running program: its open blocks, the innermost first, its variables, its turtle, and what has
happened so far, the latest event first. -/
structure Config where
  blocks : List Block
  env : Environment
  turtle : Turtle
  log : List Event

/-- What has happened so far, in order. -/
def Config.events (c : Config) : List Event := c.log.reverse

/-- The program before its first step: the parameters of all functions are declared. -/
def Config.start (p : Program) (t : Turtle) : Config where
  blocks := [⟨p.table.mainBody?.getD [], none⟩]
  env := Environment.declareAll [] p.table.allParams
  turtle := t
  log := []

/-- The variables of the top level. -/
def Config.topEnv (c : Config) : Environment :=
  c.blocks.foldl (fun env block => block.caller.getD env) c.env

/-- Records the questions that were asked. -/
def Config.asked (c : Config) (queries : List Query) : Config :=
  { c with log := (queries.map fun q => Event.asked q (c.turtle.answer q)).reverse ++ c.log }

/-- Enters the body of a function with the given arguments. -/
def Config.enter (c : Config) (p : Program) (f : Function) (args : List Value) : Config :=
  if p.privateVariables then
    { c with
      blocks := ⟨f.body, some c.env⟩ :: c.blocks
      env := Environment.bindAll [] f.paramNames args }
  else
    { c with
      blocks := ⟨f.body, none⟩ :: c.blocks
      env := (c.env.declareAll f.paramNames).bindAll f.paramNames args }

/-! ## Steps -/

/-- The outcome of a step. -/
inductive Step where
  | finished
  | next (c : Config)
  | refused (cause : Refusal) (line : Nat) (c : Config)

/-- Does what the statement `stmt` was found to do. The statement is the first one that is left of the
innermost block, `rest` and `caller` are what remains of that block after it, and `outer` are the
blocks around it. -/
def Config.apply (p : Program) (c : Config) (stmt : Stmt) (rest : List Stmt)
    (caller : Option Environment) (outer : List Block) : Effect → Step
  | .skip => .next { c with blocks := ⟨rest, caller⟩ :: outer }
  | .assign name value =>
    .next { c with blocks := ⟨rest, caller⟩ :: outer, env := c.env.bind name value }
  | .act action =>
    match c.turtle.perform action with
    | .error fault => .refused (.turtle fault) stmt.line c
    | .ok (answer, turtle) =>
      .next { c with
        blocks := ⟨rest, caller⟩ :: outer, turtle, log := .acted action answer :: c.log }
  | .branch body => .next { c with blocks := ⟨body, none⟩ :: ⟨rest, caller⟩ :: outer }
  | .loop body => .next { c with blocks := ⟨body, none⟩ :: ⟨stmt :: rest, caller⟩ :: outer }
  | .call name f args =>
    .next ({ c with
      blocks := ⟨rest, caller⟩ :: outer
      log := .entered stmt.line name args :: c.log }.enter p f args)

/-- One step of a run: the next statement, or the end of a block. -/
def Config.step (p : Program) (c : Config) : Step :=
  match c.blocks with
  | [] => .finished
  | ⟨[], caller⟩ :: outer => .next { c with blocks := outer, env := caller.getD c.env }
  | ⟨stmt :: rest, caller⟩ :: outer =>
    let decided := stmt.effect p c.env c.turtle
    let c := c.asked decided.trace
    match decided.result with
    | .error cause => .refused cause stmt.line c
    | .ok effect => c.apply p stmt rest caller outer effect

/-! ## Runs -/

/-- The number of blocks that may be open at a time. -/
def nestingLimit : Nat := 6600

/-- How a run ends. -/
inductive Ending where
  | finished
  | refused (cause : Refusal) (line : Nat)
  /-- More blocks are open than the limit allows. -/
  | nestedTooDeeply
  /-- The number of steps allowed is used up. -/
  | unfinished
deriving DecidableEq

/-- Runs for at most `fuel` steps. -/
def Config.run (p : Program) : Nat → Config → Ending × Config
  | 0, c => (.unfinished, c)
  | fuel + 1, c =>
    match c.step p with
    | .finished => (.finished, c)
    | .refused cause line c => (.refused cause line, c)
    | .next c =>
      if nestingLimit < c.blocks.length then (.nestedTooDeeply, c) else c.run p fuel

/-- The number of steps after which a run is given up. -/
def stepLimit : Nat := 1000000000000000

end LogoLang
