import LogoLang.Proofs.Run.Effects
import LogoLang.Proofs.Syntax.Nodes
import Mathlib.Logic.Relation

set_option autoImplicit false

/-! # Steps and runs of a program

`Config.Moves` lists what a step can do, one constructor for each effect, and `Config.Refuses` how a
step can be refused. A property that all moves keep holds wherever a run comes to
(`Config.Reaches.invariant`), and a run that is refused is refused by a step from there
(`Config.run_eq_refused`). -/

namespace LogoLang

variable {p : Program}

/-! ## Steps -/

/-- The configuration once the statement's expressions have been evaluated. -/
def Config.decided (p : Program) (c : Config) (stmt : Stmt) : Config :=
  c.asked (stmt.effect p c.env c.turtle).trace

@[simp]
theorem Config.decided_blocks (c : Config) (stmt : Stmt) :
    (c.decided p stmt).blocks = c.blocks := rfl

@[simp]
theorem Config.decided_env (c : Config) (stmt : Stmt) : (c.decided p stmt).env = c.env := rfl

@[simp]
theorem Config.decided_turtle (c : Config) (stmt : Stmt) :
    (c.decided p stmt).turtle = c.turtle := rfl

/-- The moves of a run. All but the first do the statement `stmt` at the head of the innermost block,
    of which `rest` is left. -/
inductive Config.Moves (p : Program) (c : Config) : Config → Prop where
  | leave {caller : Option Environment} {outer : List Block}
      (hblocks : c.blocks = ⟨[], caller⟩ :: outer) :
      Config.Moves p c { c with blocks := outer, env := caller.getD c.env }
  | skip {stmt : Stmt} {rest : List Stmt} {caller : Option Environment} {outer : List Block}
      (hblocks : c.blocks = ⟨stmt :: rest, caller⟩ :: outer)
      (hdoes : stmt.Does p c.env c.turtle .skip) :
      Config.Moves p c { c.decided p stmt with blocks := ⟨rest, caller⟩ :: outer }
  | assign {stmt : Stmt} {rest : List Stmt} {caller : Option Environment} {outer : List Block}
      {name : Text} {value : Value} (hblocks : c.blocks = ⟨stmt :: rest, caller⟩ :: outer)
      (hdoes : stmt.Does p c.env c.turtle (.assign name value)) :
      Config.Moves p c
        { c.decided p stmt with
          blocks := ⟨rest, caller⟩ :: outer, env := c.env.bind name value }
  | act {stmt : Stmt} {rest : List Stmt} {caller : Option Environment} {outer : List Block}
      {action : Action} {answer : Answer} {turtle : Turtle}
      (hblocks : c.blocks = ⟨stmt :: rest, caller⟩ :: outer)
      (hdoes : stmt.Does p c.env c.turtle (.act action))
      (hperform : c.turtle.perform action = .ok (answer, turtle)) :
      Config.Moves p c
        { c.decided p stmt with
          blocks := ⟨rest, caller⟩ :: outer, turtle,
          log := .acted action answer :: (c.decided p stmt).log }
  | branch {stmt : Stmt} {rest body : List Stmt} {caller : Option Environment}
      {outer : List Block} (hblocks : c.blocks = ⟨stmt :: rest, caller⟩ :: outer)
      (hdoes : stmt.Does p c.env c.turtle (.branch body)) :
      Config.Moves p c
        { c.decided p stmt with blocks := ⟨body, none⟩ :: ⟨rest, caller⟩ :: outer }
  | loop {stmt : Stmt} {rest body : List Stmt} {caller : Option Environment}
      {outer : List Block} (hblocks : c.blocks = ⟨stmt :: rest, caller⟩ :: outer)
      (hdoes : stmt.Does p c.env c.turtle (.loop body)) :
      Config.Moves p c
        { c.decided p stmt with blocks := ⟨body, none⟩ :: ⟨stmt :: rest, caller⟩ :: outer }
  | call {stmt : Stmt} {rest : List Stmt} {caller : Option Environment} {outer : List Block}
      {name : Text} {f : Function} {args : List Value}
      (hblocks : c.blocks = ⟨stmt :: rest, caller⟩ :: outer)
      (hdoes : stmt.Does p c.env c.turtle (.call name f args)) :
      Config.Moves p c
        (Config.enter { c.decided p stmt with
          blocks := ⟨rest, caller⟩ :: outer,
          log := .entered stmt.line name args :: (c.decided p stmt).log } p f args)

/-- How a step is refused: the statement `stmt` at the head of the innermost block cannot be done, or
    the turtle does not do what it tells. -/
inductive Config.Refuses (p : Program) (c : Config) (stmt : Stmt) : Refusal → Prop where
  | fails {cause : Refusal} (hfails : stmt.Fails p c.env c.turtle cause) :
      Config.Refuses p c stmt cause
  | turtle {action : Action} {fault : TurtleFault}
      (hdoes : stmt.Does p c.env c.turtle (.act action))
      (hperform : c.turtle.perform action = .error fault) :
      Config.Refuses p c stmt (.turtle fault)

theorem Config.step_of_statement {c : Config} {stmt : Stmt} {rest : List Stmt}
    {caller : Option Environment} {outer : List Block}
    (hblocks : c.blocks = ⟨stmt :: rest, caller⟩ :: outer) :
    c.step p = match (stmt.effect p c.env c.turtle).result with
      | .error cause => .refused cause stmt.line (c.decided p stmt)
      | .ok effect => (c.decided p stmt).apply p stmt rest caller outer effect := by
  rw [Config.step, hblocks]
  rfl

theorem Config.step_of_does {c : Config} {stmt : Stmt} {rest : List Stmt}
    {caller : Option Environment} {outer : List Block} {effect : Effect}
    (hblocks : c.blocks = ⟨stmt :: rest, caller⟩ :: outer)
    (hdoes : stmt.Does p c.env c.turtle effect) :
    c.step p = (c.decided p stmt).apply p stmt rest caller outer effect := by
  rw [Config.step_of_statement hblocks, Stmt.effect_eq_ok_iff.2 hdoes]

theorem Config.moves_of_apply {c c' : Config} {stmt : Stmt} {rest : List Stmt}
    {caller : Option Environment} {outer : List Block} {effect : Effect}
    (hblocks : c.blocks = ⟨stmt :: rest, caller⟩ :: outer)
    (hdoes : stmt.Does p c.env c.turtle effect)
    (h : (c.decided p stmt).apply p stmt rest caller outer effect = .next c') :
    Config.Moves p c c' := by
  cases effect with
  | skip =>
    cases h
    exact .skip hblocks hdoes
  | assign name value =>
    cases h
    exact .assign hblocks hdoes
  | act action =>
    simp only [Config.apply] at h
    split at h
    · exact absurd h (by simp)
    · next answer turtle hperform =>
      cases h
      exact .act hblocks hdoes hperform
  | branch body =>
    cases h
    exact .branch hblocks hdoes
  | loop body =>
    cases h
    exact .loop hblocks hdoes
  | call name f args =>
    cases h
    exact .call hblocks hdoes

/-- The moves are all that a step does. -/
theorem Config.step_eq_next_iff {c c' : Config} : c.step p = .next c' ↔ Config.Moves p c c' := by
  constructor
  · intro h
    cases hblocks : c.blocks with
    | nil => simp [Config.step, hblocks] at h
    | cons block outer =>
      obtain ⟨stmts, caller⟩ := block
      cases stmts with
      | nil =>
        simp only [Config.step, hblocks, Step.next.injEq] at h
        subst h
        exact .leave hblocks
      | cons stmt rest =>
        rw [Config.step_of_statement hblocks] at h
        cases heffect : (stmt.effect p c.env c.turtle).result with
        | error cause => simp [heffect] at h
        | ok effect =>
          rw [heffect] at h
          exact Config.moves_of_apply hblocks (Stmt.effect_eq_ok_iff.1 heffect) h
  · intro h
    cases h with
    | leave hblocks => simp only [Config.step, hblocks]
    | skip hblocks hdoes => rw [Config.step_of_does hblocks hdoes, Config.apply]
    | assign hblocks hdoes =>
      rw [Config.step_of_does hblocks hdoes, Config.apply, Config.decided_env]
    | act hblocks hdoes hperform =>
      rw [Config.step_of_does hblocks hdoes]
      simp only [Config.apply, Config.decided_turtle, hperform]
    | branch hblocks hdoes => rw [Config.step_of_does hblocks hdoes, Config.apply]
    | loop hblocks hdoes => rw [Config.step_of_does hblocks hdoes, Config.apply]
    | call hblocks hdoes => rw [Config.step_of_does hblocks hdoes, Config.apply]

/-- A step that is refused stops at the statement that it was about to do, whose line it names. -/
theorem Config.step_eq_refused {c c' : Config} {cause : Refusal} {line : Nat}
    (h : c.step p = .refused cause line c') :
    ∃ stmt rest caller outer, c.blocks = ⟨stmt :: rest, caller⟩ :: outer ∧ line = stmt.line ∧
      c' = c.decided p stmt ∧ Config.Refuses p c stmt cause := by
  cases hblocks : c.blocks with
  | nil => simp [Config.step, hblocks] at h
  | cons block outer =>
    obtain ⟨stmts, caller⟩ := block
    cases stmts with
    | nil => simp [Config.step, hblocks] at h
    | cons stmt rest =>
      refine ⟨stmt, rest, caller, outer, rfl, ?_⟩
      rw [Config.step_of_statement hblocks] at h
      cases heffect : (stmt.effect p c.env c.turtle).result with
      | error cause' =>
        rw [heffect] at h
        cases h
        exact ⟨rfl, rfl, .fails (Stmt.effect_eq_error_iff.1 heffect)⟩
      | ok effect =>
        rw [heffect] at h
        cases effect with
        | act action =>
          simp only [Config.apply] at h
          split at h
          · next fault hperform =>
            cases h
            exact ⟨rfl, rfl, .turtle (Stmt.effect_eq_ok_iff.1 heffect) hperform⟩
          · exact absurd h (by simp)
        | skip | assign name value | branch body | loop body | call name f args =>
          simp [Config.apply] at h

/-! ## Runs -/

/-- The configurations that a run can come to from a given one, in any number of steps. -/
def Config.Reaches (p : Program) : Config → Config → Prop :=
  Relation.ReflTransGen fun c c' => c.step p = .next c'

/-- What every move keeps holds wherever a run comes to. -/
theorem Config.Reaches.invariant {motive : Config → Prop} {c c' : Config}
    (h : Config.Reaches p c c') (hstart : motive c)
    (hmove : ∀ c c', motive c → Config.Moves p c c' → motive c') : motive c' := by
  induction h with
  | refl => exact hstart
  | tail _ hstep ih => exact hmove _ _ ih (Config.step_eq_next_iff.1 hstep)

/-- A run that is refused is refused by a step from a configuration that it comes to. -/
theorem Config.run_eq_refused {fuel : Nat} {c c' : Config} {cause : Refusal} {line : Nat}
    (h : c.run p fuel = (.refused cause line, c')) :
    ∃ mid, Config.Reaches p c mid ∧ mid.step p = .refused cause line c' := by
  induction fuel generalizing c with
  | zero => simp [Config.run] at h
  | succ fuel ih =>
    rw [Config.run] at h
    split at h
    · exact absurd h (by simp)
    · next hstep =>
      cases h
      exact ⟨c, .refl, hstep⟩
    · next next hstep =>
      split at h
      · exact absurd h (by simp)
      · obtain ⟨mid, hreach, hmid⟩ := ih h
        exact ⟨mid, .head hstep hreach, hmid⟩

theorem Config.exists_refused_step {fuel : Nat} {c : Config} {cause : Refusal} {line : Nat}
    (h : (c.run p fuel).1 = .refused cause line) :
    ∃ mid c', Config.Reaches p c mid ∧ mid.step p = .refused cause line c' := by
  obtain ⟨mid, hreach, hstep⟩ := Config.run_eq_refused (Prod.ext h rfl)
  exact ⟨mid, _, hreach, hstep⟩

/-! ## Calls -/

theorem Program.callee_eq_ok_iff {name : Text} {span : Span} {args : Nat} {f : Function} :
    p.callee name span args = .ok f ↔
      p.table.get? name = some f ∧ args ≤ f.paramNames.length ∧
        (p.privateVariables = true → args = f.paramNames.length) := by
  rw [Program.callee]
  cases p.table.get? name with
  | none => simp
  | some g =>
    simp only [Option.some.injEq]
    split
    · simp only [reduceCtorEq, false_iff]
      rintro ⟨rfl, hle, _⟩
      omega
    · split
      · simp only [reduceCtorEq, false_iff]
        rintro ⟨rfl, _, hall⟩
        have heq := hall (by simp_all)
        omega
      · next hmany hfew =>
        simp only [Except.ok.injEq]
        constructor
        · rintro rfl
          refine ⟨rfl, by omega, fun hprivate => ?_⟩
          have hnot : ¬ args < g.paramNames.length := fun hlt => hfew ⟨hprivate, hlt⟩
          omega
        · exact fun h => h.1

/-- A call opens a block with the body of the function. -/
theorem Config.enter_blocks (c : Config) (f : Function) (args : List Value) :
    (c.enter p f args).blocks =
      ⟨f.body, if p.privateVariables then some c.env else none⟩ :: c.blocks := by
  rw [Config.enter]
  split <;> rfl

/-! ## The statements that a run is at -/

theorem FunctionTable.mem_stmts_of_get? {table : FunctionTable} {name : Text} {f : Function}
    (h : table.get? name = some f) : ∀ stmt ∈ allStmts f.body, stmt ∈ table.stmts := by
  intro stmt hstmt
  exact List.mem_flatMap.2 ⟨(name, f), Bindings.mem_of_get? h, hstmt⟩

/-- Only statements of the program are open. -/
def Config.Within (table : FunctionTable) (c : Config) : Prop :=
  ∀ block ∈ c.blocks, ∀ stmt ∈ allStmts block.rest, stmt ∈ table.stmts

theorem Config.within_start (p : Program) (t : Turtle) : (Config.start p t).Within p.table := by
  intro block hblock stmt hstmt
  cases List.mem_singleton.1 hblock
  cases hmain : p.table.get? mainName with
  | none => simp [FunctionTable.mainBody?, hmain, allStmts] at hstmt
  | some f =>
    simp only [FunctionTable.mainBody?, hmain, Option.map_some, Option.getD_some] at hstmt
    exact FunctionTable.mem_stmts_of_get? hmain stmt hstmt

/-- The next statement, those after it in its block, and those of the blocks around. -/
theorem Config.Within.split {table : FunctionTable} {c : Config} {stmt : Stmt} {rest : List Stmt}
    {caller : Option Environment} {outer : List Block} (h : c.Within table)
    (hblocks : c.blocks = ⟨stmt :: rest, caller⟩ :: outer) :
    (∀ s ∈ stmt.all, s ∈ table.stmts) ∧ (∀ s ∈ allStmts rest, s ∈ table.stmts) ∧
      ∀ block ∈ outer, ∀ s ∈ allStmts block.rest, s ∈ table.stmts := by
  rw [Config.Within, hblocks, List.forall_mem_cons, allStmts, List.forall_mem_append] at h
  exact ⟨h.1.1, h.1.2, h.2⟩

theorem Config.Moves.within {c c' : Config} (h : Config.Moves p c c') (hc : c.Within p.table) :
    c'.Within p.table := by
  cases h with
  | leave hblocks =>
    rw [Config.Within, hblocks] at hc
    exact (List.forall_mem_cons.1 hc).2
  | skip hblocks hdoes | assign hblocks hdoes | act hblocks hdoes hperform =>
    obtain ⟨_, hrest, houter⟩ := hc.split hblocks
    exact List.forall_mem_cons.2 ⟨hrest, houter⟩
  | branch hblocks hdoes =>
    obtain ⟨hstmt, hrest, houter⟩ := hc.split hblocks
    cases hdoes
    have hbody := (List.forall_mem_cons.1 hstmt).2
    exact List.forall_mem_cons.2 ⟨hbody, List.forall_mem_cons.2 ⟨hrest, houter⟩⟩
  | loop hblocks hdoes =>
    obtain ⟨hstmt, hrest, houter⟩ := hc.split hblocks
    cases hdoes
    -- the loop stays open below its body
    have hbody := (List.forall_mem_cons.1 hstmt).2
    have hagain := List.forall_mem_append.2 ⟨hstmt, hrest⟩
    exact List.forall_mem_cons.2 ⟨hbody, List.forall_mem_cons.2 ⟨hagain, houter⟩⟩
  | call hblocks hdoes =>
    obtain ⟨_, hrest, houter⟩ := hc.split hblocks
    cases hdoes with
    | call hcallee hargs =>
      have hbody := FunctionTable.mem_stmts_of_get? (Program.callee_eq_ok_iff.1 hcallee).1
      rw [Config.Within, Config.enter_blocks]
      exact List.forall_mem_cons.2 ⟨hbody, List.forall_mem_cons.2 ⟨hrest, houter⟩⟩

/-- **A run does statements of its program only.** -/
theorem Config.Reaches.within {t : Turtle} {c : Config}
    (h : Config.Reaches p (Config.start p t) c) : c.Within p.table :=
  h.invariant (Config.within_start p t) fun _ _ hc hmove => hmove.within hc

/-- The statement that a run is about to do is one of the program. -/
theorem Config.Reaches.mem_stmts {t : Turtle} {c : Config} {stmt : Stmt} {rest : List Stmt}
    {caller : Option Environment} {outer : List Block}
    (h : Config.Reaches p (Config.start p t) c)
    (hblocks : c.blocks = ⟨stmt :: rest, caller⟩ :: outer) : stmt ∈ p.table.stmts :=
  (h.within.split hblocks).1 stmt stmt.self_mem_all

end LogoLang
