import LogoLang.Proofs.Number.Exact
import LogoLang.Proofs.Run.Deeds
import LogoLang.Proofs.Run.HeadingRange

set_option autoImplicit false

/-! # What a run tells the turtle

A turtle takes the number of a color from 0 to 15, whole degrees, and numbers for distances and
coordinates. A run keeps to that in all that it tells the turtle (`turtle_contract`), also where the
turtle then refuses a move, so that no color is ever refused. -/

namespace LogoLang

/-! ## Orders -/

/-- What a deed tells the turtle. -/
def Deed.action? : Deed → Option Action
  | .acted action => some action
  | .assigned .. | .entered .. | .returned => none

/-- What an event tells of the turtle's doings. -/
def Event.action? : Event → Option Action
  | .acted action _ => some action
  | .asked .. | .entered .. => none

/-- What the next step tells the turtle to do, whether it then does it or not. -/
def Config.order? (p : Program) (c : Config) : Option Action := (c.deed? p).bind Deed.action?

/-- What a run of at most `fuel` steps tells the turtle to do, in order. -/
def Config.orders (p : Program) : Nat → Config → List Action
  | 0, _ => []
  | fuel + 1, c =>
    (c.order? p).toList ++
      match c.step p with
      | .finished => []
      | .refused .. => []
      | .next c' => if nestingLimit < c'.blocks.length then [] else c'.orders p fuel

/-- What the turtle has done so far. -/
def Config.acted (c : Config) : List Action := c.events.filterMap Event.action?

variable {p : Program} {c c' : Config}

theorem Config.acted_eq_told (c : Config) : c.acted = c.told.filterMap Deed.action? := by
  rw [Config.acted, Config.told, List.filterMap_filterMap]
  refine List.filterMap_congr fun event _ => ?_
  cases event <;> rfl

/-- A step is done with what it tells the turtle. -/
theorem Config.Moves.acted_eq (h : Config.Moves p c c') :
    c'.acted = c.acted ++ (c.order? p).toList := by
  have hlogged (deed? : Option Deed) : (deed?.toList.filter Deed.isLogged).filterMap Deed.action? =
      (deed?.bind Deed.action?).toList := by
    cases deed? with
    | none => rfl
    | some deed => cases deed <;> rfl
  rw [Config.acted_eq_told, Config.acted_eq_told, h.told_eq, List.filterMap_append, hlogged]
  rfl

/-- The turtle does what it is told until it refuses. -/
theorem Config.acted_run_prefix (fuel : Nat) (c : Config) :
    (c.run p fuel).2.acted <+: c.acted ++ c.orders p fuel := by
  induction fuel generalizing c with
  | zero => exact List.prefix_append _ _
  | succ fuel ih =>
    unfold Config.run Config.orders
    cases hstep : c.step p with
    | finished => exact List.prefix_append _ _
    | refused cause line last =>
      have htold := (Config.store_of_step_refused hstep).2.2
      simp only
      rw [Config.acted_eq_told, htold, ← Config.acted_eq_told]
      exact List.prefix_append _ _
    | next mid =>
      simp only
      rw [← List.append_assoc, ← (Config.step_eq_next_iff.1 hstep).acted_eq]
      split
      · exact List.prefix_append _ _
      · exact ih mid

/-- What a run tells the turtle is told in one of its steps. -/
theorem Config.exists_of_mem_orders {fuel : Nat} {action : Action} (h : action ∈ c.orders p fuel) :
    ∃ mid, Config.Reaches p c mid ∧ mid.order? p = some action := by
  induction fuel generalizing c with
  | zero => exact absurd h List.not_mem_nil
  | succ fuel ih =>
    unfold Config.orders at h
    rcases List.mem_append.1 h with hnow | hlater
    · exact ⟨c, .refl, Option.mem_toList.1 hnow⟩
    · cases hstep : c.step p with
      | finished | refused =>
        rw [hstep] at hlater
        exact absurd hlater List.not_mem_nil
      | next next =>
        simp only [hstep] at hlater
        split at hlater
        · exact absurd hlater List.not_mem_nil
        · obtain ⟨mid, hreach, horder⟩ := ih hlater
          exact ⟨mid, .head hstep hreach, horder⟩

/-- It is the next statement that tells the turtle something. -/
theorem Config.does_of_order? {action : Action} (h : c.order? p = some action) :
    ∃ stmt rest caller outer, c.blocks = ⟨stmt :: rest, caller⟩ :: outer ∧
      stmt.Does p c.env c.turtle (.act action) := by
  unfold Config.order? Config.deed? at h
  split at h
  · exact absurd h (by simp)
  · next caller outer _ => cases caller <;> exact absurd h (by simp [Deed.action?])
  · next stmt rest caller outer hblocks =>
    refine ⟨stmt, rest, caller, outer, hblocks, Stmt.effect_eq_ok_iff.1 ?_⟩
    cases heffect : (stmt.effect p c.env c.turtle).result with
    | error cause => simp [heffect, Except.toOption] at h
    | ok effect => cases effect <;> simp_all [Except.toOption, Effect.deed?, Deed.action?]

/-! ## Statements that tell the turtle something -/

/-- What a statement may tell the turtle. Whatever comes from an operand is a number that the operand
    evaluates to, and an integer is equal to that number. -/
inductive Stmt.Tells (env : Environment) (t : Turtle) : Stmt → Action → Prop where
  | pen {down : Bool} {line : Nat} :
      Stmt.Tells env t (.pen down line) (if down then .penDown else .penUp)
  | move {cmd : Command} {value : Expr} {line : Nat} {offset : Int} {x : Float}
      (hoffset : cmd.offset? = some offset) (hvalue : (value.eval env t).result = .ok (.number x)) :
      Stmt.Tells env t (.command cmd value line) (.move offset x)
  | setPenColor {value : Expr} {line : Nat} {x : Float} {n : Int}
      (hvalue : (value.eval env t).result = .ok (.number x)) (hequal : exactValue? x = some (n : ℚ))
      (hrange : 0 ≤ n ∧ n ≤ 15) :
      Stmt.Tells env t (.command .setPenColor value line) (.setPenColor n)
  | turn {value : Expr} {line : Nat} {x : Float} {n : Int}
      (hvalue : (value.eval env t).result = .ok (.number x))
      (hequal : exactValue? x = some (n : ℚ)) :
      Stmt.Tells env t (.command .turn value line) (.turn n)
  | setHeading {value : Expr} {line : Nat} {x : Float} {n : Int}
      (hvalue : (value.eval env t).result = .ok (.number x))
      (hequal : exactValue? x = some (n : ℚ)) :
      Stmt.Tells env t (.command .setHeading value line) (.setHeading n)
  | setX {value : Expr} {line : Nat} {x : Float}
      (hvalue : (value.eval env t).result = .ok (.number x)) :
      Stmt.Tells env t (.command .setX value line) (.setX x)
  | setY {value : Expr} {line : Nat} {x : Float}
      (hvalue : (value.eval env t).result = .ok (.number x)) :
      Stmt.Tells env t (.command .setY value line) (.setY x)

/-- **A statement tells the turtle nothing that it does not take.** -/
theorem Stmt.Does.tells {env : Environment} {t : Turtle} {stmt : Stmt} {action : Action}
    (h : stmt.Does p env t (.act action)) : stmt.Tells env t action := by
  cases h with
  | pen => exact .pen
  | command haction =>
    cases Command.tells_of_action haction with
    | move hoffset hvalue => exact .move hoffset hvalue
    | setPenColor hvalue hinteger hrange =>
      exact .setPenColor hvalue (integerOf?_eq_some_iff.1 hinteger) (by omega)
    | turn hvalue hinteger => exact .turn hvalue (integerOf?_eq_some_iff.1 hinteger)
    | setHeading hvalue hinteger => exact .setHeading hvalue (integerOf?_eq_some_iff.1 hinteger)
    | setX hvalue => exact .setX hvalue
    | setY hvalue => exact .setY hvalue

/-! ## Runs -/

/-- **A run keeps to what the turtle takes.** In either call mode, on any turtle and for any number of
    steps, whatever the run tells the turtle is told by a statement of the program that it has come to,
    with the variables and the turtle as they are there: a color is an integer from 0 to 15, degrees are
    an integer that is equal to the value of the operand, the offset of a move is that of its command,
    and distances and coordinates are numbers. The turtle does all of it in order, but for what it
    refuses at the end of the run, and that is never a color. -/
theorem turtle_contract (p : Program) (t : Turtle) (fuel : Nat) :
    (∀ action ∈ (Config.start p t).orders p fuel, ∃ c stmt rest caller outer,
      Config.Reaches p (Config.start p t) c ∧ c.blocks = ⟨stmt :: rest, caller⟩ :: outer ∧
        stmt ∈ p.table.stmts ∧ stmt.Tells c.env c.turtle action) ∧
    ((Config.start p t).run p fuel).2.acted <+: (Config.start p t).orders p fuel ∧
    ∀ index line,
      ((Config.start p t).run p fuel).1 ≠ .refused (.turtle (.colorOutOfRange index)) line := by
  refine ⟨fun action haction => ?_, Config.acted_run_prefix fuel (Config.start p t), ?_⟩
  · obtain ⟨c, hreach, horder⟩ := Config.exists_of_mem_orders haction
    obtain ⟨stmt, rest, caller, outer, hblocks, hdoes⟩ := Config.does_of_order? horder
    exact ⟨c, stmt, rest, caller, outer, hreach, hblocks, hreach.mem_stmts hblocks, hdoes.tells⟩
  · intro index line hend
    obtain ⟨c, c', _, hstep⟩ := Config.exists_refused_step hend
    exact absurd (Config.losesHeading_of_step hstep).1 (by simp)

/-- A truth value is refused before the turtle is told anything. -/
example : (parseProgram ["SETPENCOLOR \"3.0".toList, "TURN - \"0 \"90".toList, "BACK \"2".toList,
    "SETX \"TRUE".toList]).toOption.map (fun table =>
      (Config.start ⟨table, false⟩ ⟨.default, .default, 200, 200, 0, false, 7, [], []⟩).orders
        ⟨table, false⟩ 9) = some [.setPenColor 3, .turn (-90), .move 180 2] := by
  decide +kernel

end LogoLang
