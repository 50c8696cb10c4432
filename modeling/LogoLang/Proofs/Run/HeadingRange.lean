import LogoLang.Proofs.Number.Double
import LogoLang.Proofs.Run.Refusals
import LogoLang.Proofs.Run.Steps

set_option autoImplicit false

/-! # Headings out of range

A heading is an integer of any size, but a double when it is asked for or moved along. A computation
that asks for a heading that has no double stops right there, and the turtle refuses nothing else
(`StopsAtHeading`). For a step of a run this is what `Config.LosesHeading` says
(`Config.losesHeading_of_step`, `Config.LosesHeading.step_eq`). -/

namespace LogoLang

variable {p : Program} {env : Environment} {t : Turtle} {α β : Type}

/-! ## Questions -/

/-- The turtle refuses the computation exactly if this asks for a heading that is out of range. -/
def StopsAtHeading (t : Turtle) (m : Asking α) : Prop :=
  ∀ fault, m.result = .error (.turtle fault) ↔
    fault = .headingTooLarge ∧ .heading ∈ m.trace ∧ doubleOverflow ≤ t.direction.natAbs

theorem StopsAtHeading.pure (a : α) : StopsAtHeading t (pure a : Asking α) := by
  intro fault
  simp

theorem StopsAtHeading.ofExcept {result : Except Refusal α}
    (h : ∀ fault, result ≠ .error (.turtle fault)) :
    StopsAtHeading t (.ofExcept result : Asking α) := by
  intro fault
  rw [Traced.result_ofExcept, iff_false_left (h fault)]
  rintro ⟨_, hmem, _⟩
  exact absurd hmem List.not_mem_nil

theorem StopsAtHeading.bind {m : Asking α} {f : α → Asking β} (hm : StopsAtHeading t m)
    (hf : ∀ a, StopsAtHeading t (f a)) : StopsAtHeading t (m >>= f) := by
  intro fault
  rw [Traced.bind_eq_error_iff]
  cases hresult : m.result with
  | error cause =>
    rw [Traced.trace_bind_error hresult, ← hm fault, hresult]
    simp
  | ok a =>
    rw [Traced.trace_bind_ok hresult, List.mem_append]
    constructor
    · rintro (h | ⟨_, ha, h⟩)
      · exact absurd h (by simp)
      · cases ha
        obtain ⟨hfault, hmem, hover⟩ := (hf a fault).1 h
        exact ⟨hfault, Or.inr hmem, hover⟩
    · rintro ⟨hfault, hmem | hmem, hover⟩
      · -- the first part would have stopped
        have hstop := (hm fault).2 ⟨hfault, hmem, hover⟩
        rw [hresult] at hstop
        exact absurd hstop (by simp)
      · exact Or.inr ⟨a, rfl, (hf a fault).2 ⟨hfault, hmem, hover⟩⟩

theorem refusal_ne_turtle {cause : Refusal} {kind : ErrorKind} {span : Span} {fault : TurtleFault}
    (h : cause = refusal kind span) : cause ≠ .turtle fault := by
  rw [h]
  simp [refusal]

theorem Turtle.measure_eq_error_iff {q : Query} {cause : Refusal} :
    t.measure q = .error cause ↔ q = .heading ∧ doubleOverflow ≤ t.direction.natAbs ∧
      cause = .turtle .headingTooLarge := by
  rw [← doubleOfInt?_eq_none_iff]
  constructor
  · exact Turtle.measure_eq_error
  · rintro ⟨rfl, hnone, rfl⟩
    simp only [Turtle.measure, hnone]

theorem Expr.stopsAtHeading_query (q : Query) (span : Span) :
    StopsAtHeading t ((Expr.query q span).eval env t) := by
  intro fault
  rw [Expr.trace_query, List.mem_singleton]
  simp only [Expr.eval, Traced.bind_eq_error_iff, Traced.result_ofExcept]
  constructor
  · rintro (h | ⟨_, _, h | ⟨x, _, h⟩⟩)
    · exact absurd h (by simp)
    · obtain ⟨hq, hover, hcause⟩ := Turtle.measure_eq_error_iff.1 h
      exact ⟨Refusal.turtle.inj hcause, hq.symm, hover⟩
    · exact absurd h (by simp)
  · rintro ⟨rfl, rfl, hover⟩
    exact Or.inr ⟨(), rfl, Or.inl (Turtle.measure_eq_error_iff.2 ⟨rfl, hover, rfl⟩)⟩

theorem Expr.stopsAtHeading (expr : Expr) : StopsAtHeading t (expr.eval env t) := by
  induction expr with
  | truth value span | number value span => exact .pure _
  | malformed flaw => exact .ofExcept fun fault => by simp
  | var name span =>
    refine .ofExcept fun fault h => ?_
    rcases Environment.read_eq_error h with hcause | hcause
    · exact refusal_ne_turtle hcause rfl
    · exact refusal_ne_turtle hcause rfl
  | query q span => exact Expr.stopsAtHeading_query q span
  | binary op left right span ihleft ihright =>
    refine ihleft.bind fun a => .bind (.ofExcept fun fault h => ?_) fun _ =>
      ihright.bind fun b => .ofExcept fun fault h => ?_
    · exact refusal_ne_turtle (BinaryOp.checkLeft_eq_error h) rfl
    · obtain ⟨kind, _, s, _, hcause⟩ := BinaryOp.exists_refusal_of_apply h
      exact refusal_ne_turtle hcause rfl

/-! ## Statements -/

theorem Value.stopsAtHeading_asNumber (v : Value) (span : Span) :
    StopsAtHeading t (.ofExcept (v.asNumber span)) :=
  .ofExcept fun _ h => refusal_ne_turtle (Value.asNumber_eq_error h) rfl

theorem Expr.stopsAtHeading_evalNumber (expr : Expr) :
    StopsAtHeading t (expr.evalNumber env t) :=
  expr.stopsAtHeading.bind fun v => v.stopsAtHeading_asNumber expr.span

theorem Expr.stopsAtHeading_evalTruth (expr : Expr) : StopsAtHeading t (expr.evalTruth env t) :=
  expr.stopsAtHeading.bind fun _ =>
    .ofExcept fun _ h => refusal_ne_turtle (Value.asTruth_eq_error h) rfl

theorem Expr.stopsAtHeading_evalInteger (expr : Expr) :
    StopsAtHeading t (expr.evalInteger env t) := by
  refine expr.stopsAtHeading_evalNumber.bind fun x => ?_
  cases integerOf? x with
  | some n => exact .pure n
  | none => exact .ofExcept fun fault => by simp [refusal]

theorem stopsAtHeading_evalAll (args : List Expr) : StopsAtHeading t (evalAll env t args) := by
  induction args with
  | nil => exact .pure []
  | cons arg rest ih =>
    exact arg.stopsAtHeading.bind fun v => ih.bind fun vs => .pure (v :: vs)

theorem Command.stopsAtHeading (cmd : Command) (value : Expr) :
    StopsAtHeading t (cmd.action env t value) := by
  cases cmd with
  | forward | back | left | right | setX | setY =>
    exact value.stopsAtHeading_evalNumber.bind fun x => .pure _
  | turn | setHeading => exact value.stopsAtHeading_evalInteger.bind fun n => .pure _
  | setPenColor =>
    refine value.stopsAtHeading_evalInteger.bind fun n =>
      .bind (.ofExcept fun fault h => ?_) fun index => .pure _
    unfold requireColor at h
    split at h
    · exact absurd h (by simp)
    · exact refusal_ne_turtle (Except.error.inj h).symm rfl

theorem Label.require_ne_turtle {label : Label} (fault : TurtleFault) :
    label.require ≠ .error (.turtle fault) := by
  cases label with
  | named name span => simp [Label.require]
  | malformed flaw => simp [Label.require]

/-- What stops the look-up of a function is never the turtle. -/
theorem Program.callee_ne_turtle {name : Text} {span : Span} {args : Nat} (fault : TurtleFault) :
    p.callee name span args ≠ .error (.turtle fault) := by
  unfold Program.callee
  split
  · simp [refusal]
  · split
    · simp [refusal]
    · split <;> simp [refusal]

theorem Environment.stopsAtHeading_readNumber (name : Text) (span : Span) :
    StopsAtHeading t (.ofExcept (env.readNumber name span)) := by
  refine .ofExcept fun fault h => ?_
  rcases Except.bind_eq_error_iff.1 h with h | ⟨v, _, h⟩
  · rcases Environment.read_eq_error h with hcause | hcause
    · exact refusal_ne_turtle hcause rfl
    · exact refusal_ne_turtle hcause rfl
  · exact refusal_ne_turtle (Value.asNumber_eq_error h) rfl

/-- **What a statement does is decided without the turtle's refusal, but for a heading out of range
    that it asks for.** -/
theorem Stmt.stopsAtHeading (stmt : Stmt) : StopsAtHeading t (stmt.effect p env t) := by
  cases stmt with
  | block kind condition body line =>
    refine condition.stopsAtHeading_evalTruth.bind fun holds => ?_
    cases holds <;> cases kind <;> exact .pure _
  | assign kind target value line =>
    cases kind with
    | make =>
      exact value.stopsAtHeading.bind fun v =>
        .bind (.ofExcept Label.require_ne_turtle) fun name => .pure _
    | increase =>
      exact .bind (.ofExcept Label.require_ne_turtle) fun name =>
        .bind (Environment.stopsAtHeading_readNumber name target.span) fun x =>
          value.stopsAtHeading_evalNumber.bind fun y => .pure _
  | pen down line => exact .pure _
  | command cmd value line => exact (cmd.stopsAtHeading value).bind fun action => .pure _
  | call label args line =>
    exact .bind (.ofExcept Label.require_ne_turtle) fun name =>
      .bind (.ofExcept Program.callee_ne_turtle) fun f =>
        (stopsAtHeading_evalAll args).bind fun values => .pure _
  | comment text line => exact .pure _

/-! ## Moves -/

/-- The direction in which a turtle moves, when the move is `offset` degrees from its heading. -/
def Turtle.course (t : Turtle) (offset : Int) (distance : Float) : Int :=
  t.direction + offset + if distance < 0 then 180 else 0

theorem Turtle.move_eq_error_iff {offset : Int} {distance : Float} {fault : TurtleFault} :
    t.move offset distance = .error fault ↔
      fault = .headingTooLarge ∧ doubleOverflow ≤ (t.course offset distance).natAbs := by
  rw [← doubleOfInt?_eq_none_iff]
  unfold Turtle.course Turtle.move endPoint?
  by_cases hback : distance < 0
  · simp only [if_pos hback]
    cases doubleOfInt? (t.direction + offset + 180) with
    | none => simp [eq_comm]
    | some degrees => simp
  · simp only [if_neg hback, Int.add_zero]
    cases doubleOfInt? (t.direction + offset) with
    | none => simp [eq_comm]
    | some degrees => simp

/-- A color that a statement picks is one of the palette. -/
theorem Command.index_mem_palette {cmd : Command} {value : Expr} {index : Int}
    (h : (cmd.action env t value).result = .ok (.setPenColor index)) : 0 ≤ index ∧ index < 16 := by
  cases Command.tells_of_action h with
  | setPenColor _ _ hrange => exact hrange

/-- A move goes at most half a turn off the heading. -/
theorem Command.offset_le {cmd : Command} {value : Expr} {offset : Int} {distance : Float}
    (h : (cmd.action env t value).result = .ok (.move offset distance)) : offset.natAbs ≤ 180 := by
  cases Command.tells_of_action h with
  | move hoffset _ => cases cmd <;> cases hoffset <;> decide

/-- The pen apart, it is a command that tells the turtle to do something. -/
theorem Stmt.Does.exists_command {stmt : Stmt} {effect : Effect} {action : Action}
    (hdoes : stmt.Does p env t effect) (heffect : effect = .act action)
    (hup : action ≠ .penUp) (hdown : action ≠ .penDown) :
    ∃ cmd value, (Command.action env t value cmd).result = .ok action := by
  cases hdoes with
  | @pen down =>
    cases heffect
    cases down with
    | true => exact absurd rfl hdown
    | false => exact absurd rfl hup
  | command haction =>
    cases heffect
    exact ⟨_, _, haction⟩
  | pass | branch | loop | make | increase | call | comment => exact absurd heffect (by simp)

/-- The turtle does all that a statement tells it to, but for a move in a direction out of range. -/
theorem Stmt.Does.perform_eq_error {stmt : Stmt} {action : Action} {fault : TurtleFault}
    (hdoes : stmt.Does p env t (.act action)) (hperform : t.perform action = .error fault) :
    ∃ offset distance, action = .move offset distance ∧ fault = .headingTooLarge ∧
      doubleOverflow ≤ (t.course offset distance).natAbs := by
  cases action with
  | move offset distance =>
    exact ⟨offset, distance, rfl, Turtle.move_eq_error_iff.1 hperform⟩
  | setPenColor index =>
    obtain ⟨cmd, value, haction⟩ := hdoes.exists_command rfl (by simp) (by simp)
    simp only [Turtle.perform, dif_pos (Command.index_mem_palette haction)] at hperform
    exact absurd hperform (by simp)
  | penUp | penDown | turn | setHeading | setX | setY => simp [Turtle.perform] at hperform

/-! ## Steps -/

/-- Whether the statement at the head of the innermost block needs the double of a direction that has
    none: it asks for such a heading, or it tells the turtle to move in such a direction. -/
inductive Config.LosesHeading (p : Program) (c : Config) : Prop where
  | asked {stmt : Stmt} {rest : List Stmt} {caller : Option Environment} {outer : List Block}
      (hblocks : c.blocks = ⟨stmt :: rest, caller⟩ :: outer)
      (hasks : .heading ∈ (stmt.effect p c.env c.turtle).trace)
      (hover : doubleOverflow ≤ c.turtle.direction.natAbs) : Config.LosesHeading p c
  | moved {stmt : Stmt} {rest : List Stmt} {caller : Option Environment} {outer : List Block}
      {offset : Int} {distance : Float} (hblocks : c.blocks = ⟨stmt :: rest, caller⟩ :: outer)
      (hdoes : stmt.Does p c.env c.turtle (.act (.move offset distance)))
      (hover : doubleOverflow ≤ (c.turtle.course offset distance).natAbs) : Config.LosesHeading p c

variable {c : Config}

/-- The turtle refuses a step for nothing but a heading out of range. -/
theorem Config.losesHeading_of_step {c' : Config} {fault : TurtleFault} {line : Nat}
    (h : c.step p = .refused (.turtle fault) line c') :
    fault = .headingTooLarge ∧ c.LosesHeading p := by
  obtain ⟨stmt, rest, caller, outer, hblocks, _, _, hrefuses⟩ := Config.step_eq_refused h
  cases hrefuses with
  | fails hfails =>
    obtain ⟨hfault, hasks, hover⟩ :=
      (stmt.stopsAtHeading fault).1 (Stmt.effect_eq_error_iff.2 hfails)
    exact ⟨hfault, .asked hblocks hasks hover⟩
  | turtle hdoes hperform =>
    obtain ⟨offset, distance, rfl, hfault, hover⟩ := hdoes.perform_eq_error hperform
    exact ⟨hfault, .moved hblocks hdoes hover⟩

theorem Config.LosesHeading.step_eq (h : c.LosesHeading p) :
    ∃ line c', c.step p = .refused (.turtle .headingTooLarge) line c' := by
  cases h with
  | @asked stmt _ _ _ hblocks hasks hover =>
    refine ⟨stmt.line, c.decided p stmt, ?_⟩
    rw [Config.step_of_statement hblocks,
      (stmt.stopsAtHeading .headingTooLarge).2 ⟨rfl, hasks, hover⟩]
  | @moved stmt _ _ _ offset distance hblocks hdoes hover =>
    have hmove := Turtle.move_eq_error_iff.2 ⟨rfl, hover⟩
    refine ⟨stmt.line, c.decided p stmt, ?_⟩
    rw [Config.step_of_does hblocks hdoes]
    simp only [Config.apply, Config.decided_turtle, Turtle.perform, hmove]

/-- A heading that is lost is out of the range of doubles, but for one turn. -/
theorem Config.LosesHeading.direction_ge (h : c.LosesHeading p) :
    doubleOverflow ≤ c.turtle.direction.natAbs + 360 := by
  cases h with
  | asked hblocks hasks hover => omega
  | moved hblocks hdoes hover =>
    obtain ⟨cmd, value, haction⟩ := hdoes.exists_command rfl (by simp) (by simp)
    have hoffset := Command.offset_le haction
    unfold Turtle.course at hover
    split at hover <;> omega

end LogoLang
