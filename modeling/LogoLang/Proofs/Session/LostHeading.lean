import LogoLang.Proofs.Run.HeadingRange
import LogoLang.Proofs.Session.WellFormed

set_option autoImplicit false

/-! # How a run can fail

A run of an accepted program goes on, finishes, or is refused for a flaw of the program, unless it
loses its heading: it needs the double of a direction that has none (`step_proceeds_iff`). A heading
that is turned by itself doubles, so that a short program can come to this
(`heading_lost_by_doubling`). -/

namespace LogoLang

/-- **The steps of an accepted program go on, finish, or are refused for a flaw, unless the heading is
    lost.** Then the step is refused by the turtle, and the heading is that far from zero. -/
theorem step_proceeds_iff {lines : List Text} {table : FunctionTable}
    (hparse : parseProgram lines = .ok table) {privateVariables : Bool} {t : Turtle} {c : Config}
    (hreach : Config.Reaches ⟨table, privateVariables⟩ (Config.start ⟨table, privateVariables⟩ t) c) :
    ((c.step ⟨table, privateVariables⟩ = .finished ∨
        (∃ c', c.step ⟨table, privateVariables⟩ = .next c') ∨
        ∃ flaw line c', c.step ⟨table, privateVariables⟩ = .refused (.flaw flaw) line c') ↔
      ¬ c.LosesHeading ⟨table, privateVariables⟩) ∧
    (c.LosesHeading ⟨table, privateVariables⟩ →
      (∃ line c', c.step ⟨table, privateVariables⟩ = .refused (.turtle .headingTooLarge) line c') ∧
        doubleOverflow ≤ c.turtle.direction.natAbs + 360) := by
  have hform := (takenFrom_of_parseProgram hparse).wellFormed
  refine ⟨⟨?_, ?_⟩, fun hlost => ⟨hlost.step_eq, hlost.direction_ge⟩⟩
  · intro hproceeds hlost
    obtain ⟨line, c', hstep⟩ := hlost.step_eq
    rw [hstep] at hproceeds
    simp at hproceeds
  · intro hkept
    cases hstep : c.step ⟨table, privateVariables⟩ with
    | finished => exact Or.inl rfl
    | next c' => exact Or.inr (Or.inl ⟨c', rfl⟩)
    | refused cause line c' =>
      cases cause with
      | flaw flaw => exact Or.inr (Or.inr ⟨flaw, line, c', rfl⟩)
      | turtle fault => exact absurd (Config.losesHeading_of_step hstep).2 hkept
      | malformed =>
        obtain ⟨_, _, _, _, _, _, _, _, hcites⟩ := cites_of_step hform.stmts hreach hstep
        exact absurd rfl hcites.ne_malformed

/-- A program that turns and moves by its heading: its first step does not lose it. -/
theorem step_proceeds_iff_spiral :
    ∃ table t, parseProgram ["WHILE \"TRUE [".toList, "TURN HEADING".toList,
        "FORWARD HEADING".toList, "]".toList] = .ok table ∧
      Config.Reaches ⟨table, false⟩ (Config.start ⟨table, false⟩ t) (Config.start ⟨table, false⟩ t) ∧
      ¬ (Config.start ⟨table, false⟩ t).LosesHeading ⟨table, false⟩ ∧
      ((Config.start ⟨table, false⟩ t).step ⟨table, false⟩ = .finished ∨
        (∃ c', (Config.start ⟨table, false⟩ t).step ⟨table, false⟩ = .next c') ∨
        ∃ flaw line c', (Config.start ⟨table, false⟩ t).step ⟨table, false⟩ =
          .refused (.flaw flaw) line c') := by
  obtain ⟨table, hparse⟩ := Except.exists_of_isOk (m := parseProgram ["WHILE \"TRUE [".toList,
    "TURN HEADING".toList, "FORWARD HEADING".toList, "]".toList]) (by decide +kernel)
  have hreach : Config.Reaches ⟨table, false⟩ (Config.start ⟨table, false⟩
      ⟨.default, .default, 200, 200, 0, false, 7, [], []⟩) _ := .refl
  have hiff := step_proceeds_iff hparse hreach
  have hkept : ¬ (Config.start ⟨table, false⟩
      ⟨.default, .default, 200, 200, 0, false, 7, [], []⟩).LosesHeading ⟨table, false⟩ := by
    intro hlost
    have hlarge := (hiff.2 hlost).2
    have hbound := le_doubleOverflow
    change doubleOverflow ≤ 0 + 360 at hlarge
    omega
  exact ⟨table, _, hparse, hreach, hkept, hiff.1.2 hkept⟩

/-! ## A heading that doubles -/

section Doubling

variable {p : Program} {env : Environment} {t : Turtle} {span span' place : Span}
  {line line' : Nat} {rest : List Stmt} {caller : Option Environment} {outer : List Block} {log : List Event}

/-- A loop that has no end and turns by the heading. -/
def turnLoop (place span : Span) (line : Nat) : Stmt :=
  .block .loop (.truth true place) [.command .turn (.query .heading span) (line + 1)] line

/-- A turn by the heading adds the heading, when this is a power of two in range. -/
theorem Stmt.does_turn_heading {k : Nat} (hk : k ≤ 1023)
    (ht : t.direction = ((2 ^ k : Nat) : Int)) :
    Stmt.Does p env t (.command .turn (.query .heading span) line)
      (.act (.turn ((2 ^ k : Nat) : Int))) := by
  obtain ⟨x, hdouble, hinteger⟩ := exists_double_two_pow hk
  have hmeasure : t.measure .heading = .ok x := by
    simp only [Turtle.measure, ht, hdouble]
  have heval : ((Expr.query .heading span).evalNumber env t).result = .ok x := by
    simp only [Expr.evalNumber, Expr.eval, Traced.bind_eq_ok_iff, Traced.result_ofExcept]
    exact ⟨.number x, ⟨(), rfl, x, hmeasure, rfl⟩, rfl⟩
  refine .command ?_
  simp only [Command.action, Expr.evalInteger, Traced.bind_eq_ok_iff]
  refine ⟨((2 ^ k : Nat) : Int), ⟨x, heval, ?_⟩, rfl⟩
  rw [hinteger]
  rfl

/-- A turn by the heading asks for it before all else. -/
theorem Stmt.heading_mem_trace :
    .heading ∈ ((Stmt.command .turn (.query .heading span) line).effect p env t).trace := by
  have hasks : .heading ∈ ((Expr.query .heading span).eval env t).trace := by
    rw [Expr.trace_query]
    exact List.mem_singleton_self _
  exact Traced.mem_trace_bind (Traced.mem_trace_bind (Traced.mem_trace_bind
    (Traced.mem_trace_bind hasks)))

/-- A round of the loop doubles the heading. -/
theorem Config.exists_reaches_double {k : Nat} (hk : k ≤ 1023)
    (ht : t.direction = ((2 ^ k : Nat) : Int)) :
    ∃ t' log', t'.direction = ((2 ^ (k + 1) : Nat) : Int) ∧
      Config.Reaches p ⟨⟨turnLoop place span line :: rest, caller⟩ :: outer, env, t, log⟩
        ⟨⟨turnLoop place span line :: rest, caller⟩ :: outer, env, t', log'⟩ := by
  have hdouble : t.direction + ((2 ^ k : Nat) : Int) = ((2 ^ (k + 1) : Nat) : Int) := by
    rw [ht, pow_succ]
    omega
  exact ⟨{ t with direction := t.direction + ((2 ^ k : Nat) : Int) }, _, hdouble,
    .head (Config.step_eq_next_iff.2 (.loop rfl (.loop rfl)))
      (.head (Config.step_eq_next_iff.2 (.act rfl (Stmt.does_turn_heading hk ht) rfl))
        (.head (Config.step_eq_next_iff.2 (.leave rfl)) .refl))⟩

/-- From heading one the loop comes to all powers of two up to the first one out of range. -/
theorem Config.exists_reaches_two_pow {k : Nat} (hk : k ≤ 1024) (ht : t.direction = 1) :
    ∃ t' log', t'.direction = ((2 ^ k : Nat) : Int) ∧
      Config.Reaches p ⟨⟨turnLoop place span line :: rest, caller⟩ :: outer, env, t, log⟩
        ⟨⟨turnLoop place span line :: rest, caller⟩ :: outer, env, t', log'⟩ := by
  induction k with
  | zero => exact ⟨t, log, ht, .refl⟩
  | succ k ih =>
    obtain ⟨t', log', ht', hreach⟩ := ih (Nat.le_of_succ_le hk)
    obtain ⟨t'', log'', ht'', hround⟩ := Config.exists_reaches_double (Nat.le_of_succ_le_succ hk) ht'
    exact ⟨t'', log'', ht'', hreach.trans hround⟩

/-- From heading one the loop comes to a heading that is lost. -/
theorem Config.exists_lost_heading {c : Config}
    (hblocks : c.blocks = ⟨turnLoop place span line :: rest, caller⟩ :: outer)
    (hone : c.turtle.direction = 1) : ∃ c', Config.Reaches p c c' ∧ c'.LosesHeading p := by
  obtain ⟨blocks, env, t, log⟩ := c
  subst hblocks
  obtain ⟨t', log', ht', hreach⟩ := Config.exists_reaches_two_pow (Nat.le_refl 1024) hone
  refine ⟨_, hreach.tail (Config.step_eq_next_iff.2 (.loop rfl (.loop rfl))),
    .asked rfl Stmt.heading_mem_trace ?_⟩
  change doubleOverflow ≤ t'.direction.natAbs
  rw [ht', Int.natAbs_natCast]
  exact doubleOverflow_le_two_pow

/-- A program that turns by one and then doubles its heading is refused by the turtle. -/
theorem Config.exists_refused_of_mainBody {one : Float}
    (hmain : p.table.mainBody? =
      some (.command .turn (.number one span) line :: turnLoop place span' line' :: rest))
    (hone : integerOf? one = some 1) (ht : t.direction = 0) :
    ∃ c line c', Config.Reaches p (Config.start p t) c ∧
      c.step p = .refused (.turtle .headingTooLarge) line c' := by
  have hblocks : (Config.start p t).blocks =
      ⟨.command .turn (.number one span) line :: turnLoop place span' line' :: rest, none⟩ :: [] := by
    rw [Config.start, hmain]
    rfl
  have hturn : Stmt.Does p (Config.start p t).env t (.command .turn (.number one span) line)
      (.act (.turn 1)) := by
    refine .command ?_
    simp only [Command.action, Expr.evalInteger, Traced.bind_eq_ok_iff]
    refine ⟨1, ⟨one, rfl, ?_⟩, rfl⟩
    rw [hone]
    rfl
  have hturned : t.direction + 1 = 1 := by omega
  have hfirst : ∃ c, (Config.start p t).step p = .next c ∧
      c.blocks = ⟨turnLoop place span' line' :: rest, none⟩ :: [] ∧ c.turtle.direction = 1 :=
    ⟨_, Config.step_eq_next_iff.2 (.act hblocks hturn rfl), rfl, hturned⟩
  obtain ⟨c, hstep, hloop, hdirection⟩ := hfirst
  obtain ⟨c', hreach, hlost⟩ := Config.exists_lost_heading (p := p) hloop hdirection
  obtain ⟨line, last, hrefused⟩ := hlost.step_eq
  exact ⟨c', line, last, .head hstep hreach, hrefused⟩

end Doubling

/-- A program of four lines that comes to a heading out of range in either call mode. -/
theorem heading_lost_by_doubling :
    ∃ table t, parseProgram ["TURN \"1".toList, "WHILE \"TRUE [".toList, "TURN HEADING".toList,
        "]".toList] = .ok table ∧ Turtle.new? .default .default = some t ∧
      ∀ privateVariables, ∃ c line c',
        Config.Reaches ⟨table, privateVariables⟩ (Config.start ⟨table, privateVariables⟩ t) c ∧
        c.step ⟨table, privateVariables⟩ = .refused (.turtle .headingTooLarge) line c' := by
  obtain ⟨one, span, place, hparse, hone⟩ : ∃ one span place, parseProgram ["TURN \"1".toList,
      "WHILE \"TRUE [".toList, "TURN HEADING".toList, "]".toList] = .ok ⟨[(mainName, ⟨[],
        [.command .turn (.number one span) 0, turnLoop place ⟨5, 7⟩ 1]⟩)]⟩ ∧
      integerOf? one = some 1 := ⟨_, _, _, rfl, by decide +kernel⟩
  obtain ⟨x, hx⟩ := Option.isSome_iff_exists.1 (show Measure.default.half?.isSome by decide +kernel)
  refine ⟨_, ⟨.default, .default, x, x, 0, false, defaultColor, [], []⟩, hparse, ?_,
    fun privateVariables => Config.exists_refused_of_mainBody rfl hone rfl⟩
  simp only [Turtle.new?, hx]
  rfl

end LogoLang
