import LogoLang.Proofs.Run.Effects
import LogoLang.Proofs.Syntax.Nodes

set_option autoImplicit false

/-! # What a refusal blames

When an error-free expression cannot be evaluated, the refusal names the place of one of its nodes, or
it is the turtle's; it is never that a text was not understood. The same holds of a well-formed
statement and the places of its parts (`Stmt.cites_of_fails`). -/

namespace LogoLang

/-! ## Places in refusals -/

/-- A refusal for a flaw at one of the given places, or one of the turtle. -/
def Refusal.Cites (spans : List Span) : Refusal → Prop
  | .flaw found => found.span ∈ spans
  | .turtle _ => True
  | .malformed => False

theorem Refusal.Cites.mono {spans spans' : List Span} {cause : Refusal} (h : cause.Cites spans)
    (hsub : ∀ span ∈ spans, span ∈ spans') : cause.Cites spans' := by
  cases cause with
  | flaw flaw => exact hsub flaw.span h
  | turtle fault => trivial
  | malformed => exact h

theorem Refusal.Cites.ne_malformed {spans : List Span} {cause : Refusal} (h : cause.Cites spans) :
    cause ≠ .malformed := by
  rintro rfl
  exact h

/-! ## Values and operators -/

theorem Value.asNumber_eq_error {v : Value} {span : Span} {cause : Refusal}
    (h : v.asNumber span = .error cause) : cause = refusal .unexpectedBooleanType span := by
  cases v with
  | number x => simp [Value.asNumber] at h
  | truth b => exact (Except.error.inj h).symm

theorem Value.asTruth_eq_error {v : Value} {span : Span} {cause : Refusal}
    (h : v.asTruth span = .error cause) : cause = refusal .unexpectedNumberType span := by
  cases v with
  | number x => exact (Except.error.inj h).symm
  | truth b => simp [Value.asTruth] at h

/-! A name is read by its entry among the variables: it has a value, none yet, or is missing. -/

theorem Environment.read_eq_ok_iff {env : Environment} {name : Text} {span : Span} {v : Value} :
    env.read name span = .ok v ↔ Bindings.get? env name = some (some v) := by
  unfold Environment.read
  rcases Bindings.get? env name with _ | _ | w <;> simp

theorem Environment.read_eq_undefinedVariableValue_iff {env : Environment} {name : Text}
    {span : Span} : env.read name span = .error (refusal .undefinedVariableValue span) ↔
      Bindings.get? env name = some none := by
  unfold Environment.read
  rcases Bindings.get? env name with _ | _ | w <;> simp [refusal]

theorem Environment.read_eq_undefinedVariable_iff {env : Environment} {name : Text} {span : Span} :
    env.read name span = .error (refusal .undefinedVariable span) ↔
      Bindings.get? env name = none := by
  unfold Environment.read
  rcases Bindings.get? env name with _ | _ | w <;> simp [refusal]

theorem Environment.read_eq_error {env : Environment} {name : Text} {span : Span} {cause : Refusal}
    (h : env.read name span = .error cause) :
    cause = refusal .undefinedVariable span ∨ cause = refusal .undefinedVariableValue span := by
  rw [Environment.read] at h
  split at h
  · exact Or.inl (Except.error.inj h).symm
  · exact Or.inr (Except.error.inj h).symm
  · exact absurd h (by simp)

theorem Environment.cites_of_read {env : Environment} {name : Text} {span : Span} {cause : Refusal}
    (h : env.read name span = .error cause) : cause.Cites [span] := by
  rcases Environment.read_eq_error h with rfl | rfl <;> exact List.mem_singleton_self span

theorem Environment.cites_of_readNumber {env : Environment} {name : Text} {span : Span}
    {cause : Refusal} (h : env.readNumber name span = .error cause) : cause.Cites [span] := by
  rcases Except.bind_eq_error_iff.1 h with h | ⟨v, _, h⟩
  · exact Environment.cites_of_read h
  · cases Value.asNumber_eq_error h
    exact List.mem_singleton_self span

theorem BinaryOp.arithmetic_eq_error {op : BinaryOp} {span : Span} {a b : Float} {cause : Refusal}
    (h : op.arithmetic span a b = .error cause) : cause = refusal .divideByZero span := by
  rw [BinaryOp.arithmetic] at h
  split at h
  · exact (Except.error.inj h).symm
  · exact absurd h (by simp)

theorem BinaryOp.checkLeft_eq_error {op : BinaryOp} {span : Span} {a : Value} {cause : Refusal}
    (h : op.checkLeft span a = .error cause) : cause = refusal .unexpectedBooleanType span := by
  rw [BinaryOp.checkLeft] at h
  split at h
  · cases a with
    | number x => simp [Value.asNumber, Except.map] at h
    | truth b => exact (Except.error.inj h).symm
  · exact absurd h (by simp)

/-- An operator blames the type or the value of one of its operands, or the whole expression. -/
theorem BinaryOp.exists_refusal_of_apply {op : BinaryOp} {left right span : Span} {a b : Value}
    {cause : Refusal} (h : op.apply left right span a b = .error cause) :
    ∃ kind, kind.category = .typing ∧ ∃ s ∈ [left, right, span], cause = refusal kind s := by
  rw [BinaryOp.apply] at h
  cases hclass : op.opClass with
  | arithmetic =>
    simp only [hclass, Except.bind_eq_error_iff] at h
    rcases h with h | ⟨x, _, h | ⟨y, _, h | ⟨z, _, h⟩⟩⟩
    · exact ⟨_, rfl, span, by simp, Value.asNumber_eq_error h⟩
    · exact ⟨_, rfl, span, by simp, Value.asNumber_eq_error h⟩
    · exact ⟨_, rfl, span, by simp, BinaryOp.arithmetic_eq_error h⟩
    · exact absurd h (by simp [pure, Except.pure])
  | equality =>
    simp only [hclass] at h
    split at h
    · exact absurd h (by simp)
    · exact ⟨_, rfl, span, by simp, (Except.error.inj h).symm⟩
  | comparison =>
    simp only [hclass, Except.bind_eq_error_iff] at h
    rcases h with h | ⟨x, _, h | ⟨y, _, h⟩⟩
    · exact ⟨_, rfl, left, by simp, Value.asNumber_eq_error h⟩
    · exact ⟨_, rfl, right, by simp, Value.asNumber_eq_error h⟩
    · exact absurd h (by simp [pure, Except.pure])
  | logic =>
    simp only [hclass, Except.bind_eq_error_iff] at h
    rcases h with h | ⟨x, _, h | ⟨y, _, h⟩⟩
    · exact ⟨_, rfl, left, by simp, Value.asTruth_eq_error h⟩
    · exact ⟨_, rfl, right, by simp, Value.asTruth_eq_error h⟩
    · exact absurd h (by simp [pure, Except.pure])

/-! ## Expressions -/

/-- The places that an operator can blame are places of nodes. -/
theorem Expr.operand_spans_mem (left right : Expr) (span : Span) :
    ∀ s ∈ [left.span, right.span, span], s ∈ span :: (left.spans ++ right.spans) := by
  rw [List.forall_mem_cons, List.forall_mem_cons, List.forall_mem_singleton]
  exact ⟨List.mem_cons_of_mem _ (List.mem_append_left _ left.span_mem_spans),
    List.mem_cons_of_mem _ (List.mem_append_right _ right.span_mem_spans), List.mem_cons_self⟩

section Expressions

variable {env : Environment} {t : Turtle}

theorem Turtle.measure_eq_error {q : Query} {cause : Refusal} (h : t.measure q = .error cause) :
    q = .heading ∧ doubleOfInt? t.direction = none ∧ cause = .turtle .headingTooLarge := by
  cases q with
  | heading =>
    simp only [Turtle.measure] at h
    split at h
    · exact absurd h (by simp)
    · next hnone => exact ⟨rfl, hnone, (Except.error.inj h).symm⟩
  | x | y | color => simp [Turtle.measure] at h

/-- **An error-free expression is refused at one of its nodes, or by the turtle.** -/
theorem Expr.cites_of_eval {expr : Expr} {cause : Refusal} (hfree : expr.IsErrorFree)
    (h : (expr.eval env t).result = .error cause) : cause.Cites expr.spans := by
  induction expr generalizing cause with
  | truth value span => exact absurd h (by simp [Expr.eval])
  | number value span => exact absurd h (by simp [Expr.eval])
  | var name span => exact Environment.cites_of_read h
  | malformed flaw => exact absurd hfree (Expr.not_isErrorFree_malformed flaw)
  | query q span =>
    simp only [Expr.eval, Traced.bind_eq_error_iff, Traced.result_log, Traced.result_ofExcept] at h
    rcases h with h | ⟨_, _, h | ⟨x, _, h⟩⟩
    · exact absurd h (by simp)
    · rw [(Turtle.measure_eq_error h).2.2]
      trivial
    · exact absurd h (by simp)
  | binary op left right span ihleft ihright =>
    obtain ⟨hleft, hright⟩ := Expr.isErrorFree_binary.1 hfree
    rw [Expr.spans_binary]
    simp only [Expr.eval, Traced.bind_eq_error_iff, Traced.result_ofExcept] at h
    rcases h with h | ⟨a, _, h | ⟨_, _, h | ⟨b, _, h⟩⟩⟩
    · refine (ihleft hleft h).mono fun s hs => ?_
      exact List.mem_cons_of_mem _ (List.mem_append_left _ hs)
    · rw [BinaryOp.checkLeft_eq_error h]
      exact List.mem_cons_self
    · refine (ihright hright h).mono fun s hs => ?_
      exact List.mem_cons_of_mem _ (List.mem_append_right _ hs)
    · obtain ⟨kind, _, s, hs, rfl⟩ := BinaryOp.exists_refusal_of_apply h
      exact Expr.operand_spans_mem left right span s hs

theorem Expr.cites_of_evalNumber {expr : Expr} {cause : Refusal} (hfree : expr.IsErrorFree)
    (h : (expr.evalNumber env t).result = .error cause) : cause.Cites expr.spans := by
  rcases Expr.evalNumber_eq_error_iff.1 h with h | ⟨b, _, rfl⟩
  · exact Expr.cites_of_eval hfree h
  · exact expr.span_mem_spans

theorem Expr.cites_of_evalTruth {expr : Expr} {cause : Refusal} (hfree : expr.IsErrorFree)
    (h : (expr.evalTruth env t).result = .error cause) : cause.Cites expr.spans := by
  rcases Expr.evalTruth_eq_error_iff.1 h with h | ⟨b, _, rfl⟩
  · exact Expr.cites_of_eval hfree h
  · exact expr.span_mem_spans

theorem cites_of_evalAll {args : List Expr} {cause : Refusal}
    (hfree : ∀ arg ∈ args, arg.IsErrorFree) (h : (evalAll env t args).result = .error cause) :
    cause.Cites (args.flatMap Expr.spans) := by
  induction args with
  | nil => exact absurd h (by simp [evalAll])
  | cons arg rest ih =>
    obtain ⟨harg, hrest⟩ := List.forall_mem_cons.1 hfree
    rw [List.flatMap_cons]
    simp only [evalAll, Traced.bind_eq_error_iff] at h
    rcases h with h | ⟨v, _, h | ⟨vs, _, h⟩⟩
    · exact (Expr.cites_of_eval harg h).mono fun s hs => List.mem_append_left _ hs
    · exact (ih hrest h).mono fun s hs => List.mem_append_right _ hs
    · exact absurd h (by simp)

/-! ## Statements -/

/-- The reasons why the operand of a command does not do. -/
theorem Command.action_eq_error {cmd : Command} {value : Expr} {cause : Refusal}
    (h : (cmd.action env t value).result = .error cause) :
    (value.evalNumber env t).result = .error cause ∨
      cause = refusal .nonIntegerValue value.span ∨ cause = refusal .undefinedColor value.span := by
  cases cmd with
  | forward | back | left | right | setX | setY =>
    rw [Command.action, Traced.bind_eq_error_iff] at h
    rcases h with h | ⟨x, _, h⟩
    · exact Or.inl h
    · exact absurd h (by simp)
  | turn | setHeading =>
    rw [Command.action, Traced.bind_eq_error_iff] at h
    rcases h with h | ⟨n, _, h⟩
    · exact (Expr.evalInteger_eq_error h).imp_right Or.inl
    · exact absurd h (by simp)
  | setPenColor =>
    simp only [Command.action, Traced.bind_eq_error_iff, Traced.result_ofExcept] at h
    rcases h with h | ⟨n, _, h | ⟨index, _, h⟩⟩
    · exact (Expr.evalInteger_eq_error h).imp_right Or.inl
    · rw [requireColor] at h
      split at h
      · exact absurd h (by simp)
      · exact Or.inr (Or.inr (Except.error.inj h).symm)
    · exact absurd h (by simp)

theorem Command.cites_of_action {cmd : Command} {value : Expr} {cause : Refusal}
    (hfree : value.IsErrorFree) (h : (cmd.action env t value).result = .error cause) :
    cause.Cites value.spans := by
  rcases Command.action_eq_error h with h | rfl | rfl
  · exact Expr.cites_of_evalNumber hfree h
  · exact value.span_mem_spans
  · exact value.span_mem_spans

theorem Program.cites_of_callee {p : Program} {name : Text} {span : Span} {args : Nat}
    {cause : Refusal} (h : p.callee name span args = .error cause) : cause.Cites [span] := by
  rw [Program.callee] at h
  split at h
  · cases h
    exact List.mem_singleton_self span
  · split at h
    · cases h
      exact List.mem_singleton_self span
    · split at h
      · cases h
        exact List.mem_singleton_self span
      · exact absurd h (by simp)

/-- **A well-formed statement that cannot be done is refused at one of its parts, or by the turtle.** -/
theorem Stmt.cites_of_fails {p : Program} {stmt : Stmt} {cause : Refusal} (hform : stmt.WellFormed)
    (h : stmt.Fails p env t cause) : cause.Cites stmt.spans := by
  obtain ⟨hlabels, hexprs⟩ := hform
  cases h with
  | @condition kind condition body line _ h =>
    have hmem : condition ∈ (Stmt.block kind condition body line).exprs :=
      List.mem_singleton_self _
    exact (Expr.cites_of_evalTruth (hexprs _ hmem).errorFree h).mono (Stmt.spans_subset hmem)
  | @makeValue target value line _ h =>
    have hmem : value ∈ (Stmt.assign .make target value line).exprs := List.mem_singleton_self _
    exact (Expr.cites_of_eval (hexprs _ hmem).errorFree h).mono (Stmt.spans_subset hmem)
  | makeTarget h => exact absurd (hlabels _ (List.mem_singleton_self _)) (by simp [Label.IsName])
  | increaseTarget => exact absurd (hlabels _ (List.mem_singleton_self _)) (by simp [Label.IsName])
  | @increaseOld name span value line _ h =>
    have hmem : .named name span ∈ (Stmt.assign .increase (.named name span) value line).labels :=
      List.mem_singleton_self _
    exact (Environment.cites_of_readNumber h).mono
      (List.forall_mem_singleton.2 (Stmt.span_mem_of_label hmem))
  | @increaseValue name span value line _ _ hold h =>
    have hmem : value ∈ (Stmt.assign .increase (.named name span) value line).exprs :=
      List.mem_singleton_self _
    exact (Expr.cites_of_evalNumber (hexprs _ hmem).errorFree h).mono
      (Stmt.spans_subset hmem)
  | @command cmd value line _ h =>
    have hmem : value ∈ (Stmt.command cmd value line).exprs := List.mem_singleton_self _
    exact (Command.cites_of_action (hexprs _ hmem).errorFree h).mono (Stmt.spans_subset hmem)
  | callName => exact absurd (hlabels _ (List.mem_singleton_self _)) (by simp [Label.IsName])
  | @callee name span args line _ h =>
    have hmem : .named name span ∈ (Stmt.call (.named name span) args line).labels :=
      List.mem_singleton_self _
    exact (Program.cites_of_callee h).mono
      (List.forall_mem_singleton.2 (Stmt.span_mem_of_label hmem))
  | args hcallee h =>
    refine (cites_of_evalAll (fun arg harg => (hexprs arg harg).errorFree) h).mono ?_
    intro span hspan
    obtain ⟨arg, harg, hspan⟩ := List.mem_flatMap.1 hspan
    exact Stmt.spans_subset harg span hspan

end Expressions

end LogoLang
