import LogoLang.Proofs.Run.Refusals
import LogoLang.Proofs.Run.Steps

set_option autoImplicit false

/-! # Calls that cannot be bound

What can be wrong with a call itself can be told from the table of functions alone: there is no function
of the name, or it has more or fewer parameters than the call has arguments (`FunctionTable.callFlaw?`).
Nothing but a call is refused for this, and a call is refused before any of its arguments is evaluated
(`Stmt.exists_call_of_isCallFault`, `Config.step_of_callFlaw`). -/

namespace LogoLang

/-! ## Call faults -/

/-- The errors that are about the name of a call or the number of its arguments. -/
def ErrorKind.isCallFault : ErrorKind → Bool
  | .undefinedFunction | .tooManyArguments | .missingArguments => true
  | _ => false

/-- Whether a refusal is for such an error. -/
def Refusal.isCallFault : Refusal → Bool
  | .flaw found => found.kind.isCallFault
  | .turtle _ => false
  | .malformed => false

/-- What is wrong with a call of the name, written at the place, with so many arguments. -/
def FunctionTable.callFlaw? (table : FunctionTable) (name : Text) (span : Span) (args : Nat) :
    Option Flaw :=
  match table.arity? name with
  | none => some ⟨.undefinedFunction, span⟩
  | some arity =>
    if arity < args then some ⟨.tooManyArguments, span⟩
    else if args < arity then some ⟨.missingArguments, span⟩
    else none

theorem ErrorKind.isCallFault_eq_false_of_typing {kind : ErrorKind} (h : kind.category = .typing) :
    kind.isCallFault = false := by
  cases kind <;> first | rfl | exact absurd h (by decide)

section CallFlaws

variable {table : FunctionTable} {name : Text} {span : Span} {args : Nat}

theorem FunctionTable.callFlaw?_eq_none_iff :
    table.callFlaw? name span args = none ↔ table.arity? name = some args := by
  unfold FunctionTable.callFlaw?
  split
  · next hnone => simp [hnone]
  · next arity hsome =>
    rw [hsome, Option.some.injEq]
    by_cases hmany : arity < args
    · rw [if_pos hmany]
      simp only [reduceCtorEq, false_iff]
      omega
    · rw [if_neg hmany]
      by_cases hfew : args < arity
      · rw [if_pos hfew]
        simp only [reduceCtorEq, false_iff]
        omega
      · rw [if_neg hfew]
        simp only [true_iff]
        omega

/-- A wrong call is at fault where its function is named, and for one of the three reasons. -/
theorem FunctionTable.isCallFault_of_callFlaw {flaw : Flaw}
    (h : table.callFlaw? name span args = some flaw) :
    flaw.kind.isCallFault = true ∧ flaw.span = span := by
  unfold FunctionTable.callFlaw? at h
  split at h
  · cases h
    exact ⟨rfl, rfl⟩
  · split at h
    · cases h
      exact ⟨rfl, rfl⟩
    · split at h
      · cases h
        exact ⟨rfl, rfl⟩
      · exact absurd h (by simp)

/-! ## Looking a function up -/

theorem Function.length_paramNames {f : Function} (h : ∀ param ∈ f.params, param.IsName) :
    f.paramNames.length = f.params.length := by
  unfold Function.paramNames
  rw [List.length_filterMap_eq_countP, List.countP_eq_length]
  intro param hparam
  obtain ⟨name, span, rfl, _⟩ := h param hparam
  rfl

/-- A run counts the names of the parameters, and these are all parameters if none is malformed. -/
theorem FunctionTable.arity?_eq_some_iff
    (hparams : ∀ entry ∈ table.entries, ∀ param ∈ entry.2.params, param.IsName) :
    table.arity? name = some args ↔
      ∃ f, table.get? name = some f ∧ f.paramNames.length = args := by
  unfold FunctionTable.arity?
  rw [Option.map_eq_some_iff]
  refine exists_congr fun f => and_congr_right fun hget => ?_
  rw [Function.length_paramNames (hparams (name, f) (Bindings.mem_of_get? hget))]

/-- **A call without a flaw is bound**, with shared and with private variables. -/
theorem Program.exists_callee_of_callFlaw {p : Program}
    (hparams : ∀ entry ∈ p.table.entries, ∀ param ∈ entry.2.params, param.IsName)
    (h : p.table.callFlaw? name span args = none) :
    ∃ f, p.callee name span args = .ok f := by
  rw [FunctionTable.callFlaw?_eq_none_iff, FunctionTable.arity?_eq_some_iff hparams] at h
  obtain ⟨f, hget, hlength⟩ := h
  exact ⟨f, Program.callee_eq_ok_iff.2 ⟨hget, hlength.ge, fun _ => hlength.symm⟩⟩

/-- **A call with a flaw is refused for it** with private variables. -/
theorem Program.callee_of_callFlaw {p : Program} {flaw : Flaw} (hprivate : p.privateVariables = true)
    (hparams : ∀ entry ∈ p.table.entries, ∀ param ∈ entry.2.params, param.IsName)
    (h : p.table.callFlaw? name span args = some flaw) :
    p.callee name span args = .error (.flaw flaw) := by
  unfold FunctionTable.callFlaw? FunctionTable.arity? at h
  unfold Program.callee
  cases hget : p.table.get? name with
  | none =>
    rw [hget] at h
    exact congrArg (Except.error ∘ Refusal.flaw) (Option.some.inj h)
  | some f =>
    have hlength := Function.length_paramNames (hparams (name, f) (Bindings.mem_of_get? hget))
    simp only [hget, Option.map_some, ← hlength] at h
    simp only
    by_cases hmany : f.paramNames.length < args
    · rw [if_pos hmany] at h
      rw [if_pos hmany]
      exact congrArg (Except.error ∘ Refusal.flaw) (Option.some.inj h)
    · rw [if_neg hmany] at h
      rw [if_neg hmany]
      by_cases hfew : args < f.paramNames.length
      · rw [if_pos hfew] at h
        rw [if_pos ⟨hprivate, hfew⟩]
        exact congrArg (Except.error ∘ Refusal.flaw) (Option.some.inj h)
      · rw [if_neg hfew] at h
        exact absurd h (by simp)

end CallFlaws

/-! ## What else can be refused -/

/-- The computation does not fail for a call fault. -/
def Asking.Binds {α : Type} (m : Asking α) : Prop :=
  ∀ cause, m.result = .error cause → cause.isCallFault = false

section Evaluations

variable {α β : Type} {env : Environment} {t : Turtle}

theorem Asking.Binds.pure (a : α) : Asking.Binds (pure a : Asking α) := by
  intro cause h
  exact absurd h (by simp)

theorem Asking.Binds.bind {m : Asking α} {f : α → Asking β} (hm : Asking.Binds m)
    (hf : ∀ a, Asking.Binds (f a)) : Asking.Binds (m >>= f) := by
  intro cause h
  rcases Traced.bind_eq_error_iff.1 h with h | ⟨a, _, h⟩
  · exact hm cause h
  · exact hf a cause h

theorem Value.binds_asNumber (v : Value) (span : Span) :
    Asking.Binds (.ofExcept (v.asNumber span) : Asking Float) := by
  intro cause h
  rw [Value.asNumber_eq_error h]
  rfl

theorem Value.binds_asTruth (v : Value) (span : Span) :
    Asking.Binds (.ofExcept (v.asTruth span) : Asking Bool) := by
  intro cause h
  rw [Value.asTruth_eq_error h]
  rfl

theorem Environment.binds_read (env : Environment) (name : Text) (span : Span) :
    Asking.Binds (.ofExcept (env.read name span) : Asking Value) := by
  intro cause h
  rcases Environment.read_eq_error h with rfl | rfl <;> rfl

theorem Turtle.binds_measure (t : Turtle) (q : Query) :
    Asking.Binds (.ofExcept (t.measure q) : Asking Float) := by
  intro cause h
  rw [(Turtle.measure_eq_error h).2.2]
  rfl

theorem BinaryOp.binds_checkLeft (op : BinaryOp) (span : Span) (a : Value) :
    Asking.Binds (.ofExcept (op.checkLeft span a) : Asking Unit) := by
  intro cause h
  rw [BinaryOp.checkLeft_eq_error h]
  rfl

theorem BinaryOp.binds_apply (op : BinaryOp) (left right span : Span) (a b : Value) :
    Asking.Binds (.ofExcept (op.apply left right span a b) : Asking Value) := by
  intro cause h
  obtain ⟨kind, htyping, _, _, rfl⟩ := BinaryOp.exists_refusal_of_apply h
  exact ErrorKind.isCallFault_eq_false_of_typing htyping

/-- No expression is refused for a call fault, for there are no calls in expressions. -/
theorem Expr.binds_eval (expr : Expr) : Asking.Binds (expr.eval env t) := by
  induction expr with
  | truth value span | number value span => exact .pure _
  | var name span => exact env.binds_read name span
  | malformed flaw =>
    intro cause h
    cases h
    rfl
  | query q span =>
    have hlog : Asking.Binds (Traced.log q : Asking Unit) := fun cause h => absurd h (by simp)
    exact hlog.bind fun _ => (t.binds_measure q).bind fun x => .pure _
  | binary op left right span ihleft ihright =>
    refine ihleft.bind fun a => ?_
    refine (op.binds_checkLeft span a).bind fun _ => ?_
    exact ihright.bind fun b => op.binds_apply _ _ _ a b

theorem Expr.binds_evalNumber (expr : Expr) : Asking.Binds (expr.evalNumber env t) :=
  expr.binds_eval.bind fun v => v.binds_asNumber expr.span

theorem Expr.binds_evalTruth (expr : Expr) : Asking.Binds (expr.evalTruth env t) :=
  expr.binds_eval.bind fun v => v.binds_asTruth expr.span

theorem binds_evalAll (args : List Expr) : Asking.Binds (evalAll env t args) := by
  induction args with
  | nil => exact .pure _
  | cons arg rest ih => exact arg.binds_eval.bind fun v => ih.bind fun vs => .pure _

theorem Environment.binds_readNumber (env : Environment) (name : Text) (span : Span) :
    Asking.Binds (.ofExcept (env.readNumber name span) : Asking Float) := by
  intro cause h
  rcases Except.bind_eq_error_iff.1 h with h | ⟨v, _, h⟩
  · exact env.binds_read name span cause h
  · exact v.binds_asNumber span cause h

theorem Command.binds_action (cmd : Command) (value : Expr) :
    Asking.Binds (cmd.action env t value) := by
  intro cause h
  rcases Command.action_eq_error h with h | rfl | rfl
  · exact value.binds_evalNumber cause h
  · rfl
  · rfl

end Evaluations

/-! ## Steps -/

section Steps

variable {p : Program} {env : Environment} {t : Turtle}

/-- **Only a call that cannot be bound is refused for a call fault.** -/
theorem Stmt.exists_call_of_isCallFault {stmt : Stmt} {cause : Refusal}
    (h : stmt.Fails p env t cause) (hcause : cause.isCallFault = true) :
    ∃ name span args line, stmt = .call (.named name span) args line ∧
      p.callee name span args.length = .error cause := by
  have hnot : ∀ {α : Type} {m : Asking α}, m.Binds → m.result ≠ .error cause := by
    intro α m hm herror
    rw [hm cause herror] at hcause
    exact absurd hcause (by simp)
  cases h with
  | condition h => exact absurd h (hnot (Expr.binds_evalTruth _))
  | makeValue h => exact absurd h (hnot (Expr.binds_eval _))
  | makeTarget | increaseTarget | callName => exact absurd hcause (by simp [Refusal.isCallFault])
  | increaseOld h => exact absurd h (hnot (env.binds_readNumber _ _))
  | increaseValue _ h => exact absurd h (hnot (Expr.binds_evalNumber _))
  | command h => exact absurd h (hnot (Command.binds_action _ _))
  | callee h => exact ⟨_, _, _, _, rfl, h⟩
  | args _ h => exact absurd h (hnot (binds_evalAll _))

/-- **A call with a flaw is refused for it** by a step with private variables, whatever the variables
    and the turtle are, and nothing is asked before. -/
theorem Config.step_of_callFlaw {c : Config} {name : Text} {span : Span} {args : List Expr}
    {line : Nat} {rest : List Stmt} {caller : Option Environment} {outer : List Block} {flaw : Flaw}
    (hprivate : p.privateVariables = true)
    (hparams : ∀ entry ∈ p.table.entries, ∀ param ∈ entry.2.params, param.IsName)
    (hflaw : p.table.callFlaw? name span args.length = some flaw)
    (hblocks : c.blocks = ⟨.call (.named name span) args line :: rest, caller⟩ :: outer) :
    c.step p = .refused (.flaw flaw) line c := by
  have hcallee := Program.callee_of_callFlaw hprivate hparams hflaw
  have heffect : (Stmt.call (.named name span) args line).effect p c.env c.turtle =
      ⟨[], .error (.flaw flaw)⟩ := by
    change (Traced.ofExcept (p.callee name span args.length) >>= fun f =>
      evalAll c.env c.turtle args >>= fun values => pure (Effect.call name f values)) = _
    rw [hcallee]
    rfl
  rw [Config.step_of_statement hblocks, Config.decided, heffect]
  rfl

end Steps

end LogoLang
