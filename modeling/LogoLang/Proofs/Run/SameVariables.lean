import LogoLang.Proofs.Run.Effects

set_option autoImplicit false

/-! # Variables in another order

A program sees the values of its variables, but not the order in which they were first bound.
Environments with the same variables are interchangeable for evaluation and for everything that
changes variables. -/

namespace LogoLang

/-- The second environment has the variables of the first one, with the same values. -/
def Environment.Same (env env' : Environment) : Prop :=
  ∀ name, Bindings.get? env' name = Bindings.get? env name

theorem Environment.Same.refl (env : Environment) : Environment.Same env env := fun _ => rfl

variable {env env' : Environment} {t : Turtle}

/-! ## Changes -/

theorem Bindings.get?_set {α : Type} (b : Bindings α) (name other : Text) (value : α) :
    Bindings.get? (Bindings.set b name value) other =
      if name = other then some value else Bindings.get? b other := by
  by_cases h : name = other
  · rw [if_pos h, ← h, Bindings.get?_set_self]
  · rw [if_neg h, Bindings.get?_set_of_ne b value h]

theorem Environment.Same.set (h : Environment.Same env env') (name : Text) (value : Option Value) :
    Environment.Same (Bindings.set env name value) (Bindings.set env' name value) := by
  intro other
  rw [Bindings.get?_set, Bindings.get?_set, h]

theorem Environment.Same.declare (h : Environment.Same env env') (name : Text) :
    Environment.Same (env.declare name) (env'.declare name) := by
  rw [Environment.declare, Environment.declare, Bindings.contains, Bindings.contains, h]
  by_cases hbound : (Bindings.get? env name).isSome = true
  · rw [if_pos hbound, if_pos hbound]
    exact h
  · rw [if_neg hbound, if_neg hbound]
    exact h.set name none

theorem Environment.Same.declareAll (h : Environment.Same env env') (names : List Text) :
    Environment.Same (env.declareAll names) (env'.declareAll names) := by
  induction names generalizing env env' with
  | nil => exact h
  | cons name rest ih => exact ih (h.declare name)

theorem Environment.Same.setAll (h : Environment.Same env env')
    (pairs : List (Text × Option Value)) :
    Environment.Same (Bindings.setAll env pairs) (Bindings.setAll env' pairs) := by
  induction pairs generalizing env env' with
  | nil => exact h
  | cons pair rest ih => exact ih (h.set pair.1 pair.2)

theorem Environment.get?_declare (env : Environment) (name other : Text) :
    Bindings.get? (env.declare name) other =
      if name = other then some ((Bindings.get? env other).getD none)
      else Bindings.get? env other := by
  by_cases h : name = other
  · subst h
    rw [if_pos rfl, Environment.declare, Bindings.contains]
    cases hget : Bindings.get? env name with
    | none => simp
    | some value => simp [hget]
  · rw [if_neg h, Environment.declare]
    by_cases hbound : Bindings.contains env name = true
    · rw [if_pos hbound]
    · rw [if_neg hbound, Bindings.get?_set_of_ne env none h]

theorem Environment.get?_declareAll (env : Environment) (names : List Text) (other : Text) :
    Bindings.get? (env.declareAll names) other =
      if other ∈ names then some ((Bindings.get? env other).getD none)
      else Bindings.get? env other := by
  induction names generalizing env with
  | nil => simp [Environment.declareAll]
  | cons name rest ih =>
    show Bindings.get? ((env.declare name).declareAll rest) other = _
    rw [ih, Environment.get?_declare]
    by_cases heq : name = other
    · simp [heq]
    · simp [heq, Ne.symm heq]

/-- The order of the declarations does not matter. -/
theorem Environment.same_declareAll (env : Environment) {names names' : List Text}
    (h : ∀ name, name ∈ names' ↔ name ∈ names) :
    Environment.Same (env.declareAll names) (env.declareAll names') := by
  intro other
  simp only [Environment.get?_declareAll, h]

/-! ## Evaluation -/

theorem Environment.Same.read (h : Environment.Same env env') (name : Text) (span : Span) :
    env'.read name span = env.read name span := by
  rw [Environment.read, Environment.read, h]

theorem Environment.Same.eval (h : Environment.Same env env') (expr : Expr) :
    expr.eval env' t = expr.eval env t := by
  induction expr with
  | var name span => rw [Expr.eval, Expr.eval, h.read]
  | binary op left right span ihleft ihright => rw [Expr.eval, Expr.eval, ihleft, ihright]
  | truth | number | malformed | query => rfl

theorem Environment.Same.evalNumber (h : Environment.Same env env') (expr : Expr) :
    expr.evalNumber env' t = expr.evalNumber env t := by
  rw [Expr.evalNumber, Expr.evalNumber, h.eval]

theorem Environment.Same.evalTruth (h : Environment.Same env env') (expr : Expr) :
    expr.evalTruth env' t = expr.evalTruth env t := by
  rw [Expr.evalTruth, Expr.evalTruth, h.eval]

theorem Environment.Same.evalInteger (h : Environment.Same env env') (expr : Expr) :
    expr.evalInteger env' t = expr.evalInteger env t := by
  rw [Expr.evalInteger, Expr.evalInteger, h.evalNumber]

theorem Environment.Same.evalAll (h : Environment.Same env env') (args : List Expr) :
    evalAll env' t args = evalAll env t args := by
  induction args with
  | nil => rfl
  | cons arg rest ih => rw [LogoLang.evalAll, LogoLang.evalAll, h.eval, ih]

theorem Environment.Same.readNumber (h : Environment.Same env env') (name : Text) (span : Span) :
    env'.readNumber name span = env.readNumber name span := by
  rw [Environment.readNumber, Environment.readNumber, h.read]

theorem Environment.Same.action (h : Environment.Same env env') (value : Expr) (cmd : Command) :
    cmd.action env' t value = cmd.action env t value := by
  cases cmd <;> simp only [Command.action, h.evalNumber, h.evalInteger]

end LogoLang
