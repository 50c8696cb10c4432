set_option autoImplicit false

/-! # Computations that leave a trace

A `Traced` computation ends with a value or with a failure, and leaves a list of what it did along the
way. The trace of a computation that fails is kept: it says what was done before the failure. -/

namespace LogoLang

/-- The trace of a computation and its result. -/
structure Traced (τ ε α : Type) where
  trace : List τ
  result : Except ε α

/-- A computation that does nothing but give a value. -/
def Traced.ok {τ ε α : Type} (a : α) : Traced τ ε α := ⟨[], .ok a⟩

/-- A computation that fails at once. -/
def Traced.fail {τ ε α : Type} (e : ε) : Traced τ ε α := ⟨[], .error e⟩

/-- Leaves one entry in the trace. -/
def Traced.log {τ ε : Type} (t : τ) : Traced τ ε Unit := ⟨[t], .ok ()⟩

/-- A computation that does nothing but give or fail with a result. -/
def Traced.ofExcept {τ ε α : Type} (result : Except ε α) : Traced τ ε α := ⟨[], result⟩

/-- One computation after the other; nothing follows a failure. -/
def Traced.andThen {τ ε α β : Type} (m : Traced τ ε α) (f : α → Traced τ ε β) : Traced τ ε β :=
  match m.result with
  | .ok a => ⟨m.trace ++ (f a).trace, (f a).result⟩
  | .error e => ⟨m.trace, .error e⟩

instance {τ ε : Type} : Monad (Traced τ ε) where
  pure := Traced.ok
  bind := Traced.andThen

variable {τ ε α β : Type}

@[simp]
theorem Traced.result_pure (a : α) : (pure a : Traced τ ε α).result = .ok a := rfl

@[simp]
theorem Traced.trace_pure (a : α) : (pure a : Traced τ ε α).trace = [] := rfl

/-- The results of computations follow each other as they would without a trace. -/
@[simp]
theorem Traced.result_bind (m : Traced τ ε α) (f : α → Traced τ ε β) :
    (m >>= f).result = m.result.bind fun a => (f a).result := by
  obtain ⟨trace, result⟩ := m
  cases result <;> rfl

theorem Traced.trace_bind_ok {m : Traced τ ε α} {a : α} (h : m.result = .ok a)
    (f : α → Traced τ ε β) : (m >>= f).trace = m.trace ++ (f a).trace := by
  obtain ⟨trace, result⟩ := m
  cases h
  rfl

theorem Traced.trace_bind_error {m : Traced τ ε α} {e : ε} (h : m.result = .error e)
    (f : α → Traced τ ε β) : (m >>= f).trace = m.trace := by
  obtain ⟨trace, result⟩ := m
  cases h
  rfl

theorem Traced.id_map (m : Traced τ ε α) : id <$> m = m := by
  obtain ⟨trace, result⟩ := m
  cases result with
  | ok a => exact congrArg (Traced.mk · (.ok a)) (List.append_nil trace)
  | error e => rfl

theorem Traced.bind_assoc {γ : Type} (m : Traced τ ε α) (f : α → Traced τ ε β)
    (g : β → Traced τ ε γ) : m >>= f >>= g = m >>= fun a => f a >>= g := by
  obtain ⟨trace, result⟩ := m
  cases result with
  | error e => rfl
  | ok a =>
    show Traced.andThen (Traced.andThen _ _) _ = Traced.andThen _ _
    simp only [Traced.andThen]
    cases h : (f a).result with
    | error e => simp [h, bind, Traced.andThen]
    | ok b => simp [h, bind, Traced.andThen, List.append_assoc]

theorem Traced.pure_bind (a : α) (f : α → Traced τ ε β) : pure a >>= f = f a := rfl

instance : LawfulMonad (Traced τ ε) :=
  LawfulMonad.mk' _ Traced.id_map Traced.pure_bind Traced.bind_assoc

end LogoLang
