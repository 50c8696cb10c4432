import LogoLang.Traced

set_option autoImplicit false

/-! # Taking results apart

A computation of several parts ends well exactly if all of its parts do, and the first part that
fails decides how it fails. The same holds of computations that leave a trace. -/

namespace LogoLang

variable {τ ε α β : Type}

theorem Except.bind_eq_ok_iff {m : Except ε α} {f : α → Except ε β} {b : β} :
    (m >>= f) = .ok b ↔ ∃ a, m = .ok a ∧ f a = .ok b := by
  cases m with
  | ok a => simp [bind, Except.bind]
  | error e => simp [bind, Except.bind]

theorem Except.exists_of_isOk {m : Except ε α} (h : m.isOk = true) : ∃ a, m = .ok a := by
  cases m with
  | ok a => exact ⟨a, rfl⟩
  | error e => exact absurd h (by simp [Except.isOk, Except.toBool])

theorem Except.exists_of_any {m : Except ε α} {p : α → Bool} (h : m.toOption.any p = true) :
    ∃ a, m = .ok a ∧ p a = true := by
  cases m with
  | ok a => exact ⟨a, rfl, h⟩
  | error e => exact absurd h (by simp [Except.toOption])

theorem Except.eq_ok_of_toOption {m : Except ε α} {a : α} (h : m.toOption = some a) : m = .ok a := by
  cases m with
  | ok b => exact congrArg Except.ok (Option.some.inj h)
  | error e => exact absurd h (by simp [Except.toOption])

/-- Of two steps one after the other, the first that fails decides. -/
theorem Except.bind_eq_error_iff {m : Except ε α} {f : α → Except ε β} {e : ε} :
    (m >>= f) = .error e ↔ m = .error e ∨ ∃ a, m = .ok a ∧ f a = .error e := by
  cases m with
  | ok a => simp [bind, Except.bind]
  | error e' => simp [bind, Except.bind]

theorem Traced.bind_eq_ok_iff {m : Traced τ ε α} {f : α → Traced τ ε β} {b : β} :
    (m >>= f).result = .ok b ↔ ∃ a, m.result = .ok a ∧ (f a).result = .ok b := by
  rw [Traced.result_bind]
  exact Except.bind_eq_ok_iff

theorem Traced.bind_eq_error_iff {m : Traced τ ε α} {f : α → Traced τ ε β} {e : ε} :
    (m >>= f).result = .error e ↔
      m.result = .error e ∨ ∃ a, m.result = .ok a ∧ (f a).result = .error e := by
  rw [Traced.result_bind]
  exact Except.bind_eq_error_iff

theorem Traced.mem_trace_bind {m : Traced τ ε α} {f : α → Traced τ ε β} {entry : τ}
    (h : entry ∈ m.trace) : entry ∈ (m >>= f).trace := by
  cases hresult : m.result with
  | ok a =>
    rw [Traced.trace_bind_ok hresult]
    exact List.mem_append_left _ h
  | error e =>
    rw [Traced.trace_bind_error hresult]
    exact h

@[simp]
theorem Traced.result_ofExcept (result : Except ε α) :
    (Traced.ofExcept result : Traced τ ε α).result = result := rfl

@[simp]
theorem Traced.result_fail (e : ε) : (Traced.fail e : Traced τ ε α).result = .error e := rfl

@[simp]
theorem Traced.result_log (t : τ) : (Traced.log t : Traced τ ε Unit).result = .ok () := rfl

/-! ## Results that agree -/

/-- Both results are values that are related, or both are errors that are related. -/
inductive Agree {ε' α' : Type} (value : α → α' → Prop) (error : ε → ε' → Prop) :
    Except ε α → Except ε' α' → Prop where
  | ok {a : α} {a' : α'} (h : value a a') : Agree value error (.ok a) (.ok a')
  | error {e : ε} {e' : ε'} (h : error e e') : Agree value error (.error e) (.error e')

section Agree

variable {ε' α' : Type} {value : α → α' → Prop} {error : ε → ε' → Prop} {m : Except ε α}
  {m' : Except ε' α'}

theorem Agree.exists_ok {a : α} (h : Agree value error (.ok a) m') : ∃ a', m' = .ok a' ∧ value a a' := by
  cases h with
  | ok h => exact ⟨_, rfl, h⟩

theorem Agree.exists_error {e : ε} (h : Agree value error (.error e) m') :
    ∃ e', m' = .error e' ∧ error e e' := by
  cases h with
  | error h => exact ⟨_, rfl, h⟩

/-- Values that are related in one way may be related in another. -/
theorem Agree.imp {value' : α → α' → Prop} (h : Agree value error m m')
    (hvalue : ∀ a a', value a a' → value' a a') : Agree value' error m m' := by
  cases h with
  | ok h => exact .ok (hvalue _ _ h)
  | error h => exact .error h

/-- Computations that agree step by step agree. -/
theorem Agree.bind {β' : Type} {next : β → β' → Prop} {f : α → Except ε β} {f' : α' → Except ε' β'}
    (h : Agree value error m m') (hf : ∀ a a', value a a' → Agree next error (f a) (f' a')) :
    Agree next error (m >>= f) (m' >>= f') := by
  cases h with
  | ok h => exact hf _ _ h
  | error h => exact .error h

end Agree

/-- Both computations leave the same trace, and their results agree. -/
structure Traced.Agrees {ε' α' : Type} (value : α → α' → Prop) (error : ε → ε' → Prop)
    (m : Traced τ ε α) (m' : Traced τ ε' α') : Prop where
  trace : m'.trace = m.trace
  result : Agree value error m.result m'.result

theorem Traced.Agrees.pure {ε' α' : Type} {value : α → α' → Prop} {error : ε → ε' → Prop} {a : α}
    {a' : α'} (h : value a a') :
    Traced.Agrees value error (Pure.pure a : Traced τ ε α) (Pure.pure a' : Traced τ ε' α') :=
  ⟨rfl, .ok h⟩

/-- Computations that agree step by step agree. -/
theorem Traced.Agrees.bind {ε' α' β' : Type} {value : α → α' → Prop} {next : β → β' → Prop}
    {error : ε → ε' → Prop} {m : Traced τ ε α} {m' : Traced τ ε' α'} {f : α → Traced τ ε β}
    {f' : α' → Traced τ ε' β'} (h : Traced.Agrees value error m m')
    (hf : ∀ a a', value a a' → Traced.Agrees next error (f a) (f' a')) :
    Traced.Agrees next error (m >>= f) (m' >>= f') := by
  obtain ⟨trace, result⟩ := m
  obtain ⟨trace', result'⟩ := m'
  obtain ⟨htrace, hresult⟩ := h
  obtain rfl : trace' = trace := htrace
  cases hresult with
  | ok h =>
    obtain ⟨hnext, hagree⟩ := hf _ _ h
    refine ⟨?_, ?_⟩
    · rw [Traced.trace_bind_ok rfl, Traced.trace_bind_ok rfl, hnext]
    · rw [Traced.result_bind, Traced.result_bind]
      exact hagree
  | error h => exact ⟨rfl, .error h⟩

/-- The same computation first, and then computations that agree. -/
theorem Traced.Agrees.bind_same {β' : Type} {next : β → β' → Prop} (m : Traced τ ε α)
    {f : α → Traced τ ε β} {f' : α → Traced τ ε β'}
    (hf : ∀ a, Traced.Agrees next Eq (f a) (f' a)) : Traced.Agrees next Eq (m >>= f) (m >>= f') := by
  have hself : Traced.Agrees Eq Eq m m := by
    refine ⟨rfl, ?_⟩
    cases m.result with
    | ok a => exact .ok rfl
    | error e => exact .error rfl
  refine hself.bind ?_
  rintro a _ rfl
  exact hf a

end LogoLang
