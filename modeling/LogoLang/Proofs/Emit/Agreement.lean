import LogoLang.Proofs.Emit.Types

set_option autoImplicit false

/-! # Emission and evaluation agree

An expression that has a type evaluates to a value of this type, unless it divides by a computed zero
or asks for a heading that is out of range (`Expr.settles`). An expression that evaluates has a type
and divides by no literal zero. Together with the rule that emission keeps to, this says what the
static check of an expression is worth (`emit_agrees_with_eval`). -/

namespace LogoLang

/-! ## Variables -/

/-- The variables that an expression reads. -/
def Expr.reads : Expr → List Text
  | .var name _ => [name]
  | .binary _ left right _ => left.reads ++ right.reads
  | .truth .. | .number .. | .query .. | .malformed .. => []

/-- A name to which the scope gives a type has a value of this type. -/
def Scope.Fits (scope : Scope) (env : Environment) (name : Text) : Prop :=
  ∀ ty, Bindings.get? scope name = some ty →
    ∃ v, Bindings.get? env name = some (some v) ∧ v.isTruth = ty

/-- Every variable that is there has a value, and the scope holds exactly these variables, each with
    whether its value is a truth value. -/
structure Scope.Describes (scope : Scope) (env : Environment) : Prop where
  bound : ∀ name, Bindings.get? env name ≠ some none
  types : ∀ name, Bindings.get? scope name =
    (Bindings.get? env name).bind fun value => value.map Value.isTruth

theorem Scope.Describes.fits {scope : Scope} {env : Environment} (h : scope.Describes env)
    (name : Text) : scope.Fits env name := by
  intro ty hty
  have htypes := h.types name
  rw [hty] at htypes
  cases henv : Bindings.get? env name with
  | none => simp [henv] at htypes
  | some value =>
    cases value with
    | none => exact absurd henv (h.bound name)
    | some v => exact ⟨v, rfl, by simpa [henv] using htypes.symm⟩

/-! ## Typed expressions -/

/-- How the evaluation of an expression of a type can end. -/
inductive Settles (ty : Bool) (t : Turtle) : Except Refusal Value → Prop where
  | value {v : Value} (htype : v.isTruth = ty) : Settles ty t (.ok v)
  | zeroDivisor {span : Span} : Settles ty t (.error (refusal .divideByZero span))
  | lostHeading (h : doubleOfInt? t.direction = none) :
      Settles ty t (.error (.turtle .headingTooLarge))

section Agreement

variable {scope : Scope} {env : Environment} {t : Turtle}

/-- The type has no part in how an evaluation fails. -/
theorem Settles.of_error {ty ty' : Bool} {cause : Refusal} (h : Settles ty t (.error cause)) :
    Settles ty' t (.error cause) := by
  cases h with
  | zeroDivisor => exact .zeroDivisor
  | lostHeading h => exact .lostHeading h

theorem Settles.isTruth_eq {ty : Bool} {v : Value} (h : Settles ty t (.ok v)) : v.isTruth = ty := by
  cases h with
  | value htype => exact htype

theorem Environment.settles_read {name : Text} {span : Span} {ty : Bool}
    (hfits : scope.Fits env name) (htype : Bindings.get? scope name = some ty) :
    Settles ty t (env.read name span) := by
  obtain ⟨v, henv, hv⟩ := hfits ty htype
  rw [Environment.read_eq_ok_iff.2 henv]
  exact .value hv

theorem Turtle.settles_measure (q : Query) (span : Span) :
    Settles false t ((Expr.query q span).eval env t).result := by
  cases hmeasure : t.measure q with
  | ok x =>
    have heval : ((Expr.query q span).eval env t).result = .ok (.number x) := by
      simp only [Expr.eval, Traced.bind_eq_ok_iff, Traced.result_ofExcept]
      exact ⟨(), rfl, x, hmeasure, rfl⟩
    rw [heval]
    exact .value rfl
  | error cause =>
    have heval : ((Expr.query q span).eval env t).result = .error cause := by
      simp only [Expr.eval, Traced.bind_eq_error_iff, Traced.result_ofExcept]
      exact Or.inr ⟨(), rfl, Or.inl hmeasure⟩
    obtain ⟨_, hnone, hcause⟩ := Turtle.measure_eq_error hmeasure
    rw [heval, hcause]
    exact .lostHeading hnone

/-- **An expression of a type evaluates to a value of this type**, unless a divisor turns out to be
    zero or the heading is out of range. -/
theorem Expr.settles {expr : Expr} {ty : Bool} (htype : expr.typeIn scope = some ty)
    (hfits : ∀ name ∈ expr.reads, scope.Fits env name) :
    Settles ty t (expr.eval env t).result := by
  induction expr generalizing ty with
  | truth value span | number value span =>
    cases htype
    exact .value rfl
  | malformed flaw => simp [Expr.typeIn] at htype
  | var name span => exact Environment.settles_read (hfits name (List.mem_singleton_self _)) htype
  | query q span =>
    cases htype
    exact Turtle.settles_measure q span
  | binary op left right span ihleft ihright =>
    obtain ⟨x, y, hx, hy, hop⟩ := Expr.typeIn_binary_eq_some.1 htype
    obtain ⟨hreadsLeft, hreadsRight⟩ := List.forall_mem_append.1 hfits
    have hleft := ihleft hx hreadsLeft
    have hright := ihright hy hreadsRight
    simp only [Expr.eval, Traced.result_bind, Traced.result_ofExcept]
    cases ha : (left.eval env t).result with
    | error cause =>
      rw [ha] at hleft
      exact hleft.of_error
    | ok a =>
      rw [ha] at hleft
      -- an operand of the right type passes the look that is taken at it first
      rw [← hleft.isTruth_eq] at hop
      simp only [Except.bind, BinaryOp.checkLeft_of_typeOf hop]
      cases hb : (right.eval env t).result with
      | error cause =>
        rw [hb] at hright
        exact hright.of_error
      | ok b =>
        rw [hb] at hright
        rw [← hright.isTruth_eq] at hop
        show Settles ty t (op.apply left.span right.span span a b)
        cases happly : op.apply left.span right.span span a b with
        | ok v =>
          have hv := BinaryOp.apply_eq_ok happly
          rw [hop] at hv
          exact .value (Option.some.inj hv).symm
        | error cause =>
          rw [BinaryOp.apply_eq_error hop happly]
          exact .zeroDivisor

/-! ## Expressions that evaluate -/

/-- The parts of an evaluation that ends well. -/
theorem Expr.eval_binary_eq_ok_iff {op : BinaryOp} {left right : Expr} {span : Span} {v : Value} :
    ((Expr.binary op left right span).eval env t).result = .ok v ↔
      ∃ a, (left.eval env t).result = .ok a ∧ op.checkLeft span a = .ok () ∧
        ∃ b, (right.eval env t).result = .ok b ∧
          op.apply left.span right.span span a b = .ok v := by
  simp only [Expr.eval, Traced.bind_eq_ok_iff, Traced.result_ofExcept]
  constructor
  · rintro ⟨a, ha, _, hcheck, b, hb, happly⟩
    exact ⟨a, ha, hcheck, b, hb, happly⟩
  · rintro ⟨a, ha, hcheck, b, hb, happly⟩
    exact ⟨a, ha, (), hcheck, b, hb, happly⟩

/-- An expression that evaluates has the type of its value. -/
theorem Expr.typeIn_of_eval {expr : Expr} {v : Value} (hscope : scope.Describes env)
    (h : (expr.eval env t).result = .ok v) : expr.typeIn scope = some v.isTruth := by
  induction expr generalizing v with
  | truth value span | number value span =>
    cases h
    rfl
  | malformed flaw => exact absurd h (by simp [Expr.eval])
  | var name span =>
    rw [Expr.typeIn, hscope.types name]
    rw [Expr.eval, Traced.result_ofExcept, Environment.read_eq_ok_iff] at h
    simp [h]
  | query q span =>
    simp only [Expr.eval, Traced.bind_eq_ok_iff] at h
    obtain ⟨_, _, x, _, h⟩ := h
    cases h
    rfl
  | binary op left right span ihleft ihright =>
    obtain ⟨a, ha, _, b, hb, happly⟩ := Expr.eval_binary_eq_ok_iff.1 h
    exact Expr.typeIn_binary_eq_some.2
      ⟨a.isTruth, b.isTruth, ihleft ha, ihright hb, BinaryOp.apply_eq_ok happly⟩

/-- Nothing is divided by zero. -/
theorem BinaryOp.apply_div_zero {left right span : Span} {a v : Value} {x : Float}
    (hzero : (x == 0) = true) : BinaryOp.div.apply left right span a (.number x) ≠ .ok v := by
  cases a with
  | number y => simp [BinaryOp.apply, BinaryOp.opClass, BinaryOp.arithmetic, Value.asNumber, hzero,
      bind, Except.bind]
  | truth b => simp [BinaryOp.apply, BinaryOp.opClass, Value.asNumber, bind, Except.bind]

theorem Expr.eq_number_of_isZero {expr : Expr} (h : expr.isZero = true) :
    ∃ x span, expr = .number x span ∧ (x == 0) = true := by
  cases expr with
  | number x span => exact ⟨x, span, rfl, h⟩
  | truth | var | malformed | binary | query => simp [Expr.isZero] at h

/-- An expression that evaluates divides by no literal zero. -/
theorem Expr.dividesByZero_of_eval {expr : Expr} {v : Value}
    (h : (expr.eval env t).result = .ok v) : expr.dividesByZero = false := by
  induction expr generalizing v with
  | binary op left right span ihleft ihright =>
    obtain ⟨a, ha, _, b, hb, happly⟩ := Expr.eval_binary_eq_ok_iff.1 h
    rw [Expr.dividesByZero, ihleft ha, ihright hb, Bool.or_false, Bool.or_false,
      Bool.and_eq_false_iff, decide_eq_false_iff_not]
    by_cases hdiv : op = .div
    · refine Or.inr (Bool.eq_false_iff.2 fun hzero => ?_)
      obtain ⟨x, s, rfl, hx⟩ := Expr.eq_number_of_isZero hzero
      subst hdiv
      cases hb
      exact BinaryOp.apply_div_zero hx happly
    · exact Or.inl hdiv
  | truth | number | var | query | malformed => rfl

/-! ## Agreement -/

/-- As long as the heading is in range, an error-free expression is refused for a flaw. -/
theorem Expr.exists_flaw_of_eval {expr : Expr} {cause : Refusal} (hfree : expr.IsErrorFree)
    (hheading : (doubleOfInt? t.direction).isSome = true)
    (h : (expr.eval env t).result = .error cause) : ∃ flaw, cause = .flaw flaw := by
  induction expr generalizing cause with
  | truth value span => exact absurd h (by simp [Expr.eval])
  | number value span => exact absurd h (by simp [Expr.eval])
  | malformed flaw => exact absurd hfree (Expr.not_isErrorFree_malformed flaw)
  | var name span =>
    rcases Environment.read_eq_error h with rfl | rfl
    · exact ⟨_, rfl⟩
    · exact ⟨_, rfl⟩
  | query q span =>
    have hsettles : Settles false t ((Expr.query q span).eval env t).result :=
      Turtle.settles_measure q span
    rw [h] at hsettles
    cases hsettles with
    | zeroDivisor => exact ⟨_, rfl⟩
    | lostHeading hnone => simp [hnone] at hheading
  | binary op left right span ihleft ihright =>
    obtain ⟨hleft, hright⟩ := Expr.isErrorFree_binary.1 hfree
    simp only [Expr.eval, Traced.bind_eq_error_iff, Traced.result_ofExcept] at h
    rcases h with h | ⟨a, _, h | ⟨_, _, h | ⟨b, _, h⟩⟩⟩
    · exact ihleft hleft h
    · exact ⟨_, BinaryOp.checkLeft_eq_error h⟩
    · exact ihright hright h
    · obtain ⟨kind, _, s, _, rfl⟩ := BinaryOp.exists_refusal_of_apply h
      exact ⟨_, rfl⟩

/-- **The static check of an expression agrees with its evaluation, up to computed zero divisors.** -/
theorem emit_agrees_with_eval {expr : Expr} (hfree : expr.IsErrorFree)
    (hscope : scope.Describes env) (hheading : (doubleOfInt? t.direction).isSome = true) :
    (∀ code, (expr.emit scope).result = .ok code →
      (∃ v, (expr.eval env t).result = .ok v ∧ v.isTruth = code.isTruth) ∨
        ∃ span, (expr.eval env t).result = .error (refusal .divideByZero span)) ∧
    ∀ fault, (expr.emit scope).result = .error fault →
      (∃ flaw, fault = .flaw flaw) ∧ ∃ flaw, (expr.eval env t).result = .error (.flaw flaw) := by
  refine ⟨fun code hemit => ?_, fun fault hemit => ?_⟩
  · have hsettles : Settles code.isTruth t (expr.eval env t).result :=
      Expr.settles (Expr.typeIn_of_emit hemit) fun name _ => hscope.fits name
    cases heval : (expr.eval env t).result with
    | ok v =>
      rw [heval] at hsettles
      exact Or.inl ⟨v, rfl, hsettles.isTruth_eq⟩
    | error cause =>
      rw [heval] at hsettles
      cases hsettles with
      | zeroDivisor => exact Or.inr ⟨_, rfl⟩
      | lostHeading hnone => simp [hnone] at hheading
  · obtain ⟨hcites, hwhy⟩ := Expr.refused_of_emit hfree hemit
    refine ⟨?_, ?_⟩
    · cases fault with
      | flaw flaw => exact ⟨flaw, rfl⟩
      | malformed => exact absurd rfl hcites.ne_malformed
    · cases heval : (expr.eval env t).result with
      | error cause =>
        obtain ⟨flaw, rfl⟩ := Expr.exists_flaw_of_eval hfree hheading heval
        exact ⟨flaw, rfl⟩
      | ok v =>
        -- a value would give the expression a type, and exclude a literal zero as divisor
        rcases hwhy with hnone | hzero
        · rw [Expr.typeIn_of_eval hscope heval] at hnone
          exact absurd hnone (by simp)
        · rw [Expr.dividesByZero_of_eval heval] at hzero
          exact absurd hzero (by simp)

end Agreement

/-- A quotient by a variable with the value zero is emitted, and refused when it is evaluated. -/
theorem emit_agrees_with_eval_quotient :
    (Expr.binary .div (.number 1 ⟨2, 2⟩) (.var ['x'] ⟨5, 2⟩) ⟨0, 7⟩).IsErrorFree ∧
      Scope.Describes [(['x'], false)] [(['x'], some (.number 0))] ∧
      (doubleOfInt? (Turtle.direction ⟨.default, .default, 200, 200, 0, false, 7, [], []⟩)).isSome ∧
      ∃ span, ((Expr.binary .div (.number 1 ⟨2, 2⟩) (.var ['x'] ⟨5, 2⟩) ⟨0, 7⟩).eval
        [(['x'], some (.number 0))] ⟨.default, .default, 200, 200, 0, false, 7, [], []⟩).result =
          .error (refusal .divideByZero span) := by
  have hfree : (Expr.binary .div (.number 1 ⟨2, 2⟩) (.var ['x'] ⟨5, 2⟩) ⟨0, 7⟩).IsErrorFree :=
    Expr.isErrorFree_iff.2 rfl
  have hscope : Scope.Describes [(['x'], false)] [(['x'], some (.number 0))] := by
    constructor <;> intro name <;> by_cases h : ['x'] = name <;> simp [Bindings.get?, h, Value.isTruth]
  have hheading : (doubleOfInt? (Turtle.direction
      ⟨.default, .default, 200, 200, 0, false, 7, [], []⟩)).isSome = true := by decide
  refine ⟨hfree, hscope, hheading, ?_⟩
  rcases (emit_agrees_with_eval hfree hscope hheading).1 _ rfl with ⟨v, hv, _⟩ | hzero
  · cases hv
  · exact hzero

end LogoLang
