import LogoLang.Emit.Expression
import LogoLang.Proofs.Run.Refusals

set_option autoImplicit false

/-! # Types of expressions

The types are told by one rule for each operator (`BinaryOp.typeOf`), from which the type of an
expression follows (`Expr.typeIn`). Emission keeps to this rule and besides refuses a division by a
literal zero (`Expr.typeIn_of_emit`, `Expr.refused_of_emit`), and operators on values keep to it, too
(`BinaryOp.apply_eq_ok`, `BinaryOp.apply_eq_error`). That the two walks look at the operands in
different orders does not matter any more from here on. -/

namespace LogoLang

/-! ## The rule -/

/-- The type of an operator's result from those of its operands, `true` for truth values; `none` if it
    does not go with them. -/
def BinaryOp.typeOf (op : BinaryOp) (a b : Bool) : Option Bool :=
  match op.opClass with
  | .arithmetic => if a = false ∧ b = false then some false else none
  | .equality => if a = b then some true else none
  | .comparison => if a = false ∧ b = false then some true else none
  | .logic => if a = true ∧ b = true then some true else none

/-- The type of an expression whose variables have the types that the scope gives them. -/
def Expr.typeIn (scope : Scope) : Expr → Option Bool
  | .truth _ _ => some true
  | .number _ _ => some false
  | .query _ _ => some false
  | .var name _ => Bindings.get? scope name
  | .malformed _ => none
  | .binary op left right _ =>
    match left.typeIn scope, right.typeIn scope with
    | some a, some b => op.typeOf a b
    | _, _ => none

/-- Whether an expression divides by a literal zero somewhere. -/
def Expr.dividesByZero : Expr → Bool
  | .binary op left right _ =>
    op = .div && right.isZero || left.dividesByZero || right.dividesByZero
  | .truth .. | .number .. | .query .. | .var .. | .malformed .. => false

theorem Expr.typeIn_binary_eq_some {scope : Scope} {op : BinaryOp} {left right : Expr} {span : Span}
    {b : Bool} :
    (Expr.binary op left right span).typeIn scope = some b ↔
      ∃ x y, left.typeIn scope = some x ∧ right.typeIn scope = some y ∧ op.typeOf x y = some b := by
  rw [Expr.typeIn]
  cases left.typeIn scope <;> cases right.typeIn scope <;> simp

/-! ## Operators on values -/

/-- Operands of the right types give a result of the right type. -/
theorem BinaryOp.apply_eq_ok {op : BinaryOp} {left right span : Span} {a b v : Value}
    (h : op.apply left right span a b = .ok v) :
    op.typeOf a.isTruth b.isTruth = some v.isTruth := by
  rw [BinaryOp.apply] at h
  rw [BinaryOp.typeOf]
  cases hclass : op.opClass with
  | arithmetic =>
    simp only [hclass, Except.bind_eq_ok_iff] at h
    obtain ⟨x, hx, y, hy, z, _, h⟩ := h
    cases a <;> cases hx
    cases b <;> cases hy
    cases h
    rfl
  | equality =>
    simp only [hclass] at h
    cases a <;> cases b <;> cases h <;> rfl
  | comparison =>
    simp only [hclass, Except.bind_eq_ok_iff] at h
    obtain ⟨x, hx, y, hy, h⟩ := h
    cases a <;> cases hx
    cases b <;> cases hy
    cases h
    rfl
  | logic =>
    simp only [hclass, Except.bind_eq_ok_iff] at h
    obtain ⟨x, hx, y, hy, h⟩ := h
    cases a <;> cases hx
    cases b <;> cases hy
    cases h
    rfl

theorem Value.exists_number {v : Value} (h : v.isTruth = false) : ∃ x, v = .number x := by
  cases v with
  | number x => exact ⟨x, rfl⟩
  | truth b => simp [Value.isTruth] at h

theorem Value.exists_truth {v : Value} (h : v.isTruth = true) : ∃ b, v = .truth b := by
  cases v with
  | number x => simp [Value.isTruth] at h
  | truth b => exact ⟨b, rfl⟩

/-- Operands of the right types are refused for a zero divisor only. -/
theorem BinaryOp.apply_eq_error {op : BinaryOp} {left right span : Span} {a b : Value} {ty : Bool}
    {cause : Refusal} (htype : op.typeOf a.isTruth b.isTruth = some ty)
    (h : op.apply left right span a b = .error cause) : cause = refusal .divideByZero span := by
  rw [BinaryOp.apply] at h
  rw [BinaryOp.typeOf] at htype
  cases hclass : op.opClass with
  | arithmetic =>
    simp only [hclass, Option.ite_none_right_eq_some] at h htype
    obtain ⟨x, rfl⟩ := Value.exists_number htype.1.1
    obtain ⟨y, rfl⟩ := Value.exists_number htype.1.2
    have harith : (op.arithmetic span x y >>= fun z => pure (Value.number z)) = .error cause := h
    rcases Except.bind_eq_error_iff.1 harith with h | ⟨z, _, h⟩
    · exact BinaryOp.arithmetic_eq_error h
    · exact absurd h (by simp [pure, Except.pure])
  | equality =>
    simp only [hclass, Option.ite_none_right_eq_some] at h htype
    cases a with
    | number x =>
      obtain ⟨y, rfl⟩ := Value.exists_number htype.1.symm
      cases h
    | truth x =>
      obtain ⟨y, rfl⟩ := Value.exists_truth htype.1.symm
      cases h
  | comparison =>
    simp only [hclass, Option.ite_none_right_eq_some] at h htype
    obtain ⟨x, rfl⟩ := Value.exists_number htype.1.1
    obtain ⟨y, rfl⟩ := Value.exists_number htype.1.2
    cases h
  | logic =>
    simp only [hclass, Option.ite_none_right_eq_some] at h htype
    obtain ⟨x, rfl⟩ := Value.exists_truth htype.1.1
    obtain ⟨y, rfl⟩ := Value.exists_truth htype.1.2
    cases h

/-- The look at the left operand anticipates the operator's own. -/
theorem BinaryOp.checkLeft_of_typeOf {op : BinaryOp} {span : Span} {a : Value} {b ty : Bool}
    (htype : op.typeOf a.isTruth b = some ty) : op.checkLeft span a = .ok () := by
  rw [BinaryOp.typeOf] at htype
  rw [BinaryOp.checkLeft]
  cases hclass : op.opClass with
  | arithmetic =>
    cases a with
    | number x => rfl
    | truth x => simp [hclass, Value.isTruth] at htype
  | equality | comparison | logic => rfl

/-! ## Emission -/

/-- An emission's fault that is a flaw at one of the given places. -/
def EmitFault.Cites (spans : List Span) : EmitFault → Prop
  | .flaw found => found.span ∈ spans
  | .malformed => False

theorem EmitFault.Cites.mono {spans spans' : List Span} {fault : EmitFault} (h : fault.Cites spans)
    (hsub : ∀ span ∈ spans, span ∈ spans') : fault.Cites spans' := by
  cases fault with
  | flaw found => exact hsub found.span h
  | malformed => exact h

theorem EmitFault.Cites.ne_malformed {spans : List Span} {fault : EmitFault}
    (h : fault.Cites spans) : fault ≠ .malformed := by
  rintro rfl
  exact h

section Emission

variable {scope : Scope}

@[simp]
theorem Emitting.result_refuse {α : Type} (kind : ErrorKind) (span : Span) :
    (Emitting.refuse kind span : Emitting α).result = .error (.flaw ⟨kind, span⟩) := rfl

@[simp]
theorem emitCall_result (method : Method) (args : List Text) :
    (emitCall method args).result =
      .ok ("draw.".toList ++ method.name ++ parenthesized (Text.join ", ".toList args)) := rfl

theorem checkOperands_eq_ok_iff {wanted : Bool} {kind : ErrorKind} {left right : Expr}
    {a b : Code} :
    (checkOperands wanted kind left right a b).result = .ok () ↔
      a.isTruth = wanted ∧ b.isTruth = wanted := by
  rw [checkOperands]
  by_cases ha : a.isTruth = wanted
  · by_cases hb : b.isTruth = wanted
    · simp [ha, hb]
    · simp [ha, hb]
  · simp [ha]

theorem checkOperands_eq_error {wanted : Bool} {kind : ErrorKind} {left right : Expr} {a b : Code}
    {fault : EmitFault} (h : (checkOperands wanted kind left right a b).result = .error fault) :
    fault.Cites [left.span, right.span] ∧ ¬ (a.isTruth = wanted ∧ b.isTruth = wanted) := by
  refine ⟨?_, fun hok => ?_⟩
  · rw [checkOperands] at h
    split at h
    · cases h
      exact List.mem_cons_self
    · split at h
      · cases h
        exact List.mem_cons_of_mem _ List.mem_cons_self
      · exact absurd h (by simp)
  · rw [checkOperands_eq_ok_iff.2 hok] at h
    exact absurd h (by simp)

/-- The code of an operator has the type of the rule. -/
theorem BinaryOp.emit_eq_ok {op : BinaryOp} {left right : Expr} {span : Span} {a b code : Code}
    (h : (op.emit left right span a b).result = .ok code) :
    op.typeOf a.isTruth b.isTruth = some code.isTruth ∧ ¬ (op = .div ∧ right.isZero = true) := by
  -- only arithmetic divides
  have hother : op.opClass ≠ .arithmetic → ¬ (op = .div ∧ right.isZero = true) := by
    rintro hclass ⟨rfl, _⟩
    exact hclass rfl
  rw [BinaryOp.emit] at h
  rw [BinaryOp.typeOf]
  cases hclass : op.opClass with
  | arithmetic =>
    simp only [hclass, Traced.bind_eq_ok_iff] at h
    obtain ⟨_, hcheck, h⟩ := h
    split at h
    · exact absurd h (by simp)
    · next hzero =>
      cases h
      exact ⟨if_pos (checkOperands_eq_ok_iff.1 hcheck), hzero⟩
  | equality =>
    simp only [hclass] at h
    split at h
    · exact absurd h (by simp)
    · next heq =>
      cases h
      exact ⟨if_pos (not_not.1 heq), hother (by simp [hclass])⟩
  | comparison | logic =>
    simp only [hclass, Traced.bind_eq_ok_iff] at h
    obtain ⟨_, hcheck, h⟩ := h
    cases h
    exact ⟨if_pos (checkOperands_eq_ok_iff.1 hcheck), hother (by simp [hclass])⟩

/-- The code of an operator stands between its operands. Arithmetic is rounded, everything else is only
    put in parentheses. -/
theorem BinaryOp.text_of_emit {op : BinaryOp} {left right : Expr} {span : Span} {a b code : Code}
    (h : (op.emit left right span a b).result = .ok code) :
    code.text = if op.opClass = .arithmetic then roundedCode (a.text ++ op.symbol ++ b.text)
      else parenthesized (a.text ++ op.symbol ++ b.text) := by
  rw [BinaryOp.emit] at h
  cases hclass : op.opClass with
  | arithmetic =>
    simp only [hclass, Traced.bind_eq_ok_iff] at h
    obtain ⟨_, _, h⟩ := h
    split at h
    · exact absurd h (by simp)
    · cases h
      rfl
  | equality =>
    simp only [hclass] at h
    split at h
    · exact absurd h (by simp)
    · cases h
      rfl
  | comparison | logic =>
    simp only [hclass, Traced.bind_eq_ok_iff] at h
    obtain ⟨_, _, h⟩ := h
    cases h
    rfl

/-- An operator is refused at one of its operands or as a whole, because it does not keep to the rule
    or because it divides by a literal zero. -/
theorem BinaryOp.emit_eq_error {op : BinaryOp} {left right : Expr} {span : Span} {a b : Code}
    {fault : EmitFault} (h : (op.emit left right span a b).result = .error fault) :
    fault.Cites [left.span, right.span, span] ∧
      (op.typeOf a.isTruth b.isTruth = none ∨ (op = .div ∧ right.isZero = true)) := by
  have hsub : ∀ s ∈ [left.span, right.span], s ∈ [left.span, right.span, span] := by simp
  rw [BinaryOp.emit] at h
  rw [BinaryOp.typeOf]
  cases hclass : op.opClass with
  | arithmetic =>
    simp only [hclass, Traced.bind_eq_error_iff] at h
    rcases h with h | ⟨_, _, h⟩
    · obtain ⟨hcites, htypes⟩ := checkOperands_eq_error h
      exact ⟨hcites.mono hsub, Or.inl (if_neg htypes)⟩
    · split at h
      · next hzero =>
        cases h
        exact ⟨by simp [EmitFault.Cites], Or.inr hzero⟩
      · exact absurd h (by simp)
  | equality =>
    simp only [hclass] at h
    split at h
    · next hne =>
      cases h
      exact ⟨by simp [EmitFault.Cites], Or.inl (if_neg hne)⟩
    · exact absurd h (by simp)
  | comparison | logic =>
    simp only [hclass, Traced.bind_eq_error_iff] at h
    rcases h with h | ⟨_, _, h⟩
    · obtain ⟨hcites, htypes⟩ := checkOperands_eq_error h
      exact ⟨hcites.mono hsub, Or.inl (if_neg htypes)⟩
    · exact absurd h (by simp)

/-- The code of an expression has the type of the expression. -/
theorem Expr.typeIn_of_emit {expr : Expr} {code : Code}
    (h : (expr.emit scope).result = .ok code) : expr.typeIn scope = some code.isTruth := by
  induction expr generalizing code with
  | truth value span | number value span =>
    cases h
    rfl
  | malformed flaw => exact absurd h (by simp [Expr.emit])
  | var name span =>
    rw [Expr.emit] at h
    rw [Expr.typeIn]
    split at h
    · exact absurd h (by simp)
    · next isTruth hget =>
      cases h
      exact hget
  | query q span =>
    cases q <;> cases h <;> rfl
  | binary op left right span ihleft ihright =>
    simp only [Expr.emit, Traced.bind_eq_ok_iff] at h
    obtain ⟨a, ha, b, hb, hop⟩ := h
    exact Expr.typeIn_binary_eq_some.2
      ⟨a.isTruth, b.isTruth, ihleft ha, ihright hb, (BinaryOp.emit_eq_ok hop).1⟩

/-- An error-free expression is refused at one of its nodes, because it has no type or because it
    divides by a literal zero. -/
theorem Expr.refused_of_emit {expr : Expr} {fault : EmitFault} (hfree : expr.IsErrorFree)
    (h : (expr.emit scope).result = .error fault) :
    fault.Cites expr.spans ∧ (expr.typeIn scope = none ∨ expr.dividesByZero = true) := by
  induction expr generalizing fault with
  | truth value span => exact absurd h (by simp [Expr.emit])
  | number value span => exact absurd h (by simp [Expr.emit])
  | malformed flaw => exact absurd hfree (Expr.not_isErrorFree_malformed flaw)
  | var name span =>
    rw [Expr.emit] at h
    split at h
    · next hnone =>
      cases h
      exact ⟨List.mem_singleton_self span, Or.inl hnone⟩
    · exact absurd h (by simp)
  | query q span => cases q <;> cases h
  | binary op left right span ihleft ihright =>
    obtain ⟨hleft, hright⟩ := Expr.isErrorFree_binary.1 hfree
    rw [Expr.spans_binary, Expr.dividesByZero, Expr.typeIn]
    simp only [Expr.emit, Traced.bind_eq_error_iff] at h
    rcases h with h | ⟨a, ha, h | ⟨b, hb, h⟩⟩
    · obtain ⟨hcites, hwhy⟩ := ihleft hleft h
      refine ⟨hcites.mono fun s hs => List.mem_cons_of_mem _ (List.mem_append_left _ hs), ?_⟩
      rcases hwhy with hnone | hzero
      · exact Or.inl (by simp [hnone])
      · exact Or.inr (by simp [hzero])
    · obtain ⟨hcites, hwhy⟩ := ihright hright h
      refine ⟨hcites.mono fun s hs => List.mem_cons_of_mem _ (List.mem_append_right _ hs), ?_⟩
      rcases hwhy with hnone | hzero
      · exact Or.inl (by simp [hnone])
      · exact Or.inr (by simp [hzero])
    · obtain ⟨hcites, hwhy⟩ := BinaryOp.emit_eq_error h
      refine ⟨hcites.mono (Expr.operand_spans_mem left right span), ?_⟩
      rcases hwhy with hnone | ⟨rfl, hzero⟩
      · exact Or.inl (by simp [Expr.typeIn_of_emit ha, Expr.typeIn_of_emit hb, hnone])
      · exact Or.inr (by simp [hzero])

end Emission

end LogoLang
