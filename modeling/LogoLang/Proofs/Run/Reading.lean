import LogoLang.Proofs.Run.Refusals

set_option autoImplicit false

/-! # Refusals that are about names

A flaw of the category `binding` is about a name: that of a variable which has no value, or that of a
function which cannot be called so. Such a flaw found by an expression is at the place of one of its
variables (`Expr.exists_read`), and one found by a statement at that of a variable, of the target, or
of the function that it calls (`Stmt.Fails.unbound`). -/

namespace LogoLang

variable {p : Program} {env : Environment} {t : Turtle} {flaw : Flaw}

/-! ## Expressions -/

theorem ne_refusal_of_binding (hkind : flaw.kind.category = .binding) {kind : ErrorKind}
    (htyping : kind.category = .typing) (span : Span) : Refusal.flaw flaw ≠ refusal kind span := by
  intro h
  cases Refusal.flaw.inj h
  rw [htyping] at hkind
  exact absurd hkind (by simp)

theorem Environment.span_of_read {name : Text} {span : Span}
    (h : env.read name span = .error (.flaw flaw)) : flaw.span = span := by
  rcases Environment.read_eq_error h with hcause | hcause
  · cases Refusal.flaw.inj hcause
    rfl
  · cases Refusal.flaw.inj hcause
    rfl

/-- An expression that is refused for a name reads a variable that has no value, at the place of
    this variable. -/
theorem Expr.exists_read {expr : Expr} (hkind : flaw.kind.category = .binding)
    (h : (expr.eval env t).result = .error (.flaw flaw)) :
    ∃ name, .var name flaw.span ∈ expr.nodes ∧
      env.read name flaw.span = .error (.flaw flaw) := by
  induction expr with
  | truth value span | number value span => exact absurd h (by simp [Expr.eval])
  | malformed flaw' => exact absurd h (by simp [Expr.eval])
  | var name span =>
    cases Environment.span_of_read h
    exact ⟨name, Expr.self_mem_nodes _, h⟩
  | query q span =>
    simp only [Expr.eval, Traced.bind_eq_error_iff, Traced.result_log, Traced.result_ofExcept] at h
    rcases h with h | ⟨_, _, h | ⟨x, _, h⟩⟩
    · exact absurd h (by simp)
    · exact absurd (Turtle.measure_eq_error h).2.2 (by simp)
    · exact absurd h (by simp)
  | binary op left right span ihleft ihright =>
    simp only [Expr.eval, Traced.bind_eq_error_iff, Traced.result_ofExcept] at h
    rw [Expr.nodes]
    rcases h with h | ⟨a, _, h | ⟨_, _, h | ⟨b, _, h⟩⟩⟩
    · obtain ⟨name, hmem, hread⟩ := ihleft h
      exact ⟨name, List.mem_cons_of_mem _ (List.mem_append_left _ hmem), hread⟩
    · exact absurd (BinaryOp.checkLeft_eq_error h) (ne_refusal_of_binding hkind rfl span)
    · obtain ⟨name, hmem, hread⟩ := ihright h
      exact ⟨name, List.mem_cons_of_mem _ (List.mem_append_right _ hmem), hread⟩
    · obtain ⟨kind, htyping, s, _, hcause⟩ := BinaryOp.exists_refusal_of_apply h
      exact absurd hcause (ne_refusal_of_binding hkind htyping s)

theorem Expr.exists_read_of_evalNumber {expr : Expr} (hkind : flaw.kind.category = .binding)
    (h : (expr.evalNumber env t).result = .error (.flaw flaw)) :
    ∃ name, .var name flaw.span ∈ expr.nodes ∧
      env.read name flaw.span = .error (.flaw flaw) := by
  rcases Expr.evalNumber_eq_error_iff.1 h with h | ⟨b, _, hcause⟩
  · exact Expr.exists_read hkind h
  · exact absurd hcause (ne_refusal_of_binding hkind rfl expr.span)

theorem Expr.exists_read_of_evalTruth {expr : Expr} (hkind : flaw.kind.category = .binding)
    (h : (expr.evalTruth env t).result = .error (.flaw flaw)) :
    ∃ name, .var name flaw.span ∈ expr.nodes ∧
      env.read name flaw.span = .error (.flaw flaw) := by
  rcases Expr.evalTruth_eq_error_iff.1 h with h | ⟨x, _, hcause⟩
  · exact Expr.exists_read hkind h
  · exact absurd hcause (ne_refusal_of_binding hkind rfl expr.span)

theorem exists_read_of_evalAll {args : List Expr} (hkind : flaw.kind.category = .binding)
    (h : (evalAll env t args).result = .error (.flaw flaw)) :
    ∃ arg ∈ args, ∃ name, .var name flaw.span ∈ arg.nodes ∧
      env.read name flaw.span = .error (.flaw flaw) := by
  induction args with
  | nil => exact absurd h (by simp [evalAll])
  | cons arg rest ih =>
    simp only [evalAll, Traced.bind_eq_error_iff] at h
    rcases h with h | ⟨v, _, h | ⟨vs, _, h⟩⟩
    · exact ⟨arg, List.mem_cons_self, Expr.exists_read hkind h⟩
    · obtain ⟨arg', hmem, hread⟩ := ih h
      exact ⟨arg', List.mem_cons_of_mem _ hmem, hread⟩
    · exact absurd h (by simp)

theorem Command.exists_read {cmd : Command} {value : Expr} (hkind : flaw.kind.category = .binding)
    (h : (cmd.action env t value).result = .error (.flaw flaw)) :
    ∃ name, .var name flaw.span ∈ value.nodes ∧
      env.read name flaw.span = .error (.flaw flaw) := by
  rcases Command.action_eq_error h with h | hcause | hcause
  · exact Expr.exists_read_of_evalNumber hkind h
  · exact absurd hcause (ne_refusal_of_binding hkind rfl value.span)
  · exact absurd hcause (ne_refusal_of_binding hkind rfl value.span)

/-! ## Statements -/

/-- What a flaw about a name can be: a variable of the statement without a value, the target of an
    increment, or the name of a function that cannot be called so. -/
inductive Stmt.Unbound (p : Program) (env : Environment) (stmt : Stmt) (flaw : Flaw) : Prop where
  | operand {expr : Expr} {name : Text} (hexpr : expr ∈ stmt.exprs)
      (hvar : .var name flaw.span ∈ expr.nodes)
      (hread : env.read name flaw.span = .error (.flaw flaw)) : Stmt.Unbound p env stmt flaw
  | target {name : Text} (hlabel : .named name flaw.span ∈ stmt.labels)
      (hread : env.read name flaw.span = .error (.flaw flaw)) : Stmt.Unbound p env stmt flaw
  | callee {name : Text} {span : Span} {args : List Expr} {line : Nat}
      (hstmt : stmt = .call (.named name span) args line)
      (hcallee : p.callee name span args.length = .error (.flaw flaw)) :
      Stmt.Unbound p env stmt flaw

/-- **A statement that is refused for a name is refused at the place of this name.** -/
theorem Stmt.Fails.unbound {stmt : Stmt} (hkind : flaw.kind.category = .binding)
    (h : stmt.Fails p env t (.flaw flaw)) : stmt.Unbound p env flaw := by
  cases h with
  | condition h =>
    obtain ⟨name, hvar, hread⟩ := Expr.exists_read_of_evalTruth hkind h
    exact .operand (List.mem_singleton_self _) hvar hread
  | makeValue h =>
    obtain ⟨name, hvar, hread⟩ := Expr.exists_read hkind h
    exact .operand (List.mem_singleton_self _) hvar hread
  | @increaseOld name span _ _ _ h =>
    rcases Except.bind_eq_error_iff.1 h with h | ⟨v, _, h⟩
    · cases Environment.span_of_read h
      exact .target (List.mem_singleton_self _) h
    · exact absurd (Value.asNumber_eq_error h) (ne_refusal_of_binding hkind rfl span)
  | increaseValue hold h =>
    obtain ⟨name, hvar, hread⟩ := Expr.exists_read_of_evalNumber hkind h
    exact .operand (List.mem_singleton_self _) hvar hread
  | command h =>
    obtain ⟨name, hvar, hread⟩ := Command.exists_read hkind h
    exact .operand (List.mem_singleton_self _) hvar hread
  | callee h => exact .callee rfl h
  | args hcallee h =>
    obtain ⟨arg, hmem, name, hvar, hread⟩ := exists_read_of_evalAll hkind h
    exact .operand hmem hvar hread

/-- A statement that finds no value of a name is where a name is declared and has none. -/
theorem Stmt.Unbound.exists_declared {stmt : Stmt} {span : Span}
    (h : stmt.Unbound p env ⟨.undefinedVariableValue, span⟩) :
    ∃ name, Bindings.get? env name = some none := by
  cases h with
  | operand hexpr hvar hread =>
    exact ⟨_, Environment.read_eq_undefinedVariableValue_iff.1 hread⟩
  | target hlabel hread => exact ⟨_, Environment.read_eq_undefinedVariableValue_iff.1 hread⟩
  | callee hstmt hcallee =>
    unfold Program.callee at hcallee
    split at hcallee
    · exact absurd hcallee (by simp [refusal])
    · split at hcallee
      · exact absurd hcallee (by simp [refusal])
      · split at hcallee
        · exact absurd hcallee (by simp [refusal])
        · exact absurd hcallee (by simp)

end LogoLang
