import LogoLang.Proofs.Run.CallFaults
import LogoLang.Proofs.Session.WellFormed

set_option autoImplicit false

/-! # Calls are bound before a run

An emission looks at every call of a program, in every function. Of a program that it accepts no run,
with shared or with private variables, is ever refused for a call, and a call for which it refuses a
program is refused by a run with private variables for the same flaw (`calls_bound_by_emission`). The
two do not count the same thing, all parameters or the names among them, nor at the same time, but in
an accepted program every parameter has a name. -/

namespace LogoLang

/-! ## Statements of a checked body -/

mutual

/-- What is inside a checked statement is checked, in some scope. -/
theorem Stmt.exists_checked_of_mem {table : FunctionTable} {scope : Scope} {stmt inner : Stmt}
    (h : stmt.Checked table scope) (hinner : inner ∈ stmt.all) :
    ∃ scope', inner.Checked table scope' := by
  cases stmt with
  | block kind condition body line =>
    rcases List.mem_cons.1 hinner with rfl | hinner
    · exact ⟨scope, h⟩
    · exact exists_checked_of_mem h.2 hinner
  | assign | pen | command | call | comment =>
    rw [List.mem_singleton.1 hinner]
    exact ⟨scope, h⟩

theorem exists_checked_of_mem {table : FunctionTable} {scope : Scope} {body : List Stmt}
    {inner : Stmt} (h : BodyChecked table scope body) (hinner : inner ∈ allStmts body) :
    ∃ scope', inner.Checked table scope' := by
  cases body with
  | nil => exact absurd hinner List.not_mem_nil
  | cons stmt rest =>
    rcases List.mem_append.1 hinner with hinner | hinner
    · exact Stmt.exists_checked_of_mem h.1 hinner
    · exact exists_checked_of_mem h.2 hinner

end

/-- **A call of a program that is emitted has no flaw**, wherever it stands. -/
theorem callFlaw?_eq_none_of_emit {table : FunctionTable} {codes : List Text}
    (hemit : table.emit.result = .ok codes) {name : Text} {span : Span} {args : List Expr}
    {line : Nat} (hmem : Stmt.call (.named name span) args line ∈ table.stmts) :
    table.callFlaw? name span args.length = none := by
  obtain ⟨entry, hentry, hmem⟩ := List.mem_flatMap.1 hmem
  have hbody := FunctionTable.checked_of_emit hemit entry hentry
  obtain ⟨scope, hchecked⟩ := exists_checked_of_mem hbody hmem
  obtain ⟨⟨name', span', heq, harity⟩, _⟩ := hchecked
  cases heq
  exact FunctionTable.callFlaw?_eq_none_iff.2 harity

/-! ## What an emission refuses -/

/-- The emission does not fail for a call fault. -/
def Emitting.Binds {α : Type} (m : Emitting α) : Prop :=
  ∀ flaw, m.result = .error (.flaw flaw) → flaw.kind.isCallFault = false

section Emissions

variable {α β : Type} {scope : Scope} {table : FunctionTable}

theorem Emitting.Binds.pure (a : α) : Emitting.Binds (pure a : Emitting α) := by
  intro flaw h
  exact absurd h (by simp)

theorem Emitting.Binds.refuse {kind : ErrorKind} (span : Span) (h : kind.isCallFault = false) :
    Emitting.Binds (Emitting.refuse kind span : Emitting α) := by
  intro flaw hflaw
  cases hflaw
  exact h

theorem Emitting.Binds.bind {m : Emitting α} {f : α → Emitting β} (hm : Emitting.Binds m)
    (hf : ∀ a, Emitting.Binds (f a)) : Emitting.Binds (m >>= f) := by
  intro flaw h
  rcases Traced.bind_eq_error_iff.1 h with h | ⟨a, _, h⟩
  · exact hm flaw h
  · exact hf a flaw h

theorem binds_emitCall (method : Method) (args : List Text) :
    Emitting.Binds (emitCall method args) := by
  intro flaw h
  exact absurd h (by simp)

theorem binds_checkOperands {wanted : Bool} {kind : ErrorKind} (left right : Expr) (a b : Code)
    (h : kind.isCallFault = false) :
    Emitting.Binds (checkOperands wanted kind left right a b) := by
  unfold checkOperands
  split
  · exact .refuse _ h
  · split
    · exact .refuse _ h
    · exact .pure ()

theorem BinaryOp.binds_emit (op : BinaryOp) (left right : Expr) (span : Span) (a b : Code) :
    Emitting.Binds (op.emit left right span a b) := by
  unfold BinaryOp.emit
  cases op.opClass with
  | arithmetic =>
    refine (binds_checkOperands left right a b rfl).bind fun _ => ?_
    split
    · exact .refuse _ rfl
    · exact .pure _
  | equality =>
    simp only
    split
    · exact .refuse _ rfl
    · exact .pure _
  | comparison | logic => exact (binds_checkOperands left right a b rfl).bind fun _ => .pure _

theorem Expr.binds_emit (expr : Expr) : Emitting.Binds (expr.emit scope) := by
  induction expr with
  | truth value span | number value span => exact .pure _
  | var name span =>
    unfold Expr.emit
    split
    · exact .refuse _ rfl
    · exact .pure _
  | malformed flaw =>
    intro flaw' h
    exact absurd h (by simp [Expr.emit])
  | query q span =>
    refine (binds_emitCall _ _).bind fun call => ?_
    cases q <;> exact .pure _
  | binary op left right span ihleft ihright =>
    exact ihleft.bind fun a => ihright.bind fun b => op.binds_emit left right span a b

theorem Expr.binds_emitNumber (expr : Expr) : Emitting.Binds (expr.emitNumber scope) := by
  refine expr.binds_emit.bind fun code => ?_
  split
  · exact .refuse _ rfl
  · exact .pure _

theorem Expr.binds_emitTruth (expr : Expr) : Emitting.Binds (expr.emitTruth scope) := by
  refine expr.binds_emit.bind fun code => ?_
  split
  · exact .pure _
  · exact .refuse _ rfl

theorem binds_emitNumbers (args : List Expr) : Emitting.Binds (emitNumbers scope args) := by
  induction args with
  | nil => exact .pure _
  | cons arg rest ih => exact arg.binds_emitNumber.bind fun _ => ih.bind fun _ => .pure _

theorem Label.binds_emit (label : Label) : Emitting.Binds label.emit := by
  intro flaw h
  cases label <;> exact absurd h (by simp [Label.emit])

theorem binds_emitAssign (kind : AssignKind) (target : Label) (value : Expr) :
    Emitting.Binds (emitAssign scope kind target value) := by
  cases kind with
  | make => exact value.binds_emit.bind fun code => target.binds_emit.bind fun name => .pure _
  | increase =>
    refine target.binds_emit.bind fun name => ?_
    split
    · exact .refuse _ rfl
    · exact .refuse _ rfl
    · exact value.binds_emitNumber.bind fun code => .pure _

/-- A call is emitted without a call fault, or it has a flaw that is the one found. -/
theorem callFlaw?_of_emitFunctionCall {label : Label} {args : List Expr} {flaw : Flaw}
    (h : (emitFunctionCall table scope label args).result = .error (.flaw flaw))
    (hfault : flaw.kind.isCallFault = true) :
    ∃ name span, label = .named name span ∧ table.callFlaw? name span args.length = some flaw := by
  rw [emitFunctionCall, Traced.bind_eq_error_iff] at h
  obtain ⟨name, hname, h⟩ := h.resolve_left fun herror => by
    have hlabel := label.binds_emit flaw herror
    rw [hfault] at hlabel
    exact absurd hlabel (by simp)
  obtain ⟨span, rfl⟩ := Label.emit_eq_ok_iff.1 hname
  refine ⟨name, span, rfl, ?_⟩
  unfold FunctionTable.callFlaw?
  cases harity : table.arity? name with
  | none =>
    rw [harity] at h
    cases h
    rfl
  | some arity =>
    simp only [harity] at h
    simp only
    by_cases hmany : arity < args.length
    · rw [if_pos hmany] at h
      cases h
      exact if_pos hmany
    · rw [if_neg hmany] at h
      rw [if_neg hmany]
      by_cases hfew : args.length < arity
      · rw [if_pos hfew] at h
        cases h
        exact if_pos hfew
      · rw [if_neg hfew] at h
        -- what is left can only fail in the arguments, and these are no calls
        have hargs := (binds_emitNumbers args).bind (fun _ => .pure _) flaw h
        rw [hfault] at hargs
        exact absurd hargs (by simp)

/-- **Only a call with a flaw is refused for a call fault**, in its own line. -/
theorem Stmt.exists_call_of_emit {stmt : Stmt} {depth : Nat} {flaw : Flaw} {line : Nat}
    (h : (stmt.withoutBody.emit table depth scope).result = .error ⟨.flaw flaw, line⟩)
    (hfault : flaw.kind.isCallFault = true) :
    ∃ name args, stmt = .call (.named name flaw.span) args line ∧
      (emitFunctionCall table scope (.named name flaw.span) args).result = .error (.flaw flaw) ∧
      table.callFlaw? name flaw.span args.length = some flaw := by
  have hnot : ∀ {α : Type} {m : Emitting α} {line' : Nat}, m.Binds →
      (m.inLine line').result ≠ .error ⟨.flaw flaw, line⟩ := by
    intro α m line' hm herror
    rw [hm flaw (Emitting.inLine_eq_error_iff.1 herror).1] at hfault
    exact absurd hfault (by simp)
  cases stmt with
  | block kind condition body line' =>
    simp only [Stmt.withoutBody, Stmt.emit, emitBody, Traced.bind_eq_error_iff] at h
    rcases h with h | ⟨_, _, h | ⟨_, _, h⟩⟩
    · exact absurd h (hnot condition.binds_emitTruth)
    · exact absurd h (by simp)
    · exact absurd h (by simp)
  | assign kind target value line' =>
    simp only [Stmt.withoutBody, Stmt.emit, Traced.bind_eq_error_iff] at h
    rcases h with h | ⟨_, _, h⟩
    · exact absurd h (hnot (binds_emitAssign kind target value))
    · exact absurd h (by simp)
  | pen down line' =>
    simp only [Stmt.withoutBody, Stmt.emit, Traced.bind_eq_error_iff] at h
    rcases h with h | ⟨_, _, h⟩
    · exact absurd h (hnot (binds_emitCall _ _))
    · exact absurd h (by simp)
  | command cmd value line' =>
    simp only [Stmt.withoutBody, Stmt.emit, Traced.bind_eq_error_iff] at h
    rcases h with h | ⟨_, _, h | ⟨_, _, h⟩⟩
    · exact absurd h (hnot value.binds_emitNumber)
    · exact absurd h (hnot (binds_emitCall _ _))
    · exact absurd h (by simp)
  | call label args line' =>
    simp only [Stmt.withoutBody, Stmt.emit, Traced.bind_eq_error_iff] at h
    rcases h with h | ⟨_, _, h⟩
    · obtain ⟨hflaw, hline⟩ := Emitting.inLine_eq_error_iff.1 h
      obtain ⟨name, span, rfl, hcall⟩ := callFlaw?_of_emitFunctionCall hflaw hfault
      obtain rfl : line = line' := hline
      obtain rfl := (FunctionTable.isCallFault_of_callFlaw hcall).2
      exact ⟨name, args, rfl, hflaw, hcall⟩
    · exact absurd h (by simp)
  | comment text line' => exact absurd h (by simp [Stmt.withoutBody, Stmt.emit])

end Emissions

/-! ## Runs -/

/-- No run of an emitted program is refused for a call, in either call mode and however long it is. -/
theorem isCallFault_of_emitted_run {table : FunctionTable} {codes : List Text}
    (hform : table.WellFormed) (hemit : table.emit.result = .ok codes) {privateVariables : Bool}
    {t : Turtle} {c c' : Config} {cause : Refusal} {line : Nat}
    (hreach : Config.Reaches ⟨table, privateVariables⟩
      (Config.start ⟨table, privateVariables⟩ t) c)
    (hstep : c.step ⟨table, privateVariables⟩ = .refused cause line c') :
    cause.isCallFault = false := by
  obtain ⟨stmt, rest, caller, outer, hblocks, _, _, hrefuses⟩ := Config.step_eq_refused hstep
  have hmem := hreach.mem_stmts hblocks
  cases hrefuses with
  | turtle hdoes hperform => rfl
  | fails hfails =>
    by_contra hcause
    rw [Bool.not_eq_false] at hcause
    obtain ⟨name, span, args, line, rfl, hcallee⟩ := Stmt.exists_call_of_isCallFault hfails hcause
    obtain ⟨f, hbound⟩ := Program.exists_callee_of_callFlaw
      (p := ⟨table, privateVariables⟩) hform.params (callFlaw?_eq_none_of_emit hemit hmem)
    rw [hbound] at hcallee
    exact absurd hcallee (by simp)

/-- **Calls are bound before a run.** Of an accepted program that is emitted no run is ever refused
    because a function is missing or a call has too many or too few arguments. If a program is not
    emitted for one of these reasons, the emission has come to a call, and with private variables a
    step that is to do this call is refused for the same flaw in the same line, whatever the variables,
    the turtle and the open blocks are. -/
theorem calls_bound_by_emission {lines : List Text} {table : FunctionTable}
    (hparse : parseProgram lines = .ok table) :
    (∀ codes, table.emit.result = .ok codes → ∀ privateVariables t c c' cause line,
      Config.Reaches ⟨table, privateVariables⟩ (Config.start ⟨table, privateVariables⟩ t) c →
        c.step ⟨table, privateVariables⟩ = .refused cause line c' → cause.isCallFault = false) ∧
    ∀ flaw line, table.emit.result = .error ⟨.flaw flaw, line⟩ → flaw.kind.isCallFault = true →
      ∃ before owner f after scope name args, table.entries = before ++ (owner, f) :: after ∧
        EmitsTo table f.scope f.body scope (.call (.named name flaw.span) args line) ∧
        (emitFunctionCall table scope (.named name flaw.span) args).result = .error (.flaw flaw) ∧
        ∀ (c : Config) rest caller outer,
          c.blocks = ⟨.call (.named name flaw.span) args line :: rest, caller⟩ :: outer →
            c.step ⟨table, true⟩ = .refused (.flaw flaw) line c := by
  have hform := (takenFrom_of_parseProgram hparse).wellFormed
  refine ⟨?_, ?_⟩
  · intro codes hemit privateVariables t c c' cause line hreach hstep
    exact isCallFault_of_emitted_run hform hemit hreach hstep
  · intro flaw line hemit hfault
    obtain ⟨before, owner, f, after, scope, stmt, depth, hentries, _, hto, hfail, _, _, _⟩ :=
      cites_of_emit hform.stmts hemit
    obtain ⟨name, args, rfl, hcall, hflaw⟩ := Stmt.exists_call_of_emit hfail hfault
    refine ⟨before, owner, f, after, scope, name, args, hentries, hto, hcall, ?_⟩
    intro c rest caller outer hblocks
    exact Config.step_of_callFlaw rfl hform.params hflaw hblocks

/-- A program whose run divides by zero inside a call, and one that is not emitted because its call has
    too few arguments, which a run finds as well once it comes to the call. -/
theorem calls_bound_by_emission_half :
    (∃ table codes t c c' cause line, parseProgram ["TO half \"n".toList,
        "FORWARD / :n - :n :n".toList, "END".toList, "half \"4".toList] = .ok table ∧
      table.emit.result = .ok codes ∧
      Config.Reaches ⟨table, true⟩ (Config.start ⟨table, true⟩ t) c ∧
      c.step ⟨table, true⟩ = .refused cause line c' ∧ cause.isCallFault = false) ∧
    ∃ table name args, parseProgram ["TO half \"n".toList, "FORWARD / :n \"2".toList,
        "END".toList, "FORWARD \"1".toList, "half".toList] = .ok table ∧
      table.emit.result = .error ⟨.flaw ⟨.missingArguments, ⟨0, 4⟩⟩, 4⟩ ∧
      ∀ (c : Config) rest caller outer,
        c.blocks = ⟨.call (.named name ⟨0, 4⟩) args 4 :: rest, caller⟩ :: outer →
          c.step ⟨table, true⟩ = .refused (.flaw ⟨.missingArguments, ⟨0, 4⟩⟩) 4 c := by
  refine ⟨?_, ?_⟩
  · obtain ⟨table, hparse, hrest⟩ := Except.exists_of_any
      (m := parseProgram ["TO half \"n".toList, "FORWARD / :n - :n :n".toList, "END".toList,
        "half \"4".toList])
      (p := fun table => table.emit.result.isOk &&
        ((Config.start ⟨table, true⟩ ⟨.default, .default, 200, 200, 0, false, 7, [], []⟩).run
          ⟨table, true⟩ 10).1 = .refused (refusal .divideByZero ⟨8, 12⟩) 1) (by decide +kernel)
    simp only [Bool.and_eq_true, decide_eq_true_eq] at hrest
    obtain ⟨hemitted, hrun⟩ := hrest
    obtain ⟨codes, hemit⟩ := Except.exists_of_isOk hemitted
    obtain ⟨c, c', hreach, hstep⟩ := Config.exists_refused_step hrun
    exact ⟨table, codes, _, c, c', _, _, hparse, hemit, hreach, hstep,
      (calls_bound_by_emission hparse).1 codes hemit true _ c c' _ _ hreach hstep⟩
  · obtain ⟨table, hparse, hrest⟩ := Except.exists_of_any
      (m := parseProgram ["TO half \"n".toList, "FORWARD / :n \"2".toList, "END".toList,
        "FORWARD \"1".toList, "half".toList])
      (p := fun table => match table.emit.result with
        | .error failure => failure = ⟨.flaw ⟨.missingArguments, ⟨0, 4⟩⟩, 4⟩
        | .ok _ => false) (by decide +kernel)
    have hemit : table.emit.result = .error ⟨.flaw ⟨.missingArguments, ⟨0, 4⟩⟩, 4⟩ := by
      split at hrest
      · next failure herror => rw [herror, of_decide_eq_true hrest]
      · exact absurd hrest (by simp)
    obtain ⟨_, _, _, _, _, name, args, _, _, _, hsteps⟩ :=
      (calls_bound_by_emission hparse).2 _ _ hemit rfl
    exact ⟨table, name, args, hparse, hemit, hsteps⟩

end LogoLang
