import LogoLang.Proofs.Emit.Doubt
import LogoLang.Proofs.Session.WellFormed

set_option autoImplicit false

/-! # Type safety of emitted programs

A program that can be emitted has passed a check of its types. With private variables, a run of it
never meets a value of the wrong type or a variable without a value, if no function reads a name in
doubt (`run_without_type_faults`). The invariant of the run is that every open block is checked and
certain in some scope of which the variables are known (`Ready`). Without the condition the statement
is false: what a block makes of a name counts as done after it, whether it was run or not
(`type_fault_after_skipped_block`). -/

namespace LogoLang

/-! ## Type faults -/

/-- The errors that a check of types and of variables in scope is to exclude. -/
def ErrorKind.isTypeFault : ErrorKind → Bool
  | .unexpectedBooleanType | .unexpectedNumberType | .unmatchedExprType => true
  | .undefinedVariable | .undefinedVariableValue => true
  | _ => false

/-- Whether a refusal is for such an error. -/
def Refusal.isTypeFault : Refusal → Bool
  | .flaw found => found.kind.isTypeFault
  | .turtle _ => false
  | .malformed => false

section Statements

variable {p : Program} {scope : Scope} {doubt : Finset Text} {env : Environment} {t : Turtle}
  {cause : Refusal}

theorem Settles.isTypeFault_eq_false {ty : Bool} (h : Settles ty t (.error cause)) :
    cause.isTypeFault = false := by
  cases h with
  | zeroDivisor => rfl
  | lostHeading _ => rfl

theorem Expr.evalNumber_isTypeFault {expr : Expr} (h : Settles false t (expr.eval env t).result)
    (hfail : (expr.evalNumber env t).result = .error cause) : cause.isTypeFault = false := by
  rcases Expr.evalNumber_eq_error_iff.1 hfail with heval | ⟨b, heval, _⟩
  · rw [heval] at h
    exact h.isTypeFault_eq_false
  · rw [heval] at h
    exact absurd h.isTruth_eq (by simp [Value.isTruth])

theorem Expr.evalTruth_isTypeFault {expr : Expr} (h : Settles true t (expr.eval env t).result)
    (hfail : (expr.evalTruth env t).result = .error cause) : cause.isTypeFault = false := by
  rcases Expr.evalTruth_eq_error_iff.1 hfail with heval | ⟨x, heval, _⟩
  · rw [heval] at h
    exact h.isTypeFault_eq_false
  · rw [heval] at h
    exact absurd h.isTruth_eq (by simp [Value.isTruth])

theorem evalAll_isTypeFault {args : List Expr}
    (h : ∀ arg ∈ args, Settles false t (arg.eval env t).result)
    (hfail : (evalAll env t args).result = .error cause) : cause.isTypeFault = false := by
  induction args with
  | nil => exact absurd hfail (by simp [evalAll])
  | cons arg rest ih =>
    obtain ⟨harg, hrest⟩ := List.forall_mem_cons.1 h
    simp only [evalAll, Traced.bind_eq_error_iff] at hfail
    rcases hfail with hfail | ⟨v, _, hfail | ⟨vs, _, hfail⟩⟩
    · rw [hfail] at harg
      exact harg.isTypeFault_eq_false
    · exact ih hrest hfail
    · exact absurd hfail (by simp)

/-- Arguments that are numbers, as many as there are expressions. -/
theorem evalAll_numbers {args : List Expr} {values : List Value}
    (h : ∀ arg ∈ args, Settles false t (arg.eval env t).result)
    (hvalues : (evalAll env t args).result = .ok values) :
    values.length = args.length ∧ ∀ v ∈ values, v.isTruth = false := by
  induction args generalizing values with
  | nil =>
    cases hvalues
    exact ⟨rfl, by simp⟩
  | cons arg rest ih =>
    obtain ⟨harg, hrest⟩ := List.forall_mem_cons.1 h
    simp only [evalAll, Traced.bind_eq_ok_iff] at hvalues
    obtain ⟨v, hv, vs, hvs, hvalues⟩ := hvalues
    cases hvalues
    obtain ⟨hlength, hnumbers⟩ := ih hrest hvs
    rw [hv] at harg
    exact ⟨by simp [hlength], List.forall_mem_cons.2 ⟨harg.isTruth_eq, hnumbers⟩⟩

theorem Environment.readNumber_isTypeFault {name : Text} {span : Span} (h : scope.Fits env name)
    (htype : Bindings.get? scope name = some false)
    (hfail : env.readNumber name span = .error cause) : cause.isTypeFault = false := by
  obtain ⟨v, henv, hv⟩ := h false htype
  obtain ⟨x, rfl⟩ := Value.exists_number hv
  rw [Environment.readNumber, Environment.read_eq_ok_iff.2 henv] at hfail
  cases hfail

theorem Program.callee_isTypeFault {name : Text} {span : Span} {args : Nat}
    (h : p.callee name span args = .error cause) : cause.isTypeFault = false := by
  rw [Program.callee] at h
  split at h
  · cases h
    rfl
  · split at h
    · cases h
      rfl
    · split at h
      · cases h
        rfl
      · exact absurd h (by simp)

theorem Command.action_isTypeFault {cmd : Command} {value : Expr}
    (h : Settles false t (value.eval env t).result)
    (hfail : (cmd.action env t value).result = .error cause) : cause.isTypeFault = false := by
  rcases Command.action_eq_error hfail with hfail | rfl | rfl
  · exact Expr.evalNumber_isTypeFault h hfail
  · rfl
  · rfl

/-- Inside the body of a block no less is in doubt than at the block. -/
theorem BlockKind.subset_doubtInside (kind : BlockKind) (scope : Scope) (doubt : Finset Text)
    (body : List Stmt) : doubt ⊆ kind.doubtInside scope doubt body := by
  cases kind with
  | branch => exact Finset.Subset.refl doubt
  | loop => exact Finset.subset_union_left

theorem BlockKind.settles_condition {kind : BlockKind} {condition : Expr} {body : List Stmt}
    {line : Nat} (hknown : scope.Known doubt env)
    (hchecked : (Stmt.block kind condition body line).Checked p.table scope)
    (hcertain : (Stmt.block kind condition body line).isCertain scope doubt = true) :
    Settles true t (condition.eval env t).result :=
  (hknown.mono (kind.subset_doubtInside scope doubt body)).settles hchecked.1
    (Bool.and_eq_true_iff.1 hcertain).1

/-- **A checked and certain statement does not fail for a type fault** where its scope is known. -/
theorem Stmt.fails_isTypeFault {stmt : Stmt} (hknown : scope.Known doubt env)
    (hchecked : stmt.Checked p.table scope) (hcertain : stmt.isCertain scope doubt = true)
    (h : stmt.Fails p env t cause) : cause.isTypeFault = false := by
  cases h with
  | condition h =>
    have hcondition := BlockKind.settles_condition (t := t) hknown hchecked hcertain
    exact Expr.evalTruth_isTypeFault hcondition h
  | makeValue h =>
    obtain ⟨_, ty, htype⟩ := hchecked
    have hsettles := hknown.settles (t := t) htype hcertain
    rw [h] at hsettles
    exact hsettles.isTypeFault_eq_false
  | makeTarget h => rfl
  | increaseTarget => rfl
  | @increaseOld name span value line _ h =>
    obtain ⟨⟨_, _, heq, htype⟩, _⟩ := hchecked
    cases heq
    have hname := of_decide_eq_true (Bool.and_eq_true_iff.1 hcertain).1
    exact Environment.readNumber_isTypeFault (hknown name hname) htype h
  | increaseValue hold h =>
    have hvalue := hknown.settles (t := t) hchecked.2 (Bool.and_eq_true_iff.1 hcertain).2
    exact Expr.evalNumber_isTypeFault hvalue h
  | command h => exact Command.action_isTypeFault (hknown.settles hchecked hcertain) h
  | callName => rfl
  | callee h => exact Program.callee_isTypeFault h
  | args hcallee h =>
    refine evalAll_isTypeFault (fun arg harg => ?_) h
    exact hknown.settles (hchecked.2 arg harg) (List.all_eq_true.1 hcertain arg harg)

end Statements

/-! ## Calls -/

theorem Function.mem_paramNames_of_scope {f : Function} {name : Text} {ty : Bool}
    (h : Bindings.get? f.scope name = some ty) : name ∈ f.paramNames ∧ ty = false := by
  rcases Bindings.mem_of_get?_setAll h with hmem | hnone
  · obtain ⟨name', hname', heq⟩ := List.mem_map.1 hmem
    cases heq
    exact ⟨hname', rfl⟩
  · exact absurd hnone (by simp [Bindings.get?])

/-- At the start of a function everything is known that its scope says: its parameters are numbers. -/
theorem Function.known_scope {f : Function} {values : List Value}
    (hlength : values.length = f.paramNames.length) (hnumbers : ∀ v ∈ values, v.isTruth = false) :
    f.scope.Known ∅ (Environment.bindAll [] f.paramNames values) := by
  intro name _ ty hty
  obtain ⟨hname, rfl⟩ := Function.mem_paramNames_of_scope hty
  have hnames : name ∈ (f.paramNames.zip (values.map some)).map Prod.fst := by
    rw [List.map_fst_zip (by simp [hlength])]
    exact hname
  obtain ⟨value, hget⟩ := Bindings.exists_get?_setAll (b := []) (Or.inl hnames)
  rcases Bindings.mem_of_get?_setAll hget with hmem | hnone
  · obtain ⟨v, hv, rfl⟩ := List.mem_map.1 (List.of_mem_zip hmem).2
    exact ⟨v, hget, hnumbers v hv⟩
  · exact absurd hnone (by simp [Bindings.get?])

/-! ## The invariant -/

/-- Every open block is checked and certain in a scope, with some names in doubt. Of the innermost one
    the scope is known now, and of another one it will be known when the blocks inside it are left, or
    is known of the variables that are put back then. -/
def Ready (table : FunctionTable) : List Block → Environment → Prop
  | [], _ => True
  | ⟨stmts, caller⟩ :: outer, env =>
    ∃ scope doubt, BodyChecked table scope stmts ∧ bodyIsCertain scope doubt stmts = true ∧
      scope.Known doubt env ∧
      match caller with
      | none => ∀ env', (scopeAfterBody scope stmts).Known (doubtAfterBody scope doubt stmts) env' →
          Ready table outer env'
      | some saved => Ready table outer saved

/-- What remains of the innermost block is ready as soon as what is said after the statement is known. -/
theorem Ready.rest {table : FunctionTable} {stmt : Stmt} {rest : List Stmt}
    {caller : Option Environment} {outer : List Block} {env : Environment}
    (h : Ready table (⟨stmt :: rest, caller⟩ :: outer) env) :
    ∃ scope doubt, stmt.Checked table scope ∧ stmt.isCertain scope doubt = true ∧
      scope.Known doubt env ∧
      ∀ env', (stmt.scopeAfter scope).Known (stmt.doubtAfter scope doubt) env' →
        Ready table (⟨rest, caller⟩ :: outer) env' := by
  obtain ⟨scope, doubt, ⟨hstmt, hrest⟩, hcertain, hknown, houter⟩ := h
  obtain ⟨hstmtCertain, hrestCertain⟩ := Bool.and_eq_true_iff.1 hcertain
  refine ⟨scope, doubt, hstmt, hstmtCertain, hknown, fun env' hknown' => ?_⟩
  exact ⟨stmt.scopeAfter scope, stmt.doubtAfter scope doubt, hrest, hrestCertain, hknown', houter⟩

section Invariant

variable {table : FunctionTable}

/-- All functions of the table are checked and certain, each in the scope of its parameters. -/
def FunctionTable.AllChecked (table : FunctionTable) : Prop :=
  ∀ entry ∈ table.entries, BodyChecked table entry.2.scope entry.2.body ∧
    bodyIsCertain entry.2.scope ∅ entry.2.body = true

theorem Ready.branch {condition : Expr} {body rest : List Stmt} {line : Nat}
    {caller : Option Environment} {outer : List Block} {env : Environment}
    (h : Ready table (⟨.block .branch condition body line :: rest, caller⟩ :: outer) env) :
    Ready table (⟨body, none⟩ :: ⟨rest, caller⟩ :: outer) env := by
  obtain ⟨scope, doubt, hchecked, hcertain, hknown, hrest⟩ := h.rest
  refine ⟨scope, doubt, hchecked.2, (Bool.and_eq_true_iff.1 hcertain).2, hknown, ?_⟩
  exact fun env' hknown' => hrest env' hknown'.join

/-- The body of a loop comes back to the loop, with the names that it retypes in doubt. These are in
    doubt in the loop anyhow, so that the second time nothing changes any more. -/
theorem Ready.loop {condition : Expr} {body rest : List Stmt} {line : Nat}
    {caller : Option Environment} {outer : List Block} {env : Environment}
    (h : Ready table (⟨.block .loop condition body line :: rest, caller⟩ :: outer) env) :
    Ready table (⟨body, none⟩ :: ⟨.block .loop condition body line :: rest, caller⟩ :: outer)
      env := by
  obtain ⟨scope, doubt, ⟨hstmt, hrest⟩, hcertain, hknown, houter⟩ := h
  obtain ⟨hstmtCertain, hrestCertain⟩ := Bool.and_eq_true_iff.1 hcertain
  -- the doubt at the loop does not grow when the loop is come back to
  have hsame : (doubt ∪ bodyRetypes scope body) ∪ bodyRetypes scope body =
      doubt ∪ bodyRetypes scope body := by rw [Finset.union_assoc, Finset.union_self]
  have hinside : BlockKind.loop.doubtInside scope (doubt ∪ bodyRetypes scope body) body =
      BlockKind.loop.doubtInside scope doubt body := hsame
  have hafter : (Stmt.block .loop condition body line).doubtAfter scope
      (doubt ∪ bodyRetypes scope body) =
        (Stmt.block .loop condition body line).doubtAfter scope doubt := hsame
  refine ⟨scope, doubt ∪ bodyRetypes scope body, hstmt.2, (Bool.and_eq_true_iff.1 hstmtCertain).2,
    hknown.mono Finset.subset_union_left, fun env' hknown' => ?_⟩
  -- at the end of the body the scope is another one, but differs only in names that are in doubt
  have hback : scope.Known (doubt ∪ bodyRetypes scope body) env' := by
    have hjoin := hknown'.join
    rw [hsame] at hjoin
    exact hjoin.back
  refine ⟨scope, doubt ∪ bodyRetypes scope body, ⟨hstmt, hrest⟩, ?_, hback, ?_⟩
  · rw [bodyIsCertain, Stmt.isCertain, hinside, hafter]
    exact hcertain
  · rw [doubtAfterBody, hafter]
    exact houter

theorem Ready.moves {c c' : Config} (htable : table.AllChecked)
    (h : Ready table c.blocks c.env) (hmove : Config.Moves ⟨table, true⟩ c c') :
    Ready table c'.blocks c'.env := by
  cases hmove with
  | @leave caller outer hblocks =>
    rw [hblocks] at h
    -- a block hands on the variables as they are, and a call puts back those of its caller
    obtain ⟨scope, doubt, _, _, hknown, houter⟩ := h
    cases caller with
    | none => exact houter c.env hknown
    | some saved => exact houter
  | skip hblocks hdoes =>
    rw [hblocks] at h
    obtain ⟨scope, doubt, _, _, hknown, hrest⟩ := h.rest
    cases hdoes with
    | pass hcondition => exact hrest c.env hknown.pass
    | comment => exact hrest c.env hknown
  | assign hblocks hdoes =>
    rw [hblocks] at h
    obtain ⟨scope, doubt, hchecked, hcertain, hknown, hrest⟩ := h.rest
    refine hrest _ ?_
    cases hdoes with
    | make hvalue =>
      obtain ⟨_, ty, htype⟩ := hchecked
      have hsettles := hknown.settles (t := c.turtle) htype hcertain
      rw [hvalue] at hsettles
      simp only [Stmt.scopeAfter, htype]
      exact hknown.set hsettles.isTruth_eq
    | increase hold hvalue =>
      obtain ⟨⟨name, span, heq, htype⟩, _⟩ := hchecked
      cases heq
      exact hknown.rebind htype
  | act hblocks hdoes hperform =>
    rw [hblocks] at h
    obtain ⟨scope, doubt, _, _, hknown, hrest⟩ := h.rest
    cases hdoes with
    | pen => exact hrest c.env hknown
    | command haction => exact hrest c.env hknown
  | branch hblocks hdoes =>
    rw [hblocks] at h
    cases hdoes
    exact h.branch
  | loop hblocks hdoes =>
    rw [hblocks] at h
    cases hdoes
    exact h.loop
  | call hblocks hdoes =>
    rw [hblocks] at h
    obtain ⟨scope, doubt, hchecked, hcertain, hknown, hrest⟩ := h.rest
    cases hdoes with
    | call hcallee hargs =>
      -- the arguments are numbers, one for each parameter, as the scope of the function says
      obtain ⟨hget, _, hcount⟩ := Program.callee_eq_ok_iff.1 hcallee
      obtain ⟨hbody, hbodyCertain⟩ := htable _ (Bindings.mem_of_get? hget)
      obtain ⟨hlength, hnumbers⟩ := evalAll_numbers (fun arg harg =>
        hknown.settles (hchecked.2 arg harg) (List.all_eq_true.1 hcertain arg harg)) hargs
      exact ⟨_, ∅, hbody, hbodyCertain,
        Function.known_scope (hlength.trans (hcount rfl)) hnumbers, hrest c.env hknown⟩

theorem Ready.isTypeFault {c : Config} {stmt : Stmt} {rest : List Stmt}
    {caller : Option Environment} {outer : List Block} {cause : Refusal}
    (h : Ready table c.blocks c.env) (hblocks : c.blocks = ⟨stmt :: rest, caller⟩ :: outer)
    (hrefuses : Config.Refuses ⟨table, true⟩ c stmt cause) : cause.isTypeFault = false := by
  rw [hblocks] at h
  obtain ⟨scope, doubt, hchecked, hcertain, hknown, _⟩ := h.rest
  cases hrefuses with
  | fails hfails => exact Stmt.fails_isTypeFault hknown hchecked hcertain hfails
  | turtle hdoes hperform => rfl

/-- The program is ready at its start, for its top level has no parameters. -/
theorem Ready.start {lines : List Text} (htaken : table.TakenFrom lines)
    (htable : table.AllChecked) (t : Turtle) :
    Ready table (Config.start ⟨table, true⟩ t).blocks (Config.start ⟨table, true⟩ t).env := by
  have hempty : ∀ env, Scope.Known [] ∅ env := by
    intro env name _ ty hty
    simp [Bindings.get?] at hty
  cases hmain : table.get? mainName with
  | none =>
    refine ⟨[], ∅, ?_, ?_, hempty _, fun _ _ => trivial⟩
    · simp [FunctionTable.mainBody?, hmain, BodyChecked]
    · simp [FunctionTable.mainBody?, hmain, bodyIsCertain]
  | some f =>
    have hmem := Bindings.mem_of_get? hmain
    -- no declaration has the name of the top level
    have hparams : f.params = [] := by
      rcases htaken.names _ hmem with hvalid | ⟨_, hparams⟩
      · exact absurd hvalid (by simp [mainName, isValidName])
      · exact hparams
    have hscope : f.scope = [] := by simp [Function.scope, Function.paramNames, hparams,
      Bindings.ofPairs, Bindings.setAll]
    obtain ⟨hbody, hcertain⟩ := htable _ hmem
    rw [hscope] at hbody hcertain
    refine ⟨[], ∅, ?_, ?_, hempty _, fun _ _ => trivial⟩
    · simpa [FunctionTable.mainBody?, hmain] using hbody
    · simpa [FunctionTable.mainBody?, hmain] using hcertain

end Invariant

/-! ## Runs -/

/-- **A run of an emitted program that reads no name in doubt meets no type fault**, at any point and
    however long it is. -/
theorem run_without_type_faults {lines : List Text} {table : FunctionTable} {codes : List Text}
    (hparse : parseProgram lines = .ok table) (hemit : table.emit.result = .ok codes)
    (hcertain : table.isCertain = true) {t : Turtle} {c c' : Config} {cause : Refusal} {line : Nat}
    (hreach : Config.Reaches ⟨table, true⟩ (Config.start ⟨table, true⟩ t) c)
    (hstep : c.step ⟨table, true⟩ = .refused cause line c') : cause.isTypeFault = false := by
  have htable : table.AllChecked := fun entry hentry =>
    ⟨FunctionTable.checked_of_emit hemit entry hentry, List.all_eq_true.1 hcertain entry hentry⟩
  have hready : Ready table c.blocks c.env :=
    hreach.invariant (motive := fun c => Ready table c.blocks c.env)
      (Ready.start (takenFrom_of_parseProgram hparse) htable t)
      fun _ _ h hmove => h.moves htable hmove
  obtain ⟨stmt, rest, caller, outer, hblocks, _, _, hrefuses⟩ := Config.step_eq_refused hstep
  exact hready.isTypeFault hblocks hrefuses

/-- A function with a loop and a name that is made in it. Its run divides by zero. -/
theorem run_without_type_faults_halve :
    ∃ table codes t c c' cause line, parseProgram ["TO halve \"n".toList, "WHILE GT :n \"0 [".toList,
        "MAKE \"last EQ :n \"1".toList, "IF :last [".toList, "FORWARD / \"6 - :n \"1".toList,
        "]".toList, "MAKE \"n - :n \"1".toList, "]".toList, "END".toList, "halve \"2".toList] =
          .ok table ∧
      table.emit.result = .ok codes ∧ table.isCertain = true ∧
      Config.Reaches ⟨table, true⟩ (Config.start ⟨table, true⟩ t) c ∧
      c.step ⟨table, true⟩ = .refused cause line c' ∧ cause.isTypeFault = false := by
  obtain ⟨table, hparse, hrest⟩ := Except.exists_of_any
    (m := parseProgram ["TO halve \"n".toList, "WHILE GT :n \"0 [".toList,
      "MAKE \"last EQ :n \"1".toList, "IF :last [".toList, "FORWARD / \"6 - :n \"1".toList,
      "]".toList, "MAKE \"n - :n \"1".toList, "]".toList, "END".toList, "halve \"2".toList])
    (p := fun table => table.emit.result.isOk && table.isCertain &&
      ((Config.start ⟨table, true⟩ ⟨.default, .default, 200, 200, 0, false, 7, [], []⟩).run
        ⟨table, true⟩ 40).1 = .refused (refusal .divideByZero ⟨8, 12⟩) 4) (by decide +kernel)
  simp only [Bool.and_eq_true, decide_eq_true_eq] at hrest
  obtain ⟨⟨hemitted, hcertain⟩, hrun⟩ := hrest
  obtain ⟨codes, hemit⟩ := Except.exists_of_isOk hemitted
  obtain ⟨c, c', hreach, hstep⟩ := Config.exists_refused_step hrun
  exact ⟨table, codes, _, c, c', _, _, hparse, hemit, hcertain, hreach, hstep,
    run_without_type_faults hparse hemit hcertain hreach hstep⟩

/-- A name that only a skipped block makes is in scope after it, but there is no such variable. -/
theorem type_fault_after_skipped_block :
    ∃ table codes t c c' cause line, parseProgram ["IF \"FALSE [".toList, "MAKE \"x \"TRUE".toList,
        "]".toList, "IF :x [".toList, "]".toList] = .ok table ∧
      table.emit.result = .ok codes ∧
      Config.Reaches ⟨table, true⟩ (Config.start ⟨table, true⟩ t) c ∧
      c.step ⟨table, true⟩ = .refused cause line c' ∧ cause.isTypeFault = true := by
  obtain ⟨table, hparse, hrest⟩ := Except.exists_of_any
    (m := parseProgram ["IF \"FALSE [".toList, "MAKE \"x \"TRUE".toList, "]".toList,
      "IF :x [".toList, "]".toList])
    (p := fun table => table.emit.result.isOk &&
      ((Config.start ⟨table, true⟩ ⟨.default, .default, 200, 200, 0, false, 7, [], []⟩).run
        ⟨table, true⟩ 10).1 = .refused (refusal .undefinedVariable ⟨3, 2⟩) 3) (by decide +kernel)
  simp only [Bool.and_eq_true, decide_eq_true_eq] at hrest
  obtain ⟨hemitted, hrun⟩ := hrest
  obtain ⟨codes, hemit⟩ := Except.exists_of_isOk hemitted
  obtain ⟨c, c', hreach, hstep⟩ := Config.exists_refused_step hrun
  exact ⟨table, codes, _, c, c', _, _, hparse, hemit, hreach, hstep, rfl⟩

end LogoLang
