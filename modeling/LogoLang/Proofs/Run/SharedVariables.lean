import LogoLang.Program.Assembly
import LogoLang.Proofs.Run.Reading
import LogoLang.Proofs.Run.Steps
import Mathlib.Order.Basic

set_option autoImplicit false

/-! # Variables shared by all calls

Without private variables there is one set of variables, which the top level and all calls share. A
name in it is missing, declared, or bound, and only ever moves on in this order. All parameters of the
program are declared before the first statement, so that none of them is ever missing, and one of them
is without a value exactly as long as no `MAKE` and no call has bound it. The main statement is
`shared_variables_move_on`. -/

namespace LogoLang

/-! ## Standings -/

/-- How far a variable has come. -/
inductive Standing where
  /-- Nothing has named it. -/
  | missing
  /-- It is known as a parameter and has no value. -/
  | declared
  /-- It has a value. -/
  | bound
deriving DecidableEq

/-- The place of a standing in the order missing, declared, bound. -/
def Standing.rank : Standing → Nat
  | .missing => 0
  | .declared => 1
  | .bound => 2

instance : Preorder Standing := Preorder.lift Standing.rank

theorem Standing.le_iff {a b : Standing} : a ≤ b ↔ a.rank ≤ b.rank := Iff.rfl

theorem Standing.le_bound (a : Standing) : a ≤ .bound := by
  cases a <;> exact Standing.le_iff.2 (by decide)

theorem Standing.eq_bound_of_le {a : Standing} (h : .bound ≤ a) : a = .bound := by
  cases a with
  | bound => rfl
  | missing | declared => exact absurd (Standing.le_iff.1 h) (by decide)

theorem Standing.ne_missing_of_le {a b : Standing} (h : a ≤ b) (ha : a ≠ .missing) : b ≠ .missing := by
  rintro rfl
  cases a with
  | missing => exact ha rfl
  | declared | bound => exact absurd (Standing.le_iff.1 h) (by decide)

/-- The standing of a name with this entry among the variables. -/
def Standing.ofEntry : Option (Option Value) → Standing
  | none => .missing
  | some none => .declared
  | some (some _) => .bound

/-- The standing of a name. -/
def Environment.standing (env : Environment) (name : Text) : Standing :=
  .ofEntry (Bindings.get? env name)

section Environments

variable {env : Environment} {name : Text}

/-- What stops the reading of a name tells its standing. -/
theorem Environment.standing_eq_missing_iff {span : Span} : env.standing name = .missing ↔
    env.read name span = .error (refusal .undefinedVariable span) := by
  rw [Environment.read_eq_undefinedVariable_iff]
  unfold Environment.standing
  rcases Bindings.get? env name with _ | _ | v <;> simp [Standing.ofEntry]

theorem Environment.standing_eq_declared_iff {span : Span} : env.standing name = .declared ↔
    env.read name span = .error (refusal .undefinedVariableValue span) := by
  rw [Environment.read_eq_undefinedVariableValue_iff]
  unfold Environment.standing
  rcases Bindings.get? env name with _ | _ | v <;> simp [Standing.ofEntry]

theorem Environment.standing_of_read {span : Span} {v : Value} (h : env.read name span = .ok v) :
    env.standing name = .bound := by
  rw [Environment.standing, Environment.read_eq_ok_iff.1 h]
  rfl

theorem Environment.standing_of_readNumber {span : Span} {x : Float}
    (h : env.readNumber name span = .ok x) : env.standing name = .bound := by
  obtain ⟨v, hread, _⟩ := Except.bind_eq_ok_iff.1 h
  exact Environment.standing_of_read hread

/-! ## Changes of standing -/

theorem Environment.standing_bind (env : Environment) (name other : Text) (v : Value) :
    (env.bind name v).standing other = if name = other then .bound else env.standing other := by
  unfold Environment.bind Environment.standing
  by_cases heq : name = other
  · subst heq
    rw [if_pos rfl, Bindings.get?_set_self]
    rfl
  · rw [if_neg heq, Bindings.get?_set_of_ne _ _ heq]

theorem Environment.standing_declare (env : Environment) (name other : Text) :
    (env.declare name).standing other =
      if name = other ∧ env.standing other = .missing then .declared else env.standing other := by
  unfold Environment.declare Bindings.contains Environment.standing
  by_cases heq : name = other
  · subst heq
    cases hget : Bindings.get? env name with
    | none => simp [Standing.ofEntry]
    | some entry => cases entry <;> simp [Standing.ofEntry, hget]
  · rw [if_neg fun h => heq (And.left h)]
    split
    · rfl
    · rw [Bindings.get?_set_of_ne _ _ heq]

/-- Declaring names moves on the missing ones among them and no other. -/
theorem Environment.standing_declareAll (env : Environment) (names : List Text) (other : Text) :
    (env.declareAll names).standing other =
      if other ∈ names ∧ env.standing other = .missing then .declared else env.standing other := by
  induction names generalizing env with
  | nil => simp [Environment.declareAll]
  | cons name rest ih =>
    show ((env.declare name).declareAll rest).standing other = _
    rw [ih, Environment.standing_declare]
    by_cases heq : name = other
    · subst heq
      cases env.standing name <;> simp
    · simp [heq, Ne.symm heq]

/-- Binding names to values binds those that there is a value for and changes no other. -/
theorem Environment.standing_bindAll (env : Environment) (names : List Text) (values : List Value)
    (other : Text) : (env.bindAll names values).standing other =
      if other ∈ names.take values.length then .bound else env.standing other := by
  induction names generalizing env values with
  | nil => simp [Environment.bindAll, Bindings.setAll]
  | cons name rest ih =>
    cases values with
    | nil => simp [Environment.bindAll, Bindings.setAll]
    | cons v values =>
      show ((env.bind name v).bindAll rest values).standing other = _
      rw [ih, Environment.standing_bind]
      by_cases heq : name = other
      · simp [heq]
      · simp [heq, Ne.symm heq]

end Environments

/-! ## Steps -/

/-- No open block has variables to put back. -/
def Config.Shares (c : Config) : Prop := ∀ block ∈ c.blocks, block.caller = none

/-- The next step gives a name a value: it is a `MAKE` of the name, or a call with an argument for a
    parameter of this name. -/
inductive Config.Binds (p : Program) (c : Config) (name : Text) : Prop where
  | make {span : Span} {value : Expr} {line : Nat} {rest : List Stmt}
      {caller : Option Environment} {outer : List Block}
      (hblocks : c.blocks = ⟨.assign .make (.named name span) value line :: rest, caller⟩ :: outer) :
      Config.Binds p c name
  | call {label : Label} {args : List Expr} {line : Nat} {rest : List Stmt}
      {caller : Option Environment} {outer : List Block} {f : Function} {fname : Text}
      {values : List Value} (hblocks : c.blocks = ⟨.call label args line :: rest, caller⟩ :: outer)
      (hdoes : (Stmt.call label args line).Does p c.env c.turtle (.call fname f values))
      (hparam : name ∈ f.paramNames.take values.length) : Config.Binds p c name

section Steps

variable {table : FunctionTable} {c c' : Config} {name : Text}

theorem Config.Shares.moves (h : c.Shares) (hmove : Config.Moves ⟨table, false⟩ c c') :
    c'.Shares := by
  unfold Config.Shares at h ⊢
  cases hmove with
  | leave hblocks =>
    rw [hblocks] at h
    exact (List.forall_mem_cons.1 h).2
  | skip hblocks hdoes | assign hblocks hdoes | act hblocks hdoes hperform =>
    rw [hblocks, List.forall_mem_cons] at h
    exact List.forall_mem_cons.2 h
  | branch hblocks hdoes | loop hblocks hdoes | call hblocks hdoes =>
    rw [hblocks, List.forall_mem_cons] at h
    exact List.forall_mem_cons.2 ⟨rfl, List.forall_mem_cons.2 h⟩

theorem Config.Reaches.shares {t : Turtle}
    (h : Config.Reaches ⟨table, false⟩ (Config.start ⟨table, false⟩ t) c) : c.Shares :=
  h.invariant (List.forall_mem_singleton.2 rfl) fun _ _ hc hmove => hc.moves hmove

/-- What the statement at the head of the innermost block was found to do is what a step does. -/
theorem Config.Moves.exists_does {p : Program} {stmt : Stmt} {rest : List Stmt}
    {caller : Option Environment} {outer : List Block} (hmove : Config.Moves p c c')
    (hblocks : c.blocks = ⟨stmt :: rest, caller⟩ :: outer) :
    ∃ effect, stmt.Does p c.env c.turtle effect ∧
      (c.decided p stmt).apply p stmt rest caller outer effect = .next c' := by
  have hstep := Config.step_eq_next_iff.2 hmove
  rw [Config.step_of_statement hblocks] at hstep
  cases hresult : (stmt.effect p c.env c.turtle).result with
  | error cause => simp [hresult] at hstep
  | ok effect =>
    rw [hresult] at hstep
    exact ⟨effect, Stmt.effect_eq_ok_iff.1 hresult, hstep⟩

/-- The variables that a call starts with, when it shares them. -/
theorem Config.enter_env_shared (c : Config) (f : Function) (args : List Value) :
    (c.enter ⟨table, false⟩ f args).env = (c.env.declareAll f.paramNames).bindAll f.paramNames args :=
  rfl

/-- A step that binds a name gives it a value. -/
theorem Config.Moves.standing_of_binds (hmove : Config.Moves ⟨table, false⟩ c c')
    (hbinds : c.Binds ⟨table, false⟩ name) : c'.env.standing name = .bound := by
  cases hbinds with
  | make hblocks =>
    obtain ⟨effect, hdoes, happly⟩ := hmove.exists_does hblocks
    cases hdoes
    cases happly
    rw [Environment.standing_bind, if_pos rfl]
  | call hblocks hdoes hparam =>
    obtain ⟨effect, hdoes', happly⟩ := hmove.exists_does hblocks
    have heffect := Stmt.effect_eq_ok_iff.2 hdoes'
    rw [Stmt.effect_eq_ok_iff.2 hdoes] at heffect
    cases heffect
    cases happly
    rw [Config.enter_env_shared, Environment.standing_bindAll, if_pos hparam]

/-- **A step that does not bind a name leaves it as it is**, or a call declares it. -/
theorem Config.Moves.standing_of_not_binds (hmove : Config.Moves ⟨table, false⟩ c c')
    (hshares : c.Shares) (hbinds : ¬ c.Binds ⟨table, false⟩ name) :
    c'.env.standing name = c.env.standing name ∨
      c.env.standing name = .missing ∧ c'.env.standing name = .declared := by
  cases hmove with
  | @leave caller outer hblocks =>
    have hcaller : caller = none := hshares ⟨[], caller⟩ (by rw [hblocks]; exact List.mem_cons_self)
    subst hcaller
    exact Or.inl rfl
  | skip hblocks hdoes | act hblocks hdoes hperform | branch hblocks hdoes | loop hblocks hdoes =>
    exact Or.inl rfl
  | @assign stmt rest caller outer target value hblocks hdoes =>
    refine Or.inl ?_
    show (c.env.bind target value).standing name = _
    rw [Environment.standing_bind]
    split
    · next heq =>
      subst heq
      cases hdoes with
      | make hvalue => exact absurd (.make hblocks) hbinds
      | increase hold hvalue => exact (Environment.standing_of_readNumber hold).symm
    · rfl
  | @call stmt rest caller outer fname f args hblocks hdoes =>
    rw [Config.enter_env_shared, Environment.standing_bindAll, Config.decided_env,
      Environment.standing_declareAll]
    have hparam : name ∉ f.paramNames.take args.length := by
      intro hmem
      cases hdoes with
      | call hcallee hargs => exact hbinds (.call hblocks (.call hcallee hargs) hmem)
    rw [if_neg hparam]
    split
    · next hmissing => exact Or.inr ⟨hmissing.2, rfl⟩
    · exact Or.inl rfl

theorem Config.Moves.standing_le (hmove : Config.Moves ⟨table, false⟩ c c') (hshares : c.Shares)
    (name : Text) : c.env.standing name ≤ c'.env.standing name := by
  by_cases hbinds : c.Binds ⟨table, false⟩ name
  · rw [hmove.standing_of_binds hbinds]
    exact Standing.le_bound _
  · rcases hmove.standing_of_not_binds hshares hbinds with heq | ⟨hmissing, hdeclared⟩
    · exact le_of_eq heq.symm
    · rw [hmissing, hdeclared]
      exact Standing.le_iff.2 (by decide)

end Steps

/-! ## Runs -/

/-- A step on the way from one configuration to another gives a name a value. -/
def Config.BindsOnWay (p : Program) (c c' : Config) (name : Text) : Prop :=
  ∃ mid next, Config.Reaches p c mid ∧ mid.Binds p name ∧ mid.step p = .next next ∧
    Config.Reaches p next c'

/-- A name stands on the line of a statement, as a variable of one of its expressions or as a label. -/
def Stmt.Names (stmt : Stmt) (name : Text) (span : Span) : Prop :=
  .named name span ∈ stmt.labels ∨ ∃ expr ∈ stmt.exprs, .var name span ∈ expr.nodes

section Runs

variable {table : FunctionTable} {t : Turtle} {c c' : Config} {name : Text}

/-- **Variables only move on**, from any point of a run to any later one. -/
theorem Config.Reaches.standing_le (hshares : c.Shares)
    (h : Config.Reaches ⟨table, false⟩ c c') (name : Text) :
    c.env.standing name ≤ c'.env.standing name := by
  have hboth : c'.Shares ∧ c.env.standing name ≤ c'.env.standing name :=
    h.invariant (motive := fun c' => c'.Shares ∧ c.env.standing name ≤ c'.env.standing name)
      ⟨hshares, le_refl _⟩ fun mid next hmid hmove =>
        ⟨hmid.1.moves hmove, hmid.2.trans (hmove.standing_le hmid.1 name)⟩
  exact hboth.2

/-- The parameters of the program are declared at its start, and no other name is there. -/
theorem Config.standing_start (table : FunctionTable) (t : Turtle) (name : Text) :
    (Config.start ⟨table, false⟩ t).env.standing name =
      if name ∈ table.allParams then .declared else .missing := by
  show (Environment.declareAll [] table.allParams).standing name = _
  rw [Environment.standing_declareAll]
  simp [Environment.standing, Standing.ofEntry, Bindings.get?]

theorem Config.shares_start (table : FunctionTable) (t : Turtle) :
    (Config.start ⟨table, false⟩ t).Shares :=
  Config.Reaches.shares .refl

/-- No parameter is ever missing. -/
theorem Config.Reaches.standing_ne_missing (hparam : name ∈ table.allParams)
    (h : Config.Reaches ⟨table, false⟩ (Config.start ⟨table, false⟩ t) c) :
    c.env.standing name ≠ .missing := by
  refine Standing.ne_missing_of_le (h.standing_le (Config.shares_start table t) name) ?_
  rw [Config.standing_start, if_pos hparam]
  simp

/-- A parameter that nothing has bound is declared. -/
theorem Config.Reaches.standing_eq_declared (hparam : name ∈ table.allParams)
    (h : Config.Reaches ⟨table, false⟩ (Config.start ⟨table, false⟩ t) c)
    (hbinds : ¬ Config.BindsOnWay ⟨table, false⟩ (Config.start ⟨table, false⟩ t) c name) :
    c.env.standing name = .declared := by
  induction h with
  | refl => rw [Config.standing_start, if_pos hparam]
  | @tail mid next hreach hstep ih =>
    have hmid : mid.env.standing name = .declared := by
      refine ih ?_
      rintro ⟨from', to', hfrom, hbind, hto, hrest⟩
      exact hbinds ⟨from', to', hfrom, hbind, hto, hrest.tail hstep⟩
    have hnot : ¬ mid.Binds ⟨table, false⟩ name := fun hbind =>
      hbinds ⟨mid, next, hreach, hbind, hstep, .refl⟩
    have hmove := Config.step_eq_next_iff.1 hstep
    rcases hmove.standing_of_not_binds (Config.Reaches.shares hreach) hnot with heq | ⟨hmissing, _⟩
    · exact heq.trans hmid
    · rw [hmid] at hmissing
      exact absurd hmissing (by simp)

/-- What a step has bound stays bound. -/
theorem Config.BindsOnWay.standing_eq_bound
    (h : Config.BindsOnWay ⟨table, false⟩ (Config.start ⟨table, false⟩ t) c name) :
    c.env.standing name = .bound := by
  obtain ⟨mid, next, hmid, hbinds, hstep, hrest⟩ := h
  have hbound := (Config.step_eq_next_iff.1 hstep).standing_of_binds hbinds
  have hle := hrest.standing_le (Config.Reaches.shares (hmid.tail hstep)) name
  rw [hbound] at hle
  exact Standing.eq_bound_of_le hle

theorem Program.callee_ne_undefinedVariable (p : Program) (name : Text) (at' : Span) (count : Nat)
    (span : Span) : p.callee name at' count ≠ .error (refusal .undefinedVariable span) := by
  unfold Program.callee
  split
  · simp [refusal]
  · split
    · simp [refusal]
    · split <;> simp [refusal]

/-- A variable at fault for being missing is no parameter. -/
theorem Config.Reaches.not_mem_allParams {span : Span} {line : Nat}
    (h : Config.Reaches ⟨table, false⟩ (Config.start ⟨table, false⟩ t) c)
    (hstep : c.step ⟨table, false⟩ = .refused (refusal .undefinedVariable span) line c') :
    ∃ stmt rest caller outer name, c.blocks = ⟨stmt :: rest, caller⟩ :: outer ∧
      line = stmt.line ∧ stmt.Names name span ∧ c.env.standing name = .missing ∧
      name ∉ table.allParams := by
  obtain ⟨stmt, rest, caller, outer, hblocks, hline, _, hrefuses⟩ := Config.step_eq_refused hstep
  cases hrefuses with
  | fails hfails =>
    have hfound : ∃ name, stmt.Names name span ∧
        c.env.read name span = .error (refusal .undefinedVariable span) := by
      cases hfails.unbound rfl with
      | operand hexpr hvar hread => exact ⟨_, Or.inr ⟨_, hexpr, hvar⟩, hread⟩
      | target hlabel hread => exact ⟨_, Or.inl hlabel, hread⟩
      | callee hstmt hcallee => exact absurd hcallee (Program.callee_ne_undefinedVariable _ _ _ _ span)
    obtain ⟨name, hnames, hread⟩ := hfound
    have hmissing := Environment.standing_eq_missing_iff.2 hread
    exact ⟨stmt, rest, caller, outer, name, hblocks, hline, hnames, hmissing,
      fun hparam => h.standing_ne_missing hparam hmissing⟩

theorem FunctionTable.mem_allParams {table : FunctionTable} {entry : Text × Function} {name : Text}
    (hentry : entry ∈ table.entries) (hname : name ∈ entry.2.paramNames) : name ∈ table.allParams :=
  List.mem_flatMap.2 ⟨entry, hentry, hname⟩

/-- **Shared variables only move on.** From any point of a run to any later one no name goes back from
    bound to declared or from declared to missing. A parameter of any function is never missing, so
    that a variable at fault for being missing is none of them. A parameter that a `MAKE` or a call has
    bound on the way has a value, and any other one is at fault for having none wherever it is read, by
    an expression or by an `ADDASSIGN`. -/
theorem shared_variables_move_on (table : FunctionTable) (t : Turtle) {c : Config}
    (hreach : Config.Reaches ⟨table, false⟩ (Config.start ⟨table, false⟩ t) c) :
    (∀ c', Config.Reaches ⟨table, false⟩ c c' →
      ∀ name, c.env.standing name ≤ c'.env.standing name) ∧
    (∀ entry ∈ table.entries, ∀ name ∈ entry.2.paramNames,
      (Config.BindsOnWay ⟨table, false⟩ (Config.start ⟨table, false⟩ t) c name →
        c.env.standing name = .bound) ∧
      (¬ Config.BindsOnWay ⟨table, false⟩ (Config.start ⟨table, false⟩ t) c name →
        c.env.standing name = .declared ∧
        (∀ span, ((Expr.var name span).eval c.env c.turtle).result =
          .error (refusal .undefinedVariableValue span)) ∧
        ∀ span value line, ((Stmt.assign .increase (.named name span) value line).effect
          ⟨table, false⟩ c.env c.turtle).result = .error (refusal .undefinedVariableValue span))) ∧
    ∀ span line c', c.step ⟨table, false⟩ = .refused (refusal .undefinedVariable span) line c' →
      ∃ stmt rest caller outer name, c.blocks = ⟨stmt :: rest, caller⟩ :: outer ∧
        line = stmt.line ∧ stmt.Names name span ∧ c.env.standing name = .missing ∧
        ∀ entry ∈ table.entries, name ∉ entry.2.paramNames := by
  refine ⟨fun c' hlater => hlater.standing_le hreach.shares, ?_, ?_⟩
  · intro entry hentry name hname
    have hparam := FunctionTable.mem_allParams hentry hname
    refine ⟨fun hbinds => hbinds.standing_eq_bound, fun hbinds => ?_⟩
    have hdeclared := hreach.standing_eq_declared hparam hbinds
    have hread : ∀ span, c.env.read name span = .error (refusal .undefinedVariableValue span) :=
      fun span => Environment.standing_eq_declared_iff.1 hdeclared
    refine ⟨hdeclared, hread, fun span value line => Stmt.effect_eq_error_iff.2 (.increaseOld ?_)⟩
    exact Except.bind_eq_error_iff.2 (Or.inl (hread span))
  · intro span line c' hstep
    obtain ⟨stmt, rest, caller, outer, name, hblocks, hline, hnames, hmissing, hparam⟩ :=
      hreach.not_mem_allParams hstep
    exact ⟨stmt, rest, caller, outer, name, hblocks, hline, hnames, hmissing,
      fun entry hentry hname => hparam (FunctionTable.mem_allParams hentry hname)⟩

/-- A function that calls itself without arguments and then reads a name that nothing declares. The
    first parameter still has its value in the inner call, and the second one is still declared. -/
theorem shared_variables_move_on_recursion :
    ∃ table t c cause c', parseProgram ["TO f \"n \"m".toList, "IF EQ :n \"1 [".toList,
        "ADDASSIGN \"n \"1".toList, "f".toList, "]".toList, "FORWARD :q".toList, "END".toList,
        "f \"1".toList] = .ok table ∧
      Config.Reaches ⟨table, false⟩ (Config.start ⟨table, false⟩ t) c ∧
      c.step ⟨table, false⟩ = .refused cause 5 c' ∧
      c.env.standing ['n'] = .bound ∧ c.env.standing ['m'] = .declared ∧
      ∃ name, c.env.standing name = .missing ∧ name ∉ [['n'], ['m']] := by
  obtain ⟨table, hparse, hrest⟩ := Except.exists_of_any
    (m := parseProgram ["TO f \"n \"m".toList, "IF EQ :n \"1 [".toList,
      "ADDASSIGN \"n \"1".toList, "f".toList, "]".toList, "FORWARD :q".toList, "END".toList,
      "f \"1".toList])
    (p := fun table => ((Config.start ⟨table, false⟩
        ⟨.default, .default, 200, 200, 0, false, 7, [], []⟩).run ⟨table, false⟩ 9).1 =
          .refused (refusal .undefinedVariable ⟨8, 2⟩) 5 &&
      ((Config.start ⟨table, false⟩
        ⟨.default, .default, 200, 200, 0, false, 7, [], []⟩).run ⟨table, false⟩ 9).2.env =
          [(['n'], some (.number 2)), (['m'], none)] &&
      table.entries.map (fun entry => entry.2.paramNames) = [[['n'], ['m']], []]) (by decide +kernel)
  simp only [Bool.and_eq_true, decide_eq_true_eq] at hrest
  obtain ⟨⟨hrun, henv⟩, hparams⟩ := hrest
  obtain ⟨mid, hreach, hstep⟩ := Config.run_eq_refused (Prod.ext hrun rfl)
  have hmid : mid.env = [(['n'], some (.number 2)), (['m'], none)] := by
    obtain ⟨_, _, _, _, _, _, hlast, _⟩ := Config.step_eq_refused hstep
    exact (congrArg Config.env hlast).symm.trans henv
  obtain ⟨_, _, _, _, name, _, _, _, hmissing, hnot⟩ :=
    (shared_variables_move_on table _ hreach).2.2 _ _ _ hstep
  have hmem : [['n'], ['m']] ∈ table.entries.map (fun entry => entry.2.paramNames) := by
    rw [hparams]
    exact List.mem_cons_self
  obtain ⟨entry, hentry, hnames⟩ := List.mem_map.1 hmem
  refine ⟨table, _, mid, _, _, hparse, hreach, hstep, ?_, ?_, name, hmissing, ?_⟩
  · rw [hmid]
    decide +kernel
  · rw [hmid]
    decide +kernel
  · rw [← hnames]
    exact hnot entry hentry

end Runs

end LogoLang
