import LogoLang.Program.Assembly
import LogoLang.Proofs.Run.Steps

set_option autoImplicit false

/-! # What a run leaves behind

A step that is refused changes neither the variables nor the turtle, and of a step that is made it is
the deed alone that does: a name is given a value, the turtle acts, a function is entered, or a call
returns (`Deed`). So the variables and the turtle at any point of a run are what the deeds up to there
make of those at its start (`Config.store_of_run`). The main statement is `failures_change_nothing`. -/

namespace LogoLang

/-! ## Deeds -/

/-- What a step does to the variables or to the turtle. -/
inductive Deed where
  | assigned (name : Text) (value : Value)
  | acted (action : Action)
  | entered (name : Text) (args : List Value)
  /-- A call with variables of its own is left. -/
  | returned
deriving DecidableEq

/-- The deed of an effect. Neither a skipped statement nor a block that is opened is one. -/
def Effect.deed? : Effect → Option Deed
  | .assign name value => some (.assigned name value)
  | .act action => some (.acted action)
  | .call name _ args => some (.entered name args)
  | .skip | .branch _ | .loop _ => none

/-- The deed of the next step. -/
def Config.deed? (p : Program) (c : Config) : Option Deed :=
  match c.blocks with
  | [] => none
  | ⟨[], caller⟩ :: _ => caller.map fun _ => .returned
  | ⟨stmt :: _, _⟩ :: _ => (stmt.effect p c.env c.turtle).result.toOption.bind Effect.deed?

/-- The deeds of a run, in order. -/
def Config.deeds (p : Program) : Nat → Config → List Deed
  | 0, _ => []
  | fuel + 1, c =>
    match c.step p with
    | .finished => []
    | .refused .. => []
    | .next c' =>
      (c.deed? p).toList ++ if nestingLimit < c'.blocks.length then [] else c'.deeds p fuel

/-- Whether a deed is told of in the log of a run. -/
def Deed.isLogged : Deed → Bool
  | .acted _ | .entered .. => true
  | .assigned .. | .returned => false

/-- The deed that an event tells of. A question is none. -/
def Event.deed? : Event → Option Deed
  | .asked .. => none
  | .acted action _ => some (.acted action)
  | .entered _ name args => some (.entered name args)

/-! ## What deeds do -/

/-- The variables in force, those that the open calls put back, and the turtle. -/
structure Store where
  env : Environment
  callers : List Environment
  turtle : Turtle

/-- What a configuration holds apart from what is still to be done. -/
def Config.store (c : Config) : Store := ⟨c.env, c.blocks.filterMap Block.caller, c.turtle⟩

/-- The variables of the top level. -/
def Store.topEnv (s : Store) : Environment := s.callers.getLast?.getD s.env

/-- A turtle after an action. -/
def Turtle.after (t : Turtle) (action : Action) : Turtle :=
  match t.perform action with
  | .ok (_, t') => t'
  | .error _ => t

/-- The store after a deed. -/
def Store.replay (p : Program) (s : Store) : Deed → Store
  | .assigned name value => { s with env := s.env.bind name value }
  | .acted action => { s with turtle := s.turtle.after action }
  | .entered name args =>
    match p.table.get? name with
    | none => s
    | some f =>
      if p.privateVariables then
        { s with env := .bindAll [] f.paramNames args, callers := s.env :: s.callers }
      else { s with env := (s.env.declareAll f.paramNames).bindAll f.paramNames args }
  | .returned =>
    match s.callers with
    | [] => s
    | env :: callers => { s with env, callers }

variable {p : Program} {c c' : Config}

/-- The variables of the top level are in force, or the outermost open call puts them back. -/
theorem Config.topEnv_store (c : Config) : c.store.topEnv = c.topEnv := by
  obtain ⟨blocks, env, t, log⟩ := c
  show (blocks.filterMap Block.caller).getLast?.getD env =
    blocks.foldl (fun env block => block.caller.getD env) env
  induction blocks generalizing env with
  | nil => rfl
  | cons block outer ih =>
    obtain ⟨stmts, caller⟩ := block
    cases caller with
    | none => exact ih env
    | some saved =>
      rw [List.foldl_cons]
      refine Eq.trans ?_ (ih saved)
      show (saved :: outer.filterMap Block.caller).getLast?.getD env = _
      rw [List.getLast?_cons]
      rfl

/-! ## Steps -/

theorem Config.deed?_of_does {stmt : Stmt} {rest : List Stmt} {caller : Option Environment}
    {outer : List Block} {effect : Effect} (hblocks : c.blocks = ⟨stmt :: rest, caller⟩ :: outer)
    (hdoes : stmt.Does p c.env c.turtle effect) : c.deed? p = effect.deed? := by
  unfold Config.deed?
  rw [hblocks]
  simp only [Stmt.effect_eq_ok_iff.2 hdoes]
  rfl

/-- **A step does its deed to the store and nothing else.** -/
theorem Config.Moves.store_eq (h : Config.Moves p c c') :
    c'.store = (c.deed? p).toList.foldl (Store.replay p) c.store := by
  cases h with
  | @leave caller outer hblocks =>
    unfold Config.deed? Config.store
    rw [hblocks]
    cases caller <;> rfl
  | skip hblocks hdoes | branch hblocks hdoes | loop hblocks hdoes | assign hblocks hdoes =>
    rw [Config.deed?_of_does hblocks hdoes]
    unfold Config.store
    rw [hblocks]
    rfl
  | act hblocks hdoes hperform =>
    rw [Config.deed?_of_does hblocks hdoes]
    unfold Config.store
    rw [hblocks]
    simp only [Effect.deed?, Option.toList_some, List.foldl_cons, List.foldl_nil, Store.replay,
      Turtle.after, hperform]
    rfl
  | @call stmt rest caller outer name f args hblocks hdoes =>
    have hget : p.table.get? name = some f := by
      cases hdoes with
      | call hcallee hargs => exact (Program.callee_eq_ok_iff.1 hcallee).1
    rw [Config.deed?_of_does hblocks hdoes]
    unfold Config.store Config.enter
    rw [hblocks]
    simp only [Effect.deed?, Option.toList_some, List.foldl_cons, List.foldl_nil, Store.replay, hget]
    cases p.privateVariables <;> rfl

/-- The deeds that the log tells of, in order. -/
def Config.told (c : Config) : List Deed := c.events.filterMap Event.deed?

/-- No question is a deed. -/
theorem Config.told_decided (c : Config) (stmt : Stmt) : (c.decided p stmt).told = c.told := by
  have hasked (queries : List Query) :
      (queries.map fun q => Event.asked q (c.turtle.answer q)).filterMap Event.deed? = [] := by
    rw [List.filterMap_map, List.filterMap_eq_nil_iff]
    exact fun _ _ => rfl
  unfold Config.told Config.events Config.decided Config.asked
  rw [List.reverse_append, List.reverse_reverse, List.filterMap_append, hasked, List.append_nil]

theorem Config.told_of_log_cons {event : Event} (h : c'.log = event :: c.log) :
    c'.told = c.told ++ event.deed?.toList := by
  unfold Config.told Config.events
  rw [h, List.reverse_cons, List.filterMap_append]
  cases event <;> rfl

/-- A step tells of its deed in the log, if this is one that is told of. -/
theorem Config.Moves.told_eq (h : Config.Moves p c c') :
    c'.told = c.told ++ (c.deed? p).toList.filter Deed.isLogged := by
  cases h with
  | @leave caller outer hblocks =>
    unfold Config.deed?
    rw [hblocks]
    cases caller <;> exact (List.append_nil _).symm
  | @skip stmt _ _ _ hblocks hdoes | @branch stmt _ _ _ _ hblocks hdoes
  | @loop stmt _ _ _ _ hblocks hdoes | @assign stmt _ _ _ _ _ hblocks hdoes =>
    rw [Config.deed?_of_does hblocks hdoes, ← Config.told_decided (p := p) c stmt]
    exact (List.append_nil _).symm
  | @act stmt _ _ _ action answer turtle hblocks hdoes hperform =>
    rw [Config.deed?_of_does hblocks hdoes, ← Config.told_decided (p := p) c stmt]
    exact (Config.told_of_log_cons (c := c.decided p stmt) rfl).trans rfl
  | @call stmt rest caller outer name f args hblocks hdoes =>
    rw [Config.deed?_of_does hblocks hdoes, ← Config.told_decided (p := p) c stmt]
    unfold Config.enter
    cases p.privateVariables <;>
      exact (Config.told_of_log_cons (c := c.decided p stmt) rfl).trans rfl

/-- A step that is refused leaves all as it is, but for the questions that it asked. -/
theorem Config.store_of_step_refused {cause : Refusal} {line : Nat}
    (h : c.step p = .refused cause line c') :
    c'.blocks = c.blocks ∧ c'.store = c.store ∧ c'.told = c.told := by
  obtain ⟨stmt, _, _, _, _, _, rfl, _⟩ := Config.step_eq_refused h
  exact ⟨rfl, rfl, Config.told_decided c stmt⟩

/-! ## Runs -/

/-- **The store after a run is what its deeds make of the store before it**, and the log of the run
    tells of the same deeds, as far as they are told of. -/
theorem Config.store_of_run (fuel : Nat) (c : Config) :
    (c.run p fuel).2.store = (c.deeds p fuel).foldl (Store.replay p) c.store ∧
      (c.run p fuel).2.told = c.told ++ (c.deeds p fuel).filter Deed.isLogged := by
  induction fuel generalizing c with
  | zero => exact ⟨rfl, (List.append_nil _).symm⟩
  | succ fuel ih =>
    unfold Config.run Config.deeds
    cases hstep : c.step p with
    | finished => exact ⟨rfl, (List.append_nil _).symm⟩
    | refused cause line last =>
      obtain ⟨_, hstore, htold⟩ := Config.store_of_step_refused hstep
      exact ⟨hstore, htold.trans (List.append_nil _).symm⟩
    | next mid =>
      have hmove := Config.step_eq_next_iff.1 hstep
      simp only
      rw [List.foldl_append, ← hmove.store_eq, List.filter_append, ← List.append_assoc,
        ← hmove.told_eq]
      split
      · exact ⟨rfl, (List.append_nil _).symm⟩
      · exact ih mid

/-- **What fails changes nothing.** A step that is refused, in either call mode and whatever the
    variables and the turtle are, leaves the open blocks, the variables and the turtle as they are, and
    its log gains only questions. So at the end of a run that is refused the variables, those that the
    open calls put back, and the turtle are what the deeds of the run make of those at its start: the
    names given a value, the actions of the turtle, the calls entered and left. The actions and calls
    are just those that the log tells of. -/
theorem failures_change_nothing (p : Program) :
    (∀ (c : Config) (cause : Refusal) (line : Nat) (c' : Config),
      c.step p = .refused cause line c' →
        c'.blocks = c.blocks ∧ c'.env = c.env ∧ c'.turtle = c.turtle ∧
          ∃ queries : List Query, c'.events = c.events ++ queries.map fun q =>
            .asked q (c.turtle.answer q)) ∧
    ∀ (t : Turtle) (fuel : Nat) (cause : Refusal) (line : Nat) (c' : Config),
      (Config.start p t).run p fuel = (.refused cause line, c') →
        c'.store = ((Config.start p t).deeds p fuel).foldl (Store.replay p)
            ⟨Environment.declareAll [] p.table.allParams, [], t⟩ ∧
          c'.topEnv = c'.store.topEnv ∧
          c'.events.filterMap Event.deed? =
            ((Config.start p t).deeds p fuel).filter Deed.isLogged := by
  refine ⟨?_, ?_⟩
  · intro c cause line c' hstep
    obtain ⟨stmt, _, _, _, _, _, rfl, _⟩ := Config.step_eq_refused hstep
    refine ⟨rfl, rfl, rfl, (stmt.effect p c.env c.turtle).trace, ?_⟩
    unfold Config.decided Config.asked Config.events
    rw [List.reverse_append, List.reverse_reverse]
  · intro t fuel cause line c' hrun
    obtain ⟨hstore, htold⟩ := Config.store_of_run (p := p) fuel (Config.start p t)
    rw [hrun] at hstore htold
    exact ⟨hstore, c'.topEnv_store.symm, htold⟩

/-- A function that binds its parameter and gives another name a value before it fails. Its deeds up to
    the failure are the pen, the call and this value. -/
theorem failures_change_nothing_call :
    ∃ table t c' cause, parseProgram ["TO f \"n".toList, "MAKE \"m :n".toList,
        "FORWARD + :m :lost".toList, "END".toList, "PENDOWN".toList, "f \"5".toList] = .ok table ∧
      (Config.start ⟨table, false⟩ t).run ⟨table, false⟩ 9 = (.refused cause 2, c') ∧
      (Config.start ⟨table, false⟩ t).deeds ⟨table, false⟩ 9 =
        [.acted .penDown, .entered ['f'] [.number 5], .assigned ['m'] (.number 5)] ∧
      c'.env = [(['n'], some (.number 5)), (['m'], some (.number 5))] ∧
      c'.turtle = (t.after .penDown) := by
  obtain ⟨table, hparse, hrest⟩ := Except.exists_of_any
    (m := parseProgram ["TO f \"n".toList, "MAKE \"m :n".toList, "FORWARD + :m :lost".toList,
      "END".toList, "PENDOWN".toList, "f \"5".toList])
    (p := fun table => ((Config.start ⟨table, false⟩
        ⟨.default, .default, 200, 200, 0, false, 7, [], []⟩).run ⟨table, false⟩ 9).1 =
          .refused (refusal .undefinedVariable ⟨13, 5⟩) 2 &&
      (Config.start ⟨table, false⟩ ⟨.default, .default, 200, 200, 0, false, 7, [], []⟩).deeds
        ⟨table, false⟩ 9 = [.acted .penDown, .entered ['f'] [.number 5],
          .assigned ['m'] (.number 5)] &&
      (table.get? ['f']).map Function.paramNames = some [['n']] &&
      table.allParams = [['n']]) (by decide +kernel)
  simp only [Bool.and_eq_true, decide_eq_true_eq] at hrest
  obtain ⟨⟨⟨hrun, hdeeds⟩, hget⟩, hparams⟩ := hrest
  obtain ⟨f, hf, hnames⟩ := Option.map_eq_some_iff.1 hget
  have hstore := ((failures_change_nothing ⟨table, false⟩).2 _ 9 _ _ _ (Prod.ext hrun rfl)).1
  rw [hdeeds, hparams] at hstore
  simp only [List.foldl_cons, List.foldl_nil, Store.replay, hf, hnames] at hstore
  exact ⟨table, _, _, _, hparse, Prod.ext hrun rfl, hdeeds, congrArg Store.env hstore,
    congrArg Store.turtle hstore⟩

end LogoLang
