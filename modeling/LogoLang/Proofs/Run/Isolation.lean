import LogoLang.Proofs.Run.Calls
import LogoLang.Proofs.Run.Frames
import LogoLang.Program.Assembly

set_option autoImplicit false

/-! # Isolation of calls

With private variables a call leaves the variables of its caller as they are, however it ends, and
what it does depends on them through the values of the arguments only. All variables in it are bound,
so that only the top level can find one without a value. The main statement is `calls_isolated`. -/

namespace LogoLang

section Isolation

variable {table : FunctionTable} {label : Label} {args : List Expr} {line : Nat}

/-! ## One run -/

/-- Whatever a statement is decided to do, a call either cannot be done or enters a function. -/
theorem Stmt.call_cases (p : Program) (env : Environment) (t : Turtle) :
    (∃ cause, ((Stmt.call label args line).effect p env t).result = .error cause) ∨
      ∃ name f values, (Stmt.call label args line).Does p env t (.call name f values) := by
  cases hresult : ((Stmt.call label args line).effect p env t).result with
  | error cause => exact Or.inl ⟨cause, rfl⟩
  | ok effect =>
    have hdoes := Stmt.effect_eq_ok_iff.1 hresult
    cases hdoes with
    | call hcallee hargs => exact Or.inr ⟨_, _, _, .call hcallee hargs⟩

/-- How the run of a call leaves its caller: at any point of it the variables of the caller are there to
    be put back, and at its end they are in force. -/
structure Config.LeavesCaller (p : Program) (c : Config) (rest : List Stmt)
    (caller : Option Environment) (outer : List Block) (ending : Ending) (c' : Config) : Prop where
  saved : c'.envAt (outer.length + 1) = c.env
  finished : ending = .finished →
    c'.blocks = ⟨rest, caller⟩ :: outer ∧ c'.env = c.env ∧ Config.Reaches p c c'
  refused : ∀ cause line, ending = .refused cause line →
    ∃ mid, Config.Reaches p c mid ∧ mid.step p = .refused cause line c'

theorem Config.leavesCaller_of_runTo {c c' : Config} {rest : List Stmt}
    {caller : Option Environment} {outer : List Block} {fuel : Nat} {ending : Ending}
    (hblocks : c.blocks = ⟨.call label args line :: rest, caller⟩ :: outer)
    (hrun : c.runTo ⟨table, true⟩ (outer.length + 1) fuel = (ending, c')) :
    Config.LeavesCaller ⟨table, true⟩ c rest caller outer ending c' := by
  have hlength : c.blocks.length = outer.length + 1 := by
    rw [hblocks, List.length_cons]
  -- nothing has happened to the variables before the call is entered
  have hhere : ∀ log, Config.envAt (outer.length + 1) { c with log } = c.env := by
    intro log
    rw [← hlength]
    exact Config.envAt_length { c with log }
  cases fuel with
  | zero =>
    cases hrun
    exact ⟨hhere c.log, by simp, by simp⟩
  | succ fuel =>
    rcases Stmt.call_cases ⟨table, true⟩ c.env c.turtle with
      ⟨cause, hresult⟩ | ⟨name, f, values, hdoes⟩
    · have hrefused := Config.runTo_refused (outer.length + 1) fuel hblocks hresult
      rw [hrun] at hrefused
      cases hrefused
      refine ⟨hhere _, by simp, fun cause line h => ?_⟩
      cases h
      exact Config.runTo_eq_refused hrun
    · have hcall := Config.runTo_call fuel hblocks hdoes
      cases hinner : (f.opening values c.turtle).runTo ⟨table, true⟩ 0 fuel with
      | mk ending' last =>
        rw [hrun, hinner] at hcall
        obtain ⟨rfl, rfl⟩ := Prod.mk.inj hcall
        refine ⟨Config.envAt_embed _ _ _ _, fun hfinished => ?_, fun cause line h => ?_⟩
        · -- all blocks of the function have been left
          rw [hfinished] at hinner hrun
          have hempty : last.blocks = [] :=
            List.length_eq_zero_iff.1 (Nat.le_zero.1 (Config.length_of_runTo hinner))
          refine ⟨?_, ?_, Config.runTo_reaches hrun (by simp)⟩
          · simp [Config.embed, hempty, enclose]
          · simp [Config.embed, hempty]
        · rw [h] at hrun
          exact Config.runTo_eq_refused hrun

/-! ## Two runs -/

/-- Two runs, from `c₁` and from `c₂`, that have come equally far with the same events. -/
structure SameCourse (c₁ c₂ : Config) (r₁ r₂ : Ending × Config) : Prop where
  ending : r₁.1 = r₂.1
  turtle : r₁.2.turtle = r₂.2.turtle
  events : ∃ events, r₁.2.log = events ++ c₁.log ∧ r₂.2.log = events ++ c₂.log

theorem sameCourse_of_runTo {c₁ c₂ : Config} {rest₁ rest₂ : List Stmt}
    {caller₁ caller₂ : Option Environment} {outer₁ outer₂ : List Block} {values : List Value}
    (hblocks₁ : c₁.blocks = ⟨.call label args line :: rest₁, caller₁⟩ :: outer₁)
    (hblocks₂ : c₂.blocks = ⟨.call label args line :: rest₂, caller₂⟩ :: outer₂)
    (hturtle : c₁.turtle = c₂.turtle)
    (hargs₁ : (evalAll c₁.env c₁.turtle args).result = .ok values)
    (hargs₂ : (evalAll c₂.env c₂.turtle args).result = .ok values) (fuel : Nat) :
    SameCourse c₁ c₂ (c₁.runTo ⟨table, true⟩ (outer₁.length + 1) fuel)
      (c₂.runTo ⟨table, true⟩ (outer₂.length + 1) fuel) := by
  obtain ⟨blocks₁, env₁, t, log₁⟩ := c₁
  obtain ⟨blocks₂, env₂, t₂, log₂⟩ := c₂
  cases hturtle
  have hsame : (Stmt.call label args line).effect ⟨table, true⟩ env₁ t =
      (Stmt.call label args line).effect ⟨table, true⟩ env₂ t :=
    Stmt.effect_call_congr hargs₁ hargs₂
  cases fuel with
  | zero => exact ⟨rfl, rfl, [], rfl, rfl⟩
  | succ fuel =>
    rcases Stmt.call_cases ⟨table, true⟩ env₁ t with
      ⟨cause, hresult⟩ | ⟨name, f, arguments, hdoes⟩
    · rw [Config.runTo_refused _ _ hblocks₁ hresult,
        Config.runTo_refused _ _ hblocks₂ (hsame ▸ hresult)]
      refine ⟨rfl, rfl, _, rfl, ?_⟩
      simp only [Config.decided, Config.asked, hsame]
    · have hdoes₂ : (Stmt.call label args line).Does ⟨table, true⟩ env₂ t
          (.call name f arguments) := by
        rw [← Stmt.effect_eq_ok_iff, ← hsame, Stmt.effect_eq_ok_iff]
        exact hdoes
      -- both are the same run of the function's opening, inside the runs of their callers
      rw [Config.runTo_call fuel hblocks₁ hdoes, Config.runTo_call fuel hblocks₂ hdoes₂]
      refine ⟨rfl, rfl, ((f.opening arguments t).runTo ⟨table, true⟩ 0 fuel).2.log ++
        .entered line name arguments :: (((Stmt.call label args line).effect ⟨table, true⟩ env₁
          t).trace.map fun q => .asked q (t.answer q)).reverse, ?_, ?_⟩
      · simp only [Config.embed, Config.decided, Config.asked, List.append_assoc, List.cons_append]
        rfl
      · simp only [Config.embed, Config.decided, Config.asked, List.append_assoc, List.cons_append,
          hsame]
        rfl

/-! ## All together -/

/-- A run that finds a declared variable without a value is at a statement of the top level, and no
    call is open. -/
theorem Config.Reaches.exists_main_of_refused {c c' : Config} {t : Turtle} {span : Span}
    (hreach : Config.Reaches ⟨table, true⟩ (Config.start ⟨table, true⟩ t) c)
    (hstep : c.step ⟨table, true⟩ = .refused (refusal .undefinedVariableValue span) line c') :
    ∃ stmt rest caller outer, c.blocks = ⟨stmt :: rest, caller⟩ :: outer ∧ line = stmt.line ∧
      stmt ∈ allStmts (table.mainBody?.getD []) ∧ ∀ block ∈ c.blocks, block.caller = none := by
  obtain ⟨stmt, rest, caller, outer, hblocks, hline, _, hrefuses⟩ := Config.step_eq_refused hstep
  cases hrefuses with
  | fails hfails =>
    obtain ⟨name, hname⟩ := (hfails.unbound rfl).exists_declared
    have htop := hreach.framesBound.caller_eq_none fun hbound => hbound name hname
    exact ⟨stmt, rest, caller, outer, hblocks, hline, hreach.mem_mainBody hblocks htop, htop⟩

/-- **Calls with variables of their own are isolated.** The run of a call, wherever it stands and
    however deep, leaves the variables of its caller as they are, whether it finishes, is refused, or is
    not at its end yet. Two runs of a call, whose arguments have the same values, make the same course.
    In all frames that a run of a program creates each name is bound, so that only a statement of the
    top level finds a declared variable without a value. -/
theorem calls_isolated (table : FunctionTable) :
    (∀ c label args line rest caller outer,
      c.blocks = ⟨.call label args line :: rest, caller⟩ :: outer →
        ∀ fuel ending c', c.runTo ⟨table, true⟩ (outer.length + 1) fuel = (ending, c') →
          Config.LeavesCaller ⟨table, true⟩ c rest caller outer ending c') ∧
    (∀ c₁ c₂ label args line rest₁ rest₂ caller₁ caller₂ outer₁ outer₂ values,
      c₁.blocks = ⟨.call label args line :: rest₁, caller₁⟩ :: outer₁ →
      c₂.blocks = ⟨.call label args line :: rest₂, caller₂⟩ :: outer₂ →
      c₁.turtle = c₂.turtle → (evalAll c₁.env c₁.turtle args).result = .ok values →
      (evalAll c₂.env c₂.turtle args).result = .ok values →
        ∀ fuel, SameCourse c₁ c₂ (c₁.runTo ⟨table, true⟩ (outer₁.length + 1) fuel)
          (c₂.runTo ⟨table, true⟩ (outer₂.length + 1) fuel)) ∧
    ∀ t c, Config.Reaches ⟨table, true⟩ (Config.start ⟨table, true⟩ t) c →
      (∀ frame ∈ c.frames.dropLast, frame.Bound) ∧
      ∀ span line c', c.step ⟨table, true⟩ = .refused (refusal .undefinedVariableValue span) line c' →
        ∃ stmt rest caller outer, c.blocks = ⟨stmt :: rest, caller⟩ :: outer ∧ line = stmt.line ∧
          stmt ∈ allStmts (table.mainBody?.getD []) ∧ ∀ block ∈ c.blocks, block.caller = none := by
  refine ⟨?_, ?_, ?_⟩
  · intro c label args line rest caller outer hblocks fuel ending c' hrun
    exact Config.leavesCaller_of_runTo hblocks hrun
  · intro c₁ c₂ label args line rest₁ rest₂ caller₁ caller₂ outer₁ outer₂ values hblocks₁ hblocks₂
      hturtle hargs₁ hargs₂ fuel
    exact sameCourse_of_runTo hblocks₁ hblocks₂ hturtle hargs₁ hargs₂ fuel
  · intro t c hreach
    exact ⟨hreach.bound_of_mem_frames, fun span line c' hstep =>
      hreach.exists_main_of_refused hstep⟩

end Isolation

/-- A function that calls itself, called with one variable around and with two, and a parameter that
    the top level reads before any call. -/
theorem calls_isolated_countdown :
    ∃ table t c₁ c₂ last₁ last₂ before after span, parseProgram ["TO f \"n".toList,
        "IF GT :n \"0 [".toList, "FORWARD :n".toList, "f - :n \"1".toList, "]".toList,
        "END".toList, "FORWARD :n".toList] = .ok table ∧
      c₁.env = [(['x'], some (.number 2))] ∧
      c₂.env = [(['n'], some (.truth true)), (['x'], some (.number 2))] ∧
      c₁.runTo ⟨table, true⟩ 1 40 = (.finished, last₁) ∧
      c₂.runTo ⟨table, true⟩ 1 40 = (.finished, last₂) ∧
      SameCourse c₁ c₂ (.finished, last₁) (.finished, last₂) ∧
      last₁.env = c₁.env ∧ last₂.env = c₂.env ∧
      Config.Reaches ⟨table, true⟩ (Config.start ⟨table, true⟩ t) before ∧
      before.step ⟨table, true⟩ = .refused (refusal .undefinedVariableValue span) 6 after ∧
      ∀ block ∈ before.blocks, block.caller = none := by
  obtain ⟨table, hparse, hrest⟩ := Except.exists_of_any
    (m := parseProgram ["TO f \"n".toList, "IF GT :n \"0 [".toList, "FORWARD :n".toList,
      "f - :n \"1".toList, "]".toList, "END".toList, "FORWARD :n".toList])
    (p := fun table => (Config.runTo ⟨table, true⟩ 1 40
        ⟨[⟨[.call (.named ['f'] ⟨0, 1⟩) [.var ['x'] ⟨2, 2⟩] 7], none⟩],
          [(['x'], some (.number 2))], ⟨.default, .default, 200, 200, 0, false, 7, [], []⟩, []⟩).1 =
            .finished &&
      ((Config.start ⟨table, true⟩ ⟨.default, .default, 200, 200, 0, false, 7, [], []⟩).run
        ⟨table, true⟩ 5).1 = .refused (refusal .undefinedVariableValue ⟨8, 2⟩) 6) (by decide +kernel)
  simp only [Bool.and_eq_true, decide_eq_true_eq] at hrest
  obtain ⟨hfinished, hrefused⟩ := hrest
  obtain ⟨hone, htwo, hframes⟩ := calls_isolated table
  obtain ⟨before, after, hreach, hstep⟩ := Config.exists_refused_step hrefused
  obtain ⟨_, _, _, _, _, _, _, htop⟩ := (hframes _ before hreach).2 _ _ _ hstep
  -- the same call, from variables among which is one with the name of the parameter
  obtain ⟨c₁, c₂, hblocks₁, hblocks₂, henv₁, henv₂, hturtle, hfinished₁⟩ : ∃ c₁ c₂ : Config,
      c₁.blocks = ⟨[.call (.named ['f'] ⟨0, 1⟩) [.var ['x'] ⟨2, 2⟩] 7], none⟩ :: [] ∧
      c₂.blocks = ⟨[.call (.named ['f'] ⟨0, 1⟩) [.var ['x'] ⟨2, 2⟩] 7], none⟩ :: [] ∧
      c₁.env = [(['x'], some (.number 2))] ∧
      c₂.env = [(['n'], some (.truth true)), (['x'], some (.number 2))] ∧
      c₁.turtle = c₂.turtle ∧ (c₁.runTo ⟨table, true⟩ 1 40).1 = .finished :=
    ⟨⟨_, _, _, []⟩, ⟨_, _, _, []⟩, rfl, rfl, rfl, rfl, rfl, hfinished⟩
  have hsame := htwo c₁ c₂ _ _ _ _ _ _ _ _ _ [.number 2] hblocks₁ hblocks₂ hturtle
    (by rw [henv₁]; rfl) (by rw [henv₂]; rfl) 40
  have hfinished₂ : (c₂.runTo ⟨table, true⟩ 1 40).1 = .finished :=
    hsame.ending.symm.trans hfinished₁
  have hleft₁ := hone c₁ _ _ _ _ _ _ hblocks₁ 40 _ _ rfl
  have hleft₂ := hone c₂ _ _ _ _ _ _ hblocks₂ 40 _ _ rfl
  exact ⟨table, _, c₁, c₂, _, _, before, after, _, hparse, henv₁, henv₂, Prod.ext hfinished₁ rfl,
    Prod.ext hfinished₂ rfl, ⟨rfl, hsame.turtle, hsame.events⟩, (hleft₁.finished hfinished₁).2.1,
    (hleft₂.finished hfinished₂).2.1, hreach, hstep, htop⟩

end LogoLang
