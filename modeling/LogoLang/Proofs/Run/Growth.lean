import LogoLang.Proofs.Program.FailureLines
import LogoLang.Proofs.Program.Growth
import LogoLang.Proofs.Run.SameVariables
import LogoLang.Proofs.Run.Steps
import LogoLang.Session.Failure

set_option autoImplicit false

/-! # Runs of programs that have grown

A program that has other line numbers, other comments and its functions in another order does the same
as before. The two runs are compared step by step (`Config.Matches.step`): either both do the same, or
the second one passes a comment that the first one does not have. So whatever one of them comes to,
the other one comes to it as well (`Config.Matches.run` and `Config.Matches.run_back`). -/

namespace LogoLang

variable {σ : Nat → Nat}

/-- The second program is that of a table that has grown, and calls have variables of their own in
    both or in neither. -/
structure Program.Grows (σ : Nat → Nat) (p q : Program) : Prop where
  table : p.table.Grows σ q.table
  private_eq : q.privateVariables = p.privateVariables

/-! ## Effects -/

variable {p q : Program} {env env' : Environment} {t : Turtle}

/-- The second statement does the same on another line, with a body that has grown. -/
inductive StmtGrows (σ : Nat → Nat) : Stmt → Stmt → Prop where
  | leaf {stmt : Stmt} (hleaf : stmt.isBlock = false) : StmtGrows σ stmt (stmt.renumber σ)
  | block {kind : BlockKind} {condition : Expr} {body body' : List Stmt} {line : Nat}
      (hbody : BodyGrown σ body body') :
      StmtGrows σ (.block kind condition body line) (.block kind condition body' (σ line))

theorem StmtGrows.line {stmt stmt' : Stmt} (h : StmtGrows σ stmt stmt') :
    stmt'.line = σ stmt.line := by
  cases h with
  | leaf _ => exact Stmt.line_renumber σ stmt
  | block _ => rfl

theorem StmtGrows.cons {stmt stmt' : Stmt} {rest rest' : List Stmt}
    (h : StmtGrows σ stmt stmt') (hrest : BodyGrown σ rest rest') :
    BodyGrown σ (stmt :: rest) (stmt' :: rest') := by
  obtain ⟨texts, hrest⟩ := hrest
  cases h with
  | leaf hleaf => exact ⟨texts, .leaf hleaf hrest⟩
  | block hbody =>
    obtain ⟨inner, hbody⟩ := hbody
    exact ⟨inner ++ texts, .block hbody hrest⟩

/-- The same effect, with bodies that have grown. -/
inductive EffectGrows (σ : Nat → Nat) : Effect → Effect → Prop where
  | skip : EffectGrows σ .skip .skip
  | assign {name : Text} {value : Value} : EffectGrows σ (.assign name value) (.assign name value)
  | act {action : Action} : EffectGrows σ (.act action) (.act action)
  | branch {body body' : List Stmt} (hbody : BodyGrown σ body body') :
      EffectGrows σ (.branch body) (.branch body')
  | loop {body body' : List Stmt} (hbody : BodyGrown σ body body') :
      EffectGrows σ (.loop body) (.loop body')
  | call {name : Text} {f g : Function} {args : List Value} (hfunction : FunctionGrown σ f g) :
      EffectGrows σ (.call name f args) (.call name g args)

theorem Program.Grows.callee (h : p.Grows σ q) (name : Text) (span : Span) (args : Nat) :
    Agree (FunctionGrown σ) Eq (p.callee name span args) (q.callee name span args) := by
  rw [Program.callee, Program.callee, h.private_eq]
  obtain ⟨hnone, hnone'⟩ | ⟨f, g, hf, hg, hgrow⟩ := h.table.get? name
  · rw [hnone, hnone']
    exact .error rfl
  · rw [hf, hg]
    simp only [hgrow.paramNames]
    by_cases hmany : f.paramNames.length < args
    · rw [if_pos hmany, if_pos hmany]
      exact .error rfl
    · rw [if_neg hmany, if_neg hmany]
      by_cases hfew : p.privateVariables = true ∧ args < f.paramNames.length
      · rw [if_pos hfew, if_pos hfew]
        exact .error rfl
      · rw [if_neg hfew, if_neg hfew]
        exact .ok hgrow

/-- Statements one of which has grown from the other ask the same and have the same effect. -/
theorem StmtGrows.effect {stmt stmt' : Stmt} (h : StmtGrows σ stmt stmt')
    (hprogram : p.Grows σ q) (henv : Environment.Same env env') :
    Traced.Agrees (EffectGrows σ) Eq (stmt.effect p env t) (stmt'.effect q env' t) := by
  cases h with
  | @block kind condition body body' line hbody =>
    rw [Stmt.effect, Stmt.effect, henv.evalTruth]
    refine .bind_same (condition.evalTruth env t) fun holds => ?_
    cases holds with
    | false => exact .pure .skip
    | true =>
      cases kind with
      | branch => exact .pure (.branch hbody)
      | loop => exact .pure (.loop hbody)
  | leaf hleaf =>
    cases stmt with
    | block kind condition body line => exact absurd hleaf (by simp [Stmt.isBlock])
    | assign kind target value line =>
      cases kind with
      | make =>
        rw [Stmt.renumber, Stmt.effect, Stmt.effect, henv.eval]
        refine .bind_same (value.eval env t) fun v => ?_
        refine .bind_same (.ofExcept target.require) fun name => ?_
        exact .pure .assign
      | increase =>
        rw [Stmt.renumber, Stmt.effect, Stmt.effect]
        refine .bind_same (.ofExcept target.require) fun name => ?_
        rw [henv.readNumber, henv.evalNumber]
        refine .bind_same (.ofExcept (env.readNumber name target.span)) fun x => ?_
        refine .bind_same (value.evalNumber env t) fun y => ?_
        exact .pure .assign
    | pen down line => exact .pure .act
    | command cmd value line =>
      rw [Stmt.renumber, Stmt.effect, Stmt.effect, henv.action]
      refine .bind_same (cmd.action env t value) fun action => ?_
      exact .pure .act
    | call label args line =>
      rw [Stmt.renumber, Stmt.effect, Stmt.effect]
      refine .bind_same (.ofExcept label.require) fun name => ?_
      refine Traced.Agrees.bind ⟨rfl, hprogram.callee name label.span args.length⟩ ?_
      intro f g hgrow
      rw [henv.evalAll]
      refine .bind_same (evalAll env t args) fun values => ?_
      exact .pure (.call hgrow)
    | comment text line => exact .pure .skip

/-! ## Configurations -/

/-- An event with the number of its line changed. -/
def Event.renumber (σ : Nat → Nat) : Event → Event
  | .asked query answer => .asked query answer
  | .acted action answer => .acted action answer
  | .entered line name args => .entered (σ line) name args

/-- What is left of the second block has grown from what is left of the first one, and both put back
    the same variables, if any. -/
structure BlockMatches (σ : Nat → Nat) (block block' : Block) : Prop where
  rest : BodyGrown σ block.rest block'.rest
  caller : Option.Rel Environment.Same block.caller block'.caller

/-- Two runs are at the same point: the same variables, the same turtle and the same events, up to line
    numbers, and open blocks one of which has grown from the other. -/
structure Config.Matches (σ : Nat → Nat) (c c' : Config) : Prop where
  blocks : List.Forall₂ (BlockMatches σ) c.blocks c'.blocks
  env : Environment.Same c.env c'.env
  turtle : c'.turtle = c.turtle
  log : c'.log = c.log.map (Event.renumber σ)

/-- Two steps have the same outcome. -/
inductive StepMatches (σ : Nat → Nat) : Step → Step → Prop where
  | finished : StepMatches σ .finished .finished
  | next {c c' : Config} (h : c.Matches σ c') : StepMatches σ (.next c) (.next c')
  | refused {cause : Refusal} {line : Nat} {c c' : Config} (h : c.Matches σ c') :
      StepMatches σ (.refused cause line c) (.refused cause (σ line) c')

theorem Environment.same_getD {caller caller' : Option Environment}
    (h : Option.Rel Environment.Same caller caller') (henv : Environment.Same env env') :
    Environment.Same (caller.getD env) (caller'.getD env') := by
  cases h with
  | none => exact henv
  | some h => exact h

section Steps

variable {c c' : Config}

/-- The variables of the top level are the same as well. -/
theorem Config.Matches.topEnv (h : c.Matches σ c') : Environment.Same c.topEnv c'.topEnv := by
  have hfold : ∀ {blocks blocks' : List Block} {env env' : Environment},
      List.Forall₂ (BlockMatches σ) blocks blocks' → Environment.Same env env' →
      Environment.Same (blocks.foldl (fun env block => block.caller.getD env) env)
        (blocks'.foldl (fun env block => block.caller.getD env) env') := by
    intro blocks blocks' env env' hblocks henv
    induction hblocks generalizing env env' with
    | nil => exact henv
    | cons hblock _ ih => exact ih (Environment.same_getD hblock.caller henv)
  exact hfold h.blocks h.env

theorem Config.Matches.asked (h : c.Matches σ c') (queries : List Query) :
    (c.asked queries).Matches σ (c'.asked queries) := by
  refine ⟨h.blocks, h.env, h.turtle, ?_⟩
  rw [Config.asked, Config.asked, h.turtle, h.log, List.map_append, List.map_reverse, List.map_map]
  rfl

/-- A call opens blocks that match. -/
theorem Config.Matches.enter (h : c.Matches σ c') (hprogram : p.Grows σ q)
    {f g : Function} (hfunction : FunctionGrown σ f g) (args : List Value) :
    (c.enter p f args).Matches σ (c'.enter q g args) := by
  rw [Config.enter, Config.enter, hprogram.private_eq, hfunction.paramNames]
  by_cases hprivate : p.privateVariables = true
  · rw [if_pos hprivate, if_pos hprivate]
    exact ⟨.cons ⟨hfunction.body, .some h.env⟩ h.blocks, .refl _, h.turtle, h.log⟩
  · rw [if_neg hprivate, if_neg hprivate]
    exact ⟨.cons ⟨hfunction.body, .none⟩ h.blocks, (h.env.declareAll _).setAll _, h.turtle, h.log⟩

/-- Statements that do the same lead to the same. -/
theorem Config.Matches.apply (h : c.Matches σ c') (hprogram : p.Grows σ q)
    {stmt stmt' : Stmt} (hstmt : StmtGrows σ stmt stmt') {rest rest' : List Stmt}
    {caller caller' : Option Environment}
    (hblock : BlockMatches σ ⟨rest, caller⟩ ⟨rest', caller'⟩) {outer outer' : List Block}
    (houter : List.Forall₂ (BlockMatches σ) outer outer') {effect effect' : Effect}
    (heffect : EffectGrows σ effect effect') :
    StepMatches σ (c.apply p stmt rest caller outer effect)
      (c'.apply q stmt' rest' caller' outer' effect') := by
  cases heffect with
  | skip => exact .next ⟨.cons hblock houter, h.env, h.turtle, h.log⟩
  | assign => exact .next ⟨.cons hblock houter, h.env.set _ _, h.turtle, h.log⟩
  | @act action =>
    simp only [Config.apply, h.turtle, hstmt.line]
    cases c.turtle.perform action with
    | error fault => exact .refused h
    | ok result => exact .next ⟨.cons hblock houter, h.env, rfl, by simp [h.log, Event.renumber]⟩
  | branch hbody =>
    exact .next ⟨.cons ⟨hbody, .none⟩ (.cons hblock houter), h.env, h.turtle, h.log⟩
  | loop hbody =>
    -- the loop itself stays open below its body
    have hagain : BlockMatches σ ⟨stmt :: rest, caller⟩ ⟨stmt' :: rest', caller'⟩ :=
      ⟨hstmt.cons hblock.rest, hblock.caller⟩
    exact .next ⟨.cons ⟨hbody, .none⟩ (.cons hagain houter), h.env, h.turtle, h.log⟩
  | @call name f g args hfunction =>
    rw [Config.apply, Config.apply, hstmt.line]
    have hcalled : Config.Matches σ
        { c with blocks := ⟨rest, caller⟩ :: outer, log := .entered stmt.line name args :: c.log }
        { c' with
          blocks := ⟨rest', caller'⟩ :: outer', log := .entered (σ stmt.line) name args :: c'.log } :=
      ⟨.cons hblock houter, h.env, h.turtle, by simp [h.log, Event.renumber]⟩
    exact .next (hcalled.enter hprogram hfunction args)

/-- The next statement of both runs does the same. -/
theorem Config.Matches.statement (h : c.Matches σ c') (hprogram : p.Grows σ q)
    {stmt stmt' : Stmt} (hstmt : StmtGrows σ stmt stmt') {rest rest' : List Stmt}
    {caller caller' : Option Environment} {outer outer' : List Block}
    (hblocks : c.blocks = ⟨stmt :: rest, caller⟩ :: outer)
    (hblocks' : c'.blocks = ⟨stmt' :: rest', caller'⟩ :: outer')
    (hblock : BlockMatches σ ⟨rest, caller⟩ ⟨rest', caller'⟩)
    (houter : List.Forall₂ (BlockMatches σ) outer outer') :
    StepMatches σ (c.step p) (c'.step q) := by
  obtain ⟨htrace, hresult⟩ := hstmt.effect (t := c.turtle) hprogram h.env
  rw [Config.step_of_statement hblocks, Config.step_of_statement hblocks', h.turtle]
  have hdecided : (c.decided p stmt).Matches σ (c'.decided q stmt') := by
    rw [Config.decided, Config.decided, h.turtle, htrace]
    exact h.asked _
  cases hleft : (stmt.effect p c.env c.turtle).result with
  | error cause =>
    rw [hleft] at hresult
    obtain ⟨cause', hright, rfl⟩ := hresult.exists_error
    simp only [hright, hstmt.line]
    exact .refused hdecided
  | ok effect =>
    rw [hleft] at hresult
    obtain ⟨effect', hright, heffect⟩ := hresult.exists_ok
    simp only [hright]
    exact hdecided.apply hprogram hstmt hblock houter heffect

/-- The statements that are left of the innermost block. -/
def Config.left (c : Config) : Nat := (c.blocks.head?.map fun block => block.rest.length).getD 0

/-- **One step of two runs at the same point**: the second run passes a comment that the first one does
    not have, or both do the same. -/
theorem Config.Matches.step (h : c.Matches σ c') (hprogram : p.Grows σ q) :
    (∃ c₁', c'.step q = .next c₁' ∧ c.Matches σ c₁' ∧ c₁'.left < c'.left) ∨
      StepMatches σ (c.step p) (c'.step q) := by
  have hall := h.blocks
  cases hblocks : c.blocks with
  | nil =>
    rw [hblocks, List.forall₂_nil_left_iff] at hall
    refine Or.inr ?_
    rw [Config.step, Config.step, hblocks, hall]
    exact .finished
  | cons block outer =>
    rw [hblocks, List.forall₂_cons_left_iff] at hall
    obtain ⟨block', outer', hblock, houter, hblocks'⟩ := hall
    obtain ⟨stmts, caller⟩ := block
    obtain ⟨stmts', caller'⟩ := block'
    obtain ⟨⟨texts, hrest⟩, hcaller⟩ := hblock
    cases hrest with
    | nil =>
      refine Or.inr ?_
      rw [Config.step, Config.step, hblocks, hblocks']
      exact .next ⟨houter, Environment.same_getD hcaller h.env, h.turtle, h.log⟩
    | leaf hleaf hrest =>
      exact Or.inr (h.statement hprogram (.leaf hleaf) hblocks hblocks' ⟨⟨_, hrest⟩, hcaller⟩ houter)
    | block hbody hrest =>
      exact Or.inr (h.statement hprogram (.block ⟨_, hbody⟩) hblocks hblocks' ⟨⟨_, hrest⟩, hcaller⟩
        houter)
    | @comment _ text line _ rest' hrest =>
      refine Or.inl ⟨{ c' with blocks := ⟨rest', caller'⟩ :: outer' }, ?_, ?_, ?_⟩
      · rw [Config.step_of_does hblocks' .comment]
        rfl
      · refine ⟨?_, h.env, h.turtle, h.log⟩
        rw [hblocks]
        exact .cons ⟨⟨_, hrest⟩, hcaller⟩ houter
      · simp [Config.left, hblocks']

end Steps

/-! ## Runs -/

/-- The end of a run with the number of its line changed. -/
def Ending.renumber (σ : Nat → Nat) : Ending → Ending
  | .finished => .finished
  | .refused cause line => .refused cause (σ line)
  | .nestedTooDeeply => .nestedTooDeeply
  | .unfinished => .unfinished

/-- Two runs come to the same point and end there in the same way. -/
structure OutcomeMatches (σ : Nat → Nat) (r r' : Ending × Config) : Prop where
  ending : r'.1 = r.1.renumber σ
  config : r.2.Matches σ r'.2

section Runs

variable {c c' : Config}

theorem Config.Matches.length_eq (h : c.Matches σ c') : c'.blocks.length = c.blocks.length :=
  h.blocks.length_eq.symm

/-- A step that does not open too many blocks is a round of its own. -/
theorem Config.run_of_step {c₁ : Config} (hstep : c.step p = .next c₁)
    (hlimit : c₁.blocks.length ≤ nestingLimit) (fuel : Nat) : c.run p (fuel + 1) = c₁.run p fuel := by
  rw [Config.run, hstep]
  exact if_neg (Nat.not_lt.2 hlimit)

/-- After a step that is the same in both runs, both have ended or both go on. -/
theorem Config.Matches.round (h : c.Matches σ c')
    (hstep : StepMatches σ (c.step p) (c'.step q)) :
    (∀ fuel fuel', OutcomeMatches σ (c.run p (fuel + 1)) (c'.run q (fuel' + 1))) ∨
      ∃ c₁ c₁' : Config, c₁.Matches σ c₁' ∧ c₁.blocks.length ≤ nestingLimit ∧
        (∀ fuel, c.run p (fuel + 1) = c₁.run p fuel) ∧
        ∀ fuel, c'.run q (fuel + 1) = c₁'.run q fuel := by
  cases hleft : c.step p with
  | finished =>
    rw [hleft] at hstep
    generalize hright : c'.step q = step' at hstep
    cases hstep with
    | finished =>
      refine Or.inl fun fuel fuel' => ?_
      rw [Config.run, Config.run, hleft, hright]
      exact ⟨rfl, h⟩
  | refused cause line c₁ =>
    rw [hleft] at hstep
    generalize hright : c'.step q = step' at hstep
    cases hstep with
    | refused hnext =>
      refine Or.inl fun fuel fuel' => ?_
      rw [Config.run, Config.run, hleft, hright]
      exact ⟨rfl, hnext⟩
  | next c₁ =>
    rw [hleft] at hstep
    generalize hright : c'.step q = step' at hstep
    cases hstep with
    | @next _ c₁' hnext =>
      by_cases hdeep : nestingLimit < c₁.blocks.length
      · refine Or.inl fun fuel fuel' => ?_
        rw [Config.run, Config.run, hleft, hright]
        simp only [hnext.length_eq, if_pos hdeep]
        exact ⟨rfl, hnext⟩
      · have hlimit := Nat.not_lt.1 hdeep
        exact Or.inr ⟨c₁, c₁', hnext, hlimit, Config.run_of_step hleft hlimit,
          Config.run_of_step hright (hnext.length_eq ▸ hlimit)⟩

/-- **The second program does what the first one does.** -/
theorem Config.Matches.run (hprogram : p.Grows σ q) (h : c.Matches σ c')
    (hlimit : c.blocks.length ≤ nestingLimit) (fuel : Nat) :
    ∃ fuel', OutcomeMatches σ (c.run p fuel) (c'.run q fuel') := by
  induction fuel generalizing c c' with
  | zero => exact ⟨0, rfl, h⟩
  | succ fuel ih =>
    -- the second run passes its comments first, of which only so many are left
    induction hleft : c'.left using Nat.strong_induction_on generalizing c' with
    | _ left ihLeft =>
      obtain ⟨c₁', hstep, hmatch, hless⟩ | hsame := h.step hprogram
      · obtain ⟨fuel', hrun⟩ := ihLeft c₁'.left (hleft ▸ hless) hmatch rfl
        refine ⟨fuel' + 1, ?_⟩
        rw [Config.run_of_step hstep (hmatch.length_eq ▸ hlimit)]
        exact hrun
      · obtain hends | ⟨c₁, c₁', hmatch, hlimit₁, hrun, hrun'⟩ := h.round hsame
        · exact ⟨1, hends fuel 0⟩
        · obtain ⟨fuel', hrest⟩ := ih hmatch hlimit₁
          refine ⟨fuel' + 1, ?_⟩
          rw [hrun, hrun']
          exact hrest

/-- **The first program does what the second one does.** -/
theorem Config.Matches.run_back (hprogram : p.Grows σ q) (h : c.Matches σ c')
    (hlimit : c.blocks.length ≤ nestingLimit) (fuel' : Nat) :
    ∃ fuel, OutcomeMatches σ (c.run p fuel) (c'.run q fuel') := by
  induction fuel' generalizing c c' with
  | zero => exact ⟨0, rfl, h⟩
  | succ fuel' ih =>
    obtain ⟨c₁', hstep, hmatch, _⟩ | hsame := h.step hprogram
    · obtain ⟨fuel, hrun⟩ := ih hmatch hlimit
      refine ⟨fuel, ?_⟩
      rw [Config.run_of_step hstep (hmatch.length_eq ▸ hlimit)]
      exact hrun
    · obtain hends | ⟨c₁, c₁', hmatch, hlimit₁, hrun, hrun'⟩ := h.round hsame
      · exact ⟨1, hends 0 fuel'⟩
      · obtain ⟨fuel, hrest⟩ := ih hmatch hlimit₁
        refine ⟨fuel + 1, ?_⟩
        rw [hrun, hrun']
        exact hrest

/-- Both programs start at the same point. -/
theorem Program.Grows.start (h : p.Grows σ q) (t : Turtle) :
    (Config.start p t).Matches σ (Config.start q t) := by
  have hbody : BodyGrown σ (p.table.mainBody?.getD []) (q.table.mainBody?.getD []) := by
    rw [FunctionTable.mainBody?, FunctionTable.mainBody?]
    obtain ⟨hnone, hnone'⟩ | ⟨f, g, hf, hg, hgrow⟩ := h.table.get? mainName
    · rw [hnone, hnone']
      exact ⟨[], .nil⟩
    · rw [hf, hg]
      exact hgrow.body
  exact ⟨.cons ⟨hbody, .none⟩ .nil, Environment.same_declareAll [] h.table.mem_allParams, rfl, rfl⟩

theorem Config.length_start (p : Program) (t : Turtle) :
    (Config.start p t).blocks.length ≤ nestingLimit := by
  show 1 ≤ nestingLimit
  decide

end Runs

/-! ## Outcomes of whole programs -/

/-- A failure with the number of its line changed. -/
def Failure.renumber (σ : Nat → Nat) : Failure → Failure
  | .diagnostic d => .diagnostic (d.renumber σ)
  | failure => failure

/-- Two runs have the same outcome: they end properly or with the same failure, after the same events,
    with the same turtle and the same variables, those of the top level included. Only the numbers of
    the lines differ. -/
structure SameOutcome (σ : Nat → Nat) (lines lines' : List Text) (r r' : Ending × Config) : Prop where
  failure : r'.1.failure? lines' = (r.1.failure? lines).map (Failure.renumber σ)
  events : r'.2.events = r.2.events.map (Event.renumber σ)
  turtle : r'.2.turtle = r.2.turtle
  env : Environment.Same r.2.env r'.2.env
  topEnv : Environment.Same r.2.topEnv r'.2.topEnv

/-- Runs up to any point of the first program have runs of the second program with the same outcome,
    and the other way round. -/
structure SameRuns (σ : Nat → Nat) (lines lines' : List Text) (p q : Program) (t : Turtle) : Prop where
  there : ∀ fuel, ∃ fuel', SameOutcome σ lines lines' ((Config.start p t).run p fuel)
    ((Config.start q t).run q fuel')
  back : ∀ fuel', ∃ fuel, SameOutcome σ lines lines' ((Config.start p t).run p fuel)
    ((Config.start q t).run q fuel')

section Outcomes

variable {lines lines' : List Text}

/-- A flaw is shown with the same line, under its new number. -/
theorem renumber_flawDiagnostic (hlines : ∀ index, lines'[σ index]? = lines[index]?) (stage : Stage)
    (flaw : Flaw) (line : Nat) :
    flawDiagnostic stage lines' flaw (σ line) = (flawDiagnostic stage lines flaw line).renumber σ := by
  rw [flawDiagnostic, flawDiagnostic, Diagnostic.renumber_at, List.getD_eq_getElem?_getD,
    List.getD_eq_getElem?_getD, hlines]

theorem Ending.failure?_renumber (hlines : ∀ index, lines'[σ index]? = lines[index]?)
    (ending : Ending) :
    (ending.renumber σ).failure? lines' = (ending.failure? lines).map (Failure.renumber σ) := by
  cases ending with
  | finished | nestedTooDeeply | unfinished => rfl
  | refused cause line =>
    cases cause with
    | flaw flaw =>
      rw [Ending.renumber, Ending.failure?, Ending.failure?, renumber_flawDiagnostic hlines]
      rfl
    | turtle fault => cases fault <;> rfl
    | malformed => rfl

theorem OutcomeMatches.sameOutcome {r r' : Ending × Config} (h : OutcomeMatches σ r r')
    (hlines : ∀ index, lines'[σ index]? = lines[index]?) : SameOutcome σ lines lines' r r' where
  failure := by rw [h.ending, Ending.failure?_renumber hlines]
  events := by rw [Config.events, Config.events, h.config.log, List.map_reverse]
  turtle := h.config.turtle
  env := h.config.env
  topEnv := h.config.topEnv

/-- **Programs one of which has grown from the other have the same runs.** -/
theorem Program.Grows.sameRuns (h : p.Grows σ q)
    (hlines : ∀ index, lines'[σ index]? = lines[index]?) (t : Turtle) :
    SameRuns σ lines lines' p q t where
  there fuel := by
    obtain ⟨fuel', hrun⟩ := (h.start t).run h (Config.length_start p t) fuel
    exact ⟨fuel', hrun.sameOutcome hlines⟩
  back fuel' := by
    obtain ⟨fuel, hrun⟩ := (h.start t).run_back h (Config.length_start p t) fuel'
    exact ⟨fuel, hrun.sameOutcome hlines⟩

end Outcomes

end LogoLang
