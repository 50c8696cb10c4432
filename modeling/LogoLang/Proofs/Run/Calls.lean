import LogoLang.Proofs.Run.Steps

set_option autoImplicit false

/-! # Calls as runs of their own

With private variables the body of a function runs as a program of its own would, whatever is open
around it: a configuration that is embedded in another run makes the same steps
(`Config.step_embed`), up to the one that leaves it. So the run of a call is that of the function's
opening (`Config.runTo_call`), and depends on the caller through the values of the arguments only
(`Stmt.effect_call_congr`). -/

namespace LogoLang

variable {p : Program}

/-! ## Runs up to a depth -/

/-- Runs for at most `fuel` steps, and only until no more than `depth` blocks are open. -/
def Config.runTo (p : Program) (depth : Nat) : Nat → Config → Ending × Config
  | 0, c => (.unfinished, c)
  | fuel + 1, c =>
    match c.step p with
    | .finished => (.finished, c)
    | .refused cause line c => (.refused cause line, c)
    | .next c => if c.blocks.length ≤ depth then (.finished, c) else c.runTo p depth fuel

variable {c c' : Config} {depth fuel : Nat} {ending : Ending}

/-- A run that is not refused comes to its last configuration. -/
theorem Config.runTo_reaches (h : c.runTo p depth fuel = (ending, c'))
    (hend : ∀ cause line, ending ≠ .refused cause line) : Config.Reaches p c c' := by
  induction fuel generalizing c with
  | zero =>
    cases h
    exact .refl
  | succ fuel ih =>
    unfold Config.runTo at h
    cases hstep : c.step p with
    | finished =>
      rw [hstep] at h
      cases h
      exact .refl
    | refused cause line last =>
      rw [hstep] at h
      cases h
      exact absurd rfl (hend cause line)
    | next mid =>
      simp only [hstep] at h
      split at h
      · cases h
        exact .single hstep
      · exact .head hstep (ih h)

/-- A run that is refused is refused by a step from a configuration that it comes to. -/
theorem Config.runTo_eq_refused {cause : Refusal} {line : Nat}
    (h : c.runTo p depth fuel = (.refused cause line, c')) :
    ∃ mid, Config.Reaches p c mid ∧ mid.step p = .refused cause line c' := by
  induction fuel generalizing c with
  | zero => exact absurd h (by simp [Config.runTo])
  | succ fuel ih =>
    unfold Config.runTo at h
    cases hstep : c.step p with
    | finished => simp [hstep] at h
    | refused cause' line' last =>
      rw [hstep] at h
      cases h
      exact ⟨c, .refl, hstep⟩
    | next mid =>
      simp only [hstep] at h
      split at h
      · exact absurd h (by simp)
      · obtain ⟨mid', hreach, hrefused⟩ := ih h
        exact ⟨mid', .head hstep hreach, hrefused⟩

/-- Only the end of all blocks stops a run for good. -/
theorem Config.blocks_of_step_finished (h : c.step p = .finished) : c.blocks = [] := by
  cases hblocks : c.blocks with
  | nil => rfl
  | cons block outer =>
    obtain ⟨stmts, caller⟩ := block
    cases stmts with
    | nil => simp [Config.step, hblocks] at h
    | cons stmt rest =>
      rw [Config.step_of_statement hblocks] at h
      split at h
      · exact absurd h (by simp)
      · next effect heffect =>
        cases effect with
        | act action =>
          simp only [Config.apply] at h
          split at h <;> exact absurd h (by simp)
        | skip | assign name value | branch body | loop body | call name f args =>
          simp [Config.apply] at h

/-- A run that finishes has come down to its depth. -/
theorem Config.length_of_runTo (h : c.runTo p depth fuel = (.finished, c')) :
    c'.blocks.length ≤ depth := by
  induction fuel generalizing c with
  | zero => exact absurd h (by simp [Config.runTo])
  | succ fuel ih =>
    unfold Config.runTo at h
    cases hstep : c.step p with
    | finished =>
      rw [hstep] at h
      cases h
      rw [Config.blocks_of_step_finished hstep]
      exact Nat.zero_le depth
    | refused cause line last => simp [hstep] at h
    | next mid =>
      simp only [hstep] at h
      split at h
      · next hle =>
        cases h
        exact hle
      · exact ih h

/-! ## Embedded configurations -/

/-- The open blocks of a body, the outermost of which puts back the variables `saved`. -/
def enclose (saved : Environment) : List Block → List Block
  | [] => []
  | block :: outer =>
    ⟨block.rest, if outer.isEmpty then some saved else block.caller⟩ :: enclose saved outer

@[simp]
theorem length_enclose (saved : Environment) (blocks : List Block) :
    (enclose saved blocks).length = blocks.length := by
  induction blocks with
  | nil => rfl
  | cons block outer ih => simp [enclose, ih]

/-- Whatever the variables inside, leaving all blocks of a body puts back those of its caller. -/
theorem foldl_enclose {blocks : List Block} (hopen : blocks ≠ []) (saved env : Environment) :
    (enclose saved blocks).foldl (fun env block => block.caller.getD env) env = saved := by
  induction blocks generalizing env with
  | nil => exact absurd rfl hopen
  | cons block outer ih =>
    rw [enclose, List.foldl_cons]
    cases outer with
    | nil => rfl
    | cons next outer => exact ih (by simp) _

/-- A configuration inside another run: its blocks are those of a body on top of the blocks `base`,
    whose variables are put back at the end, and `before` has happened before it. -/
def Config.embed (base : List Block) (saved : Environment) (before : List Event) (c : Config) :
    Config where
  blocks := enclose saved c.blocks ++ base
  env := if c.blocks.isEmpty then saved else c.env
  turtle := c.turtle
  log := c.log ++ before

/-- A step with its configuration changed. -/
def Step.map (f : Config → Config) : Step → Step
  | .finished => .finished
  | .next c => .next (f c)
  | .refused cause line c => .refused cause line (f c)

section Embedding

variable {base : List Block} {saved : Environment} {before : List Event}

theorem Config.embed_env (hopen : c.blocks ≠ []) : (c.embed base saved before).env = c.env := by
  unfold Config.embed
  rw [List.isEmpty_eq_false_iff.2 hopen]
  rfl

theorem Config.decided_embed (hopen : c.blocks ≠ []) (stmt : Stmt) :
    (c.embed base saved before).decided p stmt =
      (c.decided p stmt).embed base saved before := by
  have hnonempty : c.blocks.isEmpty = false := List.isEmpty_eq_false_iff.2 hopen
  unfold Config.decided Config.asked
  rw [Config.embed_env hopen]
  simp only [Config.embed, hnonempty, List.append_assoc, Bool.false_eq_true, if_false]

theorem Config.apply_embed (stmt : Stmt) (rest : List Stmt) (caller : Option Environment)
    (outer : List Block) (effect : Effect) (hopen : c.blocks ≠ []) :
    (c.embed base saved before).apply p stmt rest (if outer.isEmpty then some saved else caller)
        (enclose saved outer ++ base) effect =
      (c.apply p stmt rest caller outer effect).map (Config.embed base saved before) := by
  have henv : (c.embed base saved before).env = c.env := Config.embed_env hopen
  have hturtle : (c.embed base saved before).turtle = c.turtle := rfl
  cases effect with
  | skip | assign name value | branch body | loop body =>
    simp only [Config.apply, henv]
    rfl
  | act action =>
    simp only [Config.apply, henv, hturtle]
    cases c.turtle.perform action with
    | error fault => rfl
    | ok result => rfl
  | call name f args =>
    simp only [Config.apply, Config.enter, henv]
    cases p.privateVariables <;> rfl

/-- **An embedded configuration makes the steps that it makes on its own.** -/
theorem Config.step_embed (hopen : c.blocks ≠ []) :
    (c.embed base saved before).step p = (c.step p).map (Config.embed base saved before) := by
  have henv : (c.embed base saved before).env = c.env := Config.embed_env hopen
  have hturtle : (c.embed base saved before).turtle = c.turtle := rfl
  cases hblocks : c.blocks with
  | nil => exact absurd hblocks hopen
  | cons block outer =>
    obtain ⟨stmts, caller⟩ := block
    have hinner : (c.embed base saved before).blocks =
        ⟨stmts, if outer.isEmpty then some saved else caller⟩ :: (enclose saved outer ++ base) := by
      rw [Config.embed, hblocks]
      rfl
    cases stmts with
    | nil =>
      simp only [Config.step, hblocks, hinner, henv, Step.map]
      cases outer <;> rfl
    | cons stmt rest =>
      rw [Config.step_of_statement hblocks, Config.step_of_statement hinner, henv, hturtle,
        Config.decided_embed hopen]
      cases (stmt.effect p c.env c.turtle).result with
      | error cause => rfl
      | ok effect => exact Config.apply_embed stmt rest caller outer effect hopen

/-- A run inside another one is the run on its own. -/
theorem Config.runTo_embed (base : List Block) (hopen : c.blocks ≠ []) :
    (c.embed base saved before).runTo p base.length fuel =
      ((c.runTo p 0 fuel).1, (c.runTo p 0 fuel).2.embed base saved before) := by
  induction fuel generalizing c with
  | zero => rfl
  | succ fuel ih =>
    unfold Config.runTo
    rw [Config.step_embed hopen]
    cases c.step p with
    | finished => rfl
    | refused cause line last => rfl
    | next mid =>
      have hlength : (mid.embed base saved before).blocks.length =
          mid.blocks.length + base.length := by
        simp [Config.embed]
      simp only [Step.map]
      by_cases hdone : mid.blocks.length ≤ 0
      · rw [if_pos hdone, if_pos (by omega)]
      · have hinside : mid.blocks ≠ [] := by
          rintro hnil
          simp [hnil] at hdone
        rw [if_neg hdone, if_neg (by omega), ih hinside]

end Embedding

/-! ## Variables of a depth -/

/-- The variables that are in force again once no more than `depth` blocks are open. -/
def Config.envAt (depth : Nat) (c : Config) : Environment :=
  (c.blocks.take (c.blocks.length - depth)).foldl (fun env block => block.caller.getD env) c.env

theorem Config.envAt_length (c : Config) : c.envAt c.blocks.length = c.env := by
  rw [Config.envAt, Nat.sub_self, List.take_zero, List.foldl_nil]

/-- Wherever an embedded configuration is, below it are the variables that it puts back. -/
theorem Config.envAt_embed (base : List Block) (saved : Environment) (before : List Event)
    (c : Config) : (c.embed base saved before).envAt base.length = saved := by
  have hcount : (enclose saved c.blocks ++ base).length - base.length =
      (enclose saved c.blocks).length := by
    rw [List.length_append, Nat.add_sub_cancel]
  simp only [Config.envAt, Config.embed, hcount, List.take_left']
  by_cases hopen : c.blocks = []
  · simp [hopen, enclose]
  · rw [foldl_enclose hopen]

/-! ## The run of a call -/

/-- A function that is about to run its body with the given arguments. -/
def Function.opening (f : Function) (args : List Value) (t : Turtle) : Config where
  blocks := [⟨f.body, none⟩]
  env := Environment.bindAll [] f.paramNames args
  turtle := t
  log := []

section Calls

variable {table : FunctionTable} {stmt : Stmt} {rest : List Stmt} {caller : Option Environment}
  {outer : List Block} {name : Text} {f : Function} {args : List Value}

/-- **The run of a call is that of the function's opening**, inside the run of the caller. -/
theorem Config.runTo_call (fuel : Nat) (hblocks : c.blocks = ⟨stmt :: rest, caller⟩ :: outer)
    (hdoes : stmt.Does ⟨table, true⟩ c.env c.turtle (.call name f args)) :
    c.runTo ⟨table, true⟩ (outer.length + 1) (fuel + 1) =
      (((f.opening args c.turtle).runTo ⟨table, true⟩ 0 fuel).1,
        ((f.opening args c.turtle).runTo ⟨table, true⟩ 0 fuel).2.embed (⟨rest, caller⟩ :: outer)
          c.env (.entered stmt.line name args :: (c.decided ⟨table, true⟩ stmt).log)) := by
  have hstep : c.step ⟨table, true⟩ = .next ((f.opening args c.turtle).embed
      (⟨rest, caller⟩ :: outer) c.env
      (.entered stmt.line name args :: (c.decided ⟨table, true⟩ stmt).log)) := by
    rw [Config.step_of_does hblocks hdoes]
    rfl
  have hopen : (f.opening args c.turtle).blocks ≠ [] := List.cons_ne_nil _ _
  have hinside : ¬ ((f.opening args c.turtle).embed (⟨rest, caller⟩ :: outer) c.env
      (.entered stmt.line name args :: (c.decided ⟨table, true⟩ stmt).log)).blocks.length ≤
        outer.length + 1 := by
    simp [Config.embed, Function.opening]
  rw [Config.runTo, hstep]
  simp only [if_neg hinside]
  exact Config.runTo_embed (⟨rest, caller⟩ :: outer) hopen

/-- A statement that cannot be done ends the run before it changes anything. -/
theorem Config.runTo_refused (depth fuel : Nat) {cause : Refusal}
    (hblocks : c.blocks = ⟨stmt :: rest, caller⟩ :: outer)
    (hresult : (stmt.effect p c.env c.turtle).result = .error cause) :
    c.runTo p depth (fuel + 1) = (.refused cause stmt.line, c.decided p stmt) := by
  rw [Config.runTo, Config.step_of_statement hblocks, hresult]

end Calls

/-! ## What a call depends on -/

/-- The questions that an expression asks, when its evaluation comes to its end. -/
def Expr.queries : Expr → List Query
  | .query q _ => [q]
  | .binary _ left right _ => left.queries ++ right.queries
  | .truth .. | .number .. | .var .. | .malformed .. => []

section Arguments

variable {env env' : Environment} {t : Turtle}

theorem Expr.trace_of_eval_eq_ok {expr : Expr} {v : Value}
    (h : (expr.eval env t).result = .ok v) : (expr.eval env t).trace = expr.queries := by
  induction expr generalizing v with
  | truth | number | var | malformed => rfl
  | query q span => exact Expr.trace_query q span
  | binary op left right span ihleft ihright =>
    simp only [Expr.eval, Traced.bind_eq_ok_iff, Traced.result_ofExcept] at h
    obtain ⟨a, ha, _, hcheck, b, hb, happly⟩ := h
    rw [Expr.eval, Traced.trace_bind_ok ha, Traced.trace_bind_ok hcheck, Traced.trace_bind_ok hb,
      ihleft ha, ihright hb]
    exact congrArg _ (List.append_nil _)

theorem trace_of_evalAll_eq_ok {args : List Expr} {values : List Value}
    (h : (evalAll env t args).result = .ok values) :
    (evalAll env t args).trace = args.flatMap Expr.queries := by
  induction args generalizing values with
  | nil => rfl
  | cons arg rest ih =>
    simp only [evalAll, Traced.bind_eq_ok_iff] at h
    obtain ⟨v, hv, vs, hvs, _⟩ := h
    rw [evalAll, Traced.trace_bind_ok hv, Traced.trace_bind_ok hvs, Expr.trace_of_eval_eq_ok hv,
      ih hvs, List.flatMap_cons, Traced.trace_pure, List.append_nil]

/-- **A call depends on the variables through the values of its arguments only.** -/
theorem Stmt.effect_call_congr {label : Label} {args : List Expr} {line : Nat}
    {values : List Value} (h : (evalAll env t args).result = .ok values)
    (h' : (evalAll env' t args).result = .ok values) :
    (Stmt.call label args line).effect p env t = (Stmt.call label args line).effect p env' t := by
  have hsame : evalAll env t args = evalAll env' t args := by
    have htrace := (trace_of_evalAll_eq_ok h).trans (trace_of_evalAll_eq_ok h').symm
    have hresult := h.trans h'.symm
    cases hleft : evalAll env t args
    cases hright : evalAll env' t args
    rw [hleft, hright] at htrace hresult
    congr
  simp only [Stmt.effect, hsame]

end Arguments

end LogoLang
