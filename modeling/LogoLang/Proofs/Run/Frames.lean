import LogoLang.Proofs.Run.Reading
import LogoLang.Proofs.Run.Steps

set_option autoImplicit false

/-! # The variables of calls

A call with variables of its own starts with its parameters, all of which have a value, and no
statement takes a value away. So only a variable of the top level can be without a value
(`Config.Reaches.bound_of_mem_frames`), and it is seen only while no call is open, which is when a run
is at the statements of the top level (`Config.Reaches.mem_mainBody`). -/

namespace LogoLang

/-! ## Bound variables -/

/-- Every name that is there has a value. -/
def Environment.Bound (env : Environment) : Prop := ∀ name, Bindings.get? env name ≠ some none

theorem Environment.Bound.bind {env : Environment} (h : env.Bound) (name : Text) (value : Value) :
    (env.bind name value).Bound := by
  intro other
  unfold Environment.bind
  by_cases heq : name = other
  · rw [heq, Bindings.get?_set_self]
    simp
  · rw [Bindings.get?_set_of_ne _ _ heq]
    exact h other

/-- The variables that a call starts with are bound. -/
theorem Environment.bound_bindAll (names : List Text) (values : List Value) :
    (Environment.bindAll [] names values).Bound := by
  intro name hnone
  rcases Bindings.mem_of_get?_setAll hnone with hmem | hget
  · obtain ⟨v, _, hv⟩ := List.mem_map.1 (List.of_mem_zip hmem).2
    exact absurd hv (by simp)
  · exact absurd hget (by simp [Bindings.get?])

/-! ## Frames -/

/-- The variables that are in force and those that the open calls put back, the innermost first. The
    last ones are those of the top level. -/
def Config.frames (c : Config) : List Environment := c.env :: c.blocks.filterMap Block.caller

/-- Of the variables in force and those that are put back, all but the last ones are bound. -/
def FramesBound : List Block → Environment → Prop
  | [], _ => True
  | ⟨_, none⟩ :: outer, env => FramesBound outer env
  | ⟨_, some saved⟩ :: outer, env => env.Bound ∧ FramesBound outer saved

theorem FramesBound.bind {blocks : List Block} {env : Environment} (h : FramesBound blocks env)
    (name : Text) (value : Value) : FramesBound blocks (env.bind name value) := by
  induction blocks with
  | nil => trivial
  | cons block outer ih =>
    obtain ⟨stmts, caller⟩ := block
    cases caller with
    | none => exact ih h
    | some saved => exact ⟨h.1.bind name value, h.2⟩

theorem FramesBound.bound_of_mem {blocks : List Block} {env : Environment}
    (h : FramesBound blocks env) :
    ∀ frame ∈ (env :: blocks.filterMap Block.caller).dropLast, frame.Bound := by
  induction blocks generalizing env with
  | nil => simp
  | cons block outer ih =>
    obtain ⟨stmts, caller⟩ := block
    cases caller with
    | none => exact ih h
    | some saved =>
      show ∀ frame ∈ (env :: saved :: outer.filterMap Block.caller).dropLast, frame.Bound
      rw [List.dropLast_cons_cons, List.forall_mem_cons]
      exact ⟨h.1, ih h.2⟩

/-- While some variable has no value, no call is open. -/
theorem FramesBound.caller_eq_none {blocks : List Block} {env : Environment}
    (h : FramesBound blocks env) (henv : ¬ env.Bound) : ∀ block ∈ blocks, block.caller = none := by
  induction blocks with
  | nil => simp
  | cons block outer ih =>
    obtain ⟨stmts, caller⟩ := block
    cases caller with
    | none => exact List.forall_mem_cons.2 ⟨rfl, ih h⟩
    | some saved => exact absurd h.1 henv

/-- What is left of a block has no part in it. -/
theorem FramesBound.rest {stmts rest : List Stmt} {caller : Option Environment}
    {outer : List Block} {env : Environment} (h : FramesBound (⟨stmts, caller⟩ :: outer) env) :
    FramesBound (⟨rest, caller⟩ :: outer) env := by
  cases caller with
  | none => exact h
  | some saved => exact h

section Runs

variable {table : FunctionTable} {c c' : Config}

theorem FramesBound.moves (h : FramesBound c.blocks c.env)
    (hmove : Config.Moves ⟨table, true⟩ c c') : FramesBound c'.blocks c'.env := by
  cases hmove with
  | @leave caller outer hblocks =>
    rw [hblocks] at h
    cases caller with
    | none => exact h
    | some saved => exact h.2
  | skip hblocks hdoes | act hblocks hdoes hperform =>
    rw [hblocks] at h
    exact h.rest
  | assign hblocks hdoes =>
    rw [hblocks] at h
    exact h.rest.bind _ _
  | branch hblocks hdoes | loop hblocks hdoes =>
    rw [hblocks] at h
    exact h.rest
  | call hblocks hdoes =>
    rw [hblocks] at h
    exact ⟨Environment.bound_bindAll _ _, h.rest⟩

theorem Config.Reaches.framesBound {t : Turtle}
    (h : Config.Reaches ⟨table, true⟩ (Config.start ⟨table, true⟩ t) c) :
    FramesBound c.blocks c.env :=
  h.invariant (motive := fun c => FramesBound c.blocks c.env) trivial
    fun _ _ hc hmove => hc.moves hmove

/-- **In every frame that a run creates each name is bound.** -/
theorem Config.Reaches.bound_of_mem_frames {t : Turtle}
    (h : Config.Reaches ⟨table, true⟩ (Config.start ⟨table, true⟩ t) c) :
    ∀ frame ∈ c.frames.dropLast, frame.Bound :=
  h.framesBound.bound_of_mem

/-! ## The top level -/

/-- A block holds statements of the top level only, if neither it nor a block around it is that of a
    call. -/
def TopOnly (main : List Stmt) : List Block → Prop
  | [] => True
  | block :: outer =>
    ((∀ b ∈ block :: outer, b.caller = none) → ∀ stmt ∈ allStmts block.rest, stmt ∈ allStmts main) ∧
      TopOnly main outer

variable {main : List Stmt}

theorem TopOnly.replace {stmts rest : List Stmt} {caller : Option Environment} {outer : List Block}
    (h : TopOnly main (⟨stmts, caller⟩ :: outer)) (hsub : ∀ s ∈ allStmts rest, s ∈ allStmts stmts) :
    TopOnly main (⟨rest, caller⟩ :: outer) := by
  refine ⟨fun htop s hs => h.1 ?_ s (hsub s hs), h.2⟩
  rw [List.forall_mem_cons] at htop ⊢
  exact htop

theorem TopOnly.rest {stmt : Stmt} {rest : List Stmt} {caller : Option Environment}
    {outer : List Block} (h : TopOnly main (⟨stmt :: rest, caller⟩ :: outer)) :
    TopOnly main (⟨rest, caller⟩ :: outer) :=
  h.replace fun _ hs => List.mem_append_right _ hs

/-- The body of a statement of the top level is of the top level. -/
theorem TopOnly.enter {stmt : Stmt} {rest again body : List Stmt} {caller : Option Environment}
    {outer : List Block} (h : TopOnly main (⟨stmt :: rest, caller⟩ :: outer))
    (hafter : TopOnly main (⟨again, caller⟩ :: outer))
    (hbody : ∀ s ∈ allStmts body, s ∈ stmt.all) :
    TopOnly main (⟨body, none⟩ :: ⟨again, caller⟩ :: outer) := by
  refine ⟨fun htop s hs => ?_, hafter⟩
  have htop' := (List.forall_mem_cons.1 htop).2
  refine h.1 ?_ s (List.mem_append_left _ (hbody s hs))
  rw [List.forall_mem_cons] at htop' ⊢
  exact htop'

theorem TopOnly.moves (h : TopOnly main c.blocks) (hmove : Config.Moves ⟨table, true⟩ c c') :
    TopOnly main c'.blocks := by
  cases hmove with
  | leave hblocks =>
    rw [hblocks] at h
    exact h.2
  | skip hblocks hdoes | assign hblocks hdoes | act hblocks hdoes hperform =>
    rw [hblocks] at h
    exact h.rest
  | branch hblocks hdoes =>
    rw [hblocks] at h
    cases hdoes
    exact h.enter h.rest fun _ hs => List.mem_cons_of_mem _ hs
  | loop hblocks hdoes =>
    rw [hblocks] at h
    cases hdoes
    exact h.enter h fun _ hs => List.mem_cons_of_mem _ hs
  | call hblocks hdoes =>
    rw [hblocks] at h
    refine ⟨fun htop => ?_, h.rest⟩
    -- the block of the call is not of the top level
    exact absurd (htop _ List.mem_cons_self) (by simp)

/-- While no call is open, a run is at the statements of the top level. -/
theorem Config.Reaches.mem_mainBody {t : Turtle} {stmt : Stmt} {rest : List Stmt}
    {caller : Option Environment} {outer : List Block}
    (h : Config.Reaches ⟨table, true⟩ (Config.start ⟨table, true⟩ t) c)
    (hblocks : c.blocks = ⟨stmt :: rest, caller⟩ :: outer)
    (htop : ∀ block ∈ c.blocks, block.caller = none) :
    stmt ∈ allStmts (table.mainBody?.getD []) := by
  have honly : TopOnly (table.mainBody?.getD []) c.blocks :=
    h.invariant (motive := fun c => TopOnly (table.mainBody?.getD []) c.blocks)
      ⟨fun _ _ hs => hs, trivial⟩ fun _ _ hc hmove => hc.moves hmove
  rw [hblocks] at honly htop
  exact honly.1 htop stmt (List.mem_append_left _ stmt.self_mem_all)

end Runs

end LogoLang
