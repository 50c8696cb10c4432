import LogoLang.Proofs.Program.Provenance
import LogoLang.Proofs.Run.Calls
import LogoLang.Proofs.Run.Frames
import LogoLang.Proofs.Syntax.Literals

set_option autoImplicit false

/-! # Numbers of single precision

Literals, the results of arithmetic, coordinates and colors are numbers of single precision. A heading
is an integer of any size, and is made a double without being rounded to single precision. So the
numbers of a run are of single precision apart from the headings that it has read, and those are
exactly what can keep them from it (`numbers_single_iff`). -/

namespace LogoLang

/-! ## Numbers among values and variables -/

section Variables

variable {P Q : Float → Prop} {env : Environment}

/-- The value has the property, if it is a number. -/
def Value.Numbers (P : Float → Prop) : Value → Prop
  | .number x => P x
  | .truth _ => True

theorem Value.Numbers.mono {v : Value} (h : v.Numbers P) (hsub : ∀ x, P x → Q x) : v.Numbers Q := by
  cases v with
  | number x => exact hsub x h
  | truth b => trivial

/-- All numbers that are bound to a name have the property. -/
def Environment.Numbers (P : Float → Prop) (env : Environment) : Prop :=
  ∀ name v, Bindings.get? env name = some (some v) → v.Numbers P

theorem Environment.Numbers.mono (h : env.Numbers P) (hsub : ∀ x, P x → Q x) : env.Numbers Q :=
  fun name v hget => (h name v hget).mono hsub

theorem Environment.numbers_nil (P : Float → Prop) : Environment.Numbers P [] :=
  fun _ _ hget => absurd hget (by simp [Bindings.get?])

theorem Environment.Numbers.bind (h : env.Numbers P) {v : Value} (hv : v.Numbers P) (name : Text) :
    (env.bind name v).Numbers P := by
  intro other w hget
  unfold Environment.bind at hget
  by_cases heq : name = other
  · rw [heq, Bindings.get?_set_self] at hget
    cases hget
    exact hv
  · rw [Bindings.get?_set_of_ne _ _ heq] at hget
    exact h other w hget

theorem Environment.Numbers.declare (h : env.Numbers P) (name : Text) :
    (env.declare name).Numbers P := by
  intro other w hget
  unfold Environment.declare at hget
  split at hget
  · exact h other w hget
  · by_cases heq : name = other
    · rw [heq, Bindings.get?_set_self] at hget
      exact absurd hget (by simp)
    · rw [Bindings.get?_set_of_ne _ _ heq] at hget
      exact h other w hget

theorem Environment.Numbers.declareAll (h : env.Numbers P) (names : List Text) :
    (env.declareAll names).Numbers P := by
  induction names generalizing env with
  | nil => exact h
  | cons name rest ih => exact ih (h.declare name)

theorem Environment.Numbers.bindAll (h : env.Numbers P) {values : List Value}
    (hvalues : ∀ v ∈ values, v.Numbers P) (names : List Text) : (env.bindAll names values).Numbers P := by
  intro name v hget
  rcases Bindings.mem_of_get?_setAll hget with hmem | hget
  · obtain ⟨w, hw, heq⟩ := List.mem_map.1 (List.of_mem_zip hmem).2
    cases heq
    exact hvalues v hw
  · exact h name v hget

end Variables

/-! ## Evaluation -/

section Evaluation

variable {p : Program} {P : Float → Prop} {env : Environment} {t : Turtle}

/-- Operators have numbers of single precision as results, or truth values. -/
theorem BinaryOp.numbers_of_apply {op : BinaryOp} {left right span : Span} {a b v : Value}
    (h : op.apply left right span a b = .ok v) : v.Numbers IsSingle := by
  rw [BinaryOp.apply] at h
  split at h
  · simp only [Except.bind_eq_ok_iff] at h
    obtain ⟨x, _, y, _, z, hz, hv⟩ := h
    cases hv
    rw [BinaryOp.arithmetic] at hz
    split at hz
    · exact absurd hz (by simp)
    · cases hz
      exact isSingle_single _
  · split at h
    · cases h
      trivial
    · exact absurd h (by simp)
  · simp only [Except.bind_eq_ok_iff] at h
    obtain ⟨x, _, y, _, hv⟩ := h
    cases hv
    trivial
  · simp only [Except.bind_eq_ok_iff] at h
    obtain ⟨x, _, y, _, hv⟩ := h
    cases hv
    trivial

/-- Of the turtle's answers only the heading need not be of single precision. -/
theorem Turtle.numbers_of_measure {q : Query} {x : Float} (h : t.measure q = .ok x) :
    IsSingle x ∨ q = .heading ∧ doubleOfInt? t.direction = some x := by
  cases q with
  | x | y =>
    cases h
    exact Or.inl (isSingle_single _)
  | color =>
    cases h
    exact Or.inl (isSingle_color t.color)
  | heading =>
    refine Or.inr ⟨rfl, ?_⟩
    rw [Turtle.measure] at h
    split at h
    · next hx =>
      cases h
      exact hx
    · exact absurd h (by simp)

/-- **The value of a part of an expression has a property that numbers of single precision have**, if the
    variables and a heading that stands in the expression have it. -/
theorem Expr.numbers_of_eval {expr node : Expr} {v : Value} (hP : ∀ x, IsSingle x → P x)
    (henv : env.Numbers P) (hliterals : expr.LiteralsSingle)
    (hheading : ∀ span x, .query .heading span ∈ expr.nodes →
      doubleOfInt? t.direction = some x → P x)
    (hnode : node ∈ expr.nodes) (h : (node.eval env t).result = .ok v) : v.Numbers P := by
  cases node with
  | truth value span =>
    cases h
    trivial
  | number x span =>
    cases h
    exact hP x (hliterals x span hnode)
  | var name span => exact henv name v (Environment.read_eq_ok_iff.1 h)
  | malformed flaw => exact absurd h (by simp [Expr.eval])
  | query q span =>
    simp only [Expr.eval, Traced.bind_eq_ok_iff, Traced.result_ofExcept] at h
    obtain ⟨_, _, x, hx, hv⟩ := h
    cases hv
    rcases Turtle.numbers_of_measure hx with hsingle | ⟨rfl, hdouble⟩
    · exact hP x hsingle
    · exact hheading span x hnode hdouble
  | binary op left right span =>
    simp only [Expr.eval, Traced.bind_eq_ok_iff, Traced.result_ofExcept] at h
    obtain ⟨a, _, _, _, b, _, hv⟩ := h
    exact (BinaryOp.numbers_of_apply hv).mono hP

/-- The next statement has the heading among its expressions, which is the double `x`. -/
def Config.ReadsHeading (c : Config) (x : Float) : Prop :=
  ∃ stmt rest caller outer, c.blocks = ⟨stmt :: rest, caller⟩ :: outer ∧
    (∃ expr ∈ stmt.exprs, ∃ span, .query .heading span ∈ expr.nodes) ∧
    doubleOfInt? c.turtle.direction = some x

variable {c c' : Config} {stmt : Stmt} {rest : List Stmt} {caller : Option Environment}
  {outer : List Block}

/-- The parts of the next statement's expressions have values with the property. -/
theorem Config.numbers_of_eval {expr node : Expr} {v : Value} (hP : ∀ x, IsSingle x → P x)
    (henv : c.env.Numbers P) (hheading : ∀ x, c.ReadsHeading x → P x)
    (hblocks : c.blocks = ⟨stmt :: rest, caller⟩ :: outer) (hliterals : stmt.LiteralsSingle)
    (hexpr : expr ∈ stmt.exprs) (hnode : node ∈ expr.nodes)
    (h : (node.eval c.env c.turtle).result = .ok v) : v.Numbers P :=
  Expr.numbers_of_eval hP henv (hliterals expr hexpr)
    (fun span x hmem hx =>
      hheading x ⟨stmt, rest, caller, outer, hblocks, ⟨expr, hexpr, span, hmem⟩, hx⟩) hnode h

theorem forall_values_of_evalAll {motive : Value → Prop} {args : List Expr} {values : List Value}
    (hargs : ∀ arg ∈ args, ∀ v, (arg.eval env t).result = .ok v → motive v)
    (h : (evalAll env t args).result = .ok values) : ∀ v ∈ values, motive v := by
  induction args generalizing values with
  | nil =>
    cases h
    simp
  | cons arg rest ih =>
    simp only [evalAll, Traced.bind_eq_ok_iff] at h
    obtain ⟨v, hv, vs, hvs, h⟩ := h
    cases h
    obtain ⟨harg, hrest⟩ := List.forall_mem_cons.1 hargs
    exact List.forall_mem_cons.2 ⟨harg v hv, ih hrest hvs⟩

/-! ## Steps -/

/-- **A step keeps a property of the numbers** that numbers of single precision have, if the heading
    that the next statement may read has it. -/
theorem Config.Moves.numbers (hmove : Config.Moves p c c') (hP : ∀ x, IsSingle x → P x)
    (hliterals : ∀ stmt rest caller outer, c.blocks = ⟨stmt :: rest, caller⟩ :: outer →
      stmt.LiteralsSingle)
    (hheading : ∀ x, c.ReadsHeading x → P x) (h : ∀ frame ∈ c.frames, frame.Numbers P) :
    ∀ frame ∈ c'.frames, frame.Numbers P := by
  obtain ⟨henv, hsaved⟩ := List.forall_mem_cons.1 h
  cases hmove with
  | @leave caller outer hblocks =>
    rw [hblocks] at hsaved
    cases caller with
    | none => exact List.forall_mem_cons.2 ⟨henv, hsaved⟩
    | some saved => exact hsaved
  | skip hblocks hdoes | act hblocks hdoes hperform | branch hblocks hdoes | loop hblocks hdoes =>
    rw [hblocks] at hsaved
    exact List.forall_mem_cons.2 ⟨henv, hsaved⟩
  | assign hblocks hdoes =>
    refine List.forall_mem_cons.2 ⟨henv.bind ?_ _, by rwa [hblocks] at hsaved⟩
    cases hdoes with
    | make hvalue =>
      exact Config.numbers_of_eval hP henv hheading hblocks (hliterals _ _ _ _ hblocks)
        (List.mem_singleton_self _) (Expr.self_mem_nodes _) hvalue
    | increase hold hvalue => exact hP _ (isSingle_single _)
  | @call stmt rest caller outer name f values hblocks hdoes =>
    have hvalues : ∀ v ∈ values, v.Numbers P := by
      cases hdoes with
      | call hcallee hargs =>
        exact forall_values_of_evalAll (fun arg harg v hv => Config.numbers_of_eval hP henv hheading
          hblocks (hliterals _ _ _ _ hblocks) harg (Expr.self_mem_nodes _) hv) hargs
    rw [hblocks] at hsaved
    unfold Config.enter
    split
    · exact List.forall_mem_cons.2 ⟨(Environment.numbers_nil P).bindAll hvalues _,
        List.forall_mem_cons.2 ⟨henv, hsaved⟩⟩
    · exact List.forall_mem_cons.2 ⟨(henv.declareAll _).bindAll hvalues _, hsaved⟩

end Evaluation

/-! ## Runs -/

/-- A number of a configuration: it is bound to a name, in the variables in force or in those that are
    put back, or it is the value of an expression of the next statement, or of a part of one. -/
inductive Config.Computes (c : Config) (x : Float) : Prop where
  | bound {env : Environment} {name : Text} (henv : env ∈ c.frames)
      (hget : Bindings.get? env name = some (some (.number x))) : Config.Computes c x
  | value {stmt : Stmt} {rest : List Stmt} {caller : Option Environment} {outer : List Block}
      {expr node : Expr} (hblocks : c.blocks = ⟨stmt :: rest, caller⟩ :: outer)
      (hexpr : expr ∈ stmt.exprs) (hnode : node ∈ expr.nodes)
      (heval : (node.eval c.env c.turtle).result = .ok (.number x)) : Config.Computes c x

/-- A run comes by a configuration on the way from `c` to `c'`. -/
def Config.OnWay (p : Program) (c c' mid : Config) : Prop :=
  Config.Reaches p c mid ∧ Config.Reaches p mid c'

/-- On the way from one configuration to another a statement has read the heading, as the double `x`. -/
def Config.HeadingRead (p : Program) (c c' : Config) (x : Float) : Prop :=
  ∃ mid, Config.OnWay p c c' mid ∧ mid.ReadsHeading x

section Runs

variable {p : Program} {t : Turtle} {c c' : Config} {x : Float}

theorem Config.HeadingRead.trans {start : Config} (h : Config.HeadingRead p start c x)
    (hreach : Config.Reaches p c c') : Config.HeadingRead p start c' x := by
  obtain ⟨mid, ⟨hmid, hrest⟩, hreads⟩ := h
  exact ⟨mid, ⟨hmid, hrest.trans hreach⟩, hreads⟩

/-- A heading that is read is a number of the configuration. -/
theorem Config.ReadsHeading.computes (h : c.ReadsHeading x) : c.Computes x := by
  obtain ⟨stmt, rest, caller, outer, hblocks, ⟨expr, hexpr, span, hnode⟩, hx⟩ := h
  refine .value hblocks hexpr hnode ?_
  simp only [Expr.eval, Traced.bind_eq_ok_iff, Traced.result_ofExcept, Turtle.measure, hx]
  exact ⟨(), rfl, x, rfl, rfl⟩

/-- **The numbers that are bound are of single precision, or headings that have been read.** -/
theorem Config.Reaches.numbers (hliterals : ∀ stmt ∈ p.table.stmts, stmt.LiteralsSingle)
    (h : Config.Reaches p (Config.start p t) c) :
    ∀ frame ∈ c.frames,
      frame.Numbers fun x => IsSingle x ∨ Config.HeadingRead p (Config.start p t) c x := by
  induction h with
  | refl => exact List.forall_mem_singleton.2 ((Environment.numbers_nil _).declareAll _)
  | @tail mid next hmid hstep ih =>
    have hnext : Config.Reaches p mid next := .single hstep
    refine (Config.step_eq_next_iff.1 hstep).numbers (fun x => Or.inl) ?_ ?_ ?_
    · intro stmt rest caller outer hblocks
      exact hliterals stmt (Config.Reaches.mem_stmts hmid hblocks)
    · exact fun x hreads => Or.inr ⟨mid, ⟨hmid, hnext⟩, hreads⟩
    · exact fun frame hframe => (ih frame hframe).mono fun x hx =>
        hx.imp_right fun hread => hread.trans hnext

/-- The same holds of all numbers of a configuration. -/
theorem Config.Reaches.isSingle_or_headingRead
    (hliterals : ∀ stmt ∈ p.table.stmts, stmt.LiteralsSingle)
    (h : Config.Reaches p (Config.start p t) c) (hx : c.Computes x) :
    IsSingle x ∨ Config.HeadingRead p (Config.start p t) c x := by
  have hnumbers := h.numbers hliterals
  cases hx with
  | bound henv hget => exact hnumbers _ henv _ _ hget
  | value hblocks hexpr hnode heval =>
    have hvalue := Config.numbers_of_eval (fun x => Or.inl) (hnumbers _ List.mem_cons_self)
      (fun x hreads => Or.inr ⟨c, ⟨h, .refl⟩, hreads⟩) hblocks
      (hliterals _ (h.mem_stmts hblocks)) hexpr hnode heval
    exact hvalue

end Runs

/-- To have no literals but those of single precision is a property of the line of a statement. -/
theorem Stmt.lineProperty_literalsSingle (lines : List Text) :
    LineProperty lines Stmt.LiteralsSingle where
  comment _ _ _ _ _ := by simp [Stmt.LiteralsSingle, Stmt.exprs]
  read _ _ _ _ _ hread _ := literalsSingle_of_readStmt? hread
  close _ _ h := h

/-- **The numbers of a run are of single precision exactly as long as the headings that it reads are.**
    In either call mode, each number that is bound or that an expression evaluates to is of single
    precision, or it is a heading that a statement has read on the way. So all of them are of single
    precision if all of these headings are, and only then; and they are if the magnitude of the heading
    is at most `2 ^ 24`. -/
theorem numbers_single_iff {lines : List Text} {p : Program}
    (hparse : parseProgram lines = .ok p.table) {t : Turtle} {c : Config}
    (hreach : Config.Reaches p (Config.start p t) c) :
    (∀ x, c.Computes x → IsSingle x ∨ Config.HeadingRead p (Config.start p t) c x) ∧
    ((∀ mid, Config.OnWay p (Config.start p t) c mid → ∀ x, mid.Computes x → IsSingle x) ↔
      ∀ x, Config.HeadingRead p (Config.start p t) c x → IsSingle x) ∧
    ((∀ mid, Config.OnWay p (Config.start p t) c mid → mid.turtle.direction.natAbs ≤ 2 ^ 24) →
      ∀ mid, Config.OnWay p (Config.start p t) c mid → ∀ x, mid.Computes x → IsSingle x) := by
  have hliterals := (Stmt.lineProperty_literalsSingle lines).of_parseProgram hparse
  have hsound : (∀ x, Config.HeadingRead p (Config.start p t) c x → IsSingle x) →
      ∀ mid, Config.OnWay p (Config.start p t) c mid → ∀ x, mid.Computes x → IsSingle x := by
    rintro hheadings mid ⟨hmid, hrest⟩ x hx
    rcases hmid.isSingle_or_headingRead hliterals hx with hsingle | hread
    · exact hsingle
    · exact hheadings x (hread.trans hrest)
  refine ⟨fun x hx => hreach.isSingle_or_headingRead hliterals hx, ⟨?_, hsound⟩, ?_⟩
  · rintro hall x ⟨mid, hway, hreads⟩
    exact hall mid hway x hreads.computes
  · intro hsmall
    refine hsound ?_
    rintro x ⟨mid, hway, _, _, _, _, _, _, hx⟩
    exact isSingle_of_doubleOfInt?_le (hsmall mid hway) hx

/-- A call that is given a heading of 25 binary digits: the number that its parameter is bound to is
    not of single precision, and so it is a heading that was read. -/
theorem numbers_single_iff_call :
    ∃ table t c, parseProgram ["TO f \"n".toList, "FORWARD :n".toList, "END".toList,
        "TURN \"16777216".toList, "TURN \"1".toList, "f HEADING".toList] = .ok table ∧
      Config.Reaches ⟨table, true⟩ (Config.start ⟨table, true⟩ t) c ∧
      c.env = [(['n'], some (.number 16777217))] ∧
      Config.HeadingRead ⟨table, true⟩ (Config.start ⟨table, true⟩ t) c 16777217 := by
  obtain ⟨table, hparse, hrest⟩ := Except.exists_of_any
    (m := parseProgram ["TO f \"n".toList, "FORWARD :n".toList, "END".toList,
      "TURN \"16777216".toList, "TURN \"1".toList, "f HEADING".toList])
    (p := fun table => ((Config.start ⟨table, true⟩
        ⟨.default, .default, 200, 200, 0, false, 7, [], []⟩).runTo ⟨table, true⟩ 0 3).1 = .unfinished &&
      ((Config.start ⟨table, true⟩
        ⟨.default, .default, 200, 200, 0, false, 7, [], []⟩).runTo ⟨table, true⟩ 0 3).2.env =
          [(['n'], some (.number 16777217))]) (by decide +kernel)
  simp only [Bool.and_eq_true, decide_eq_true_eq] at hrest
  obtain ⟨hunfinished, henv⟩ := hrest
  have hreach := Config.runTo_reaches (Prod.ext hunfinished rfl) (by simp)
  have hbound : Bindings.get? (Config.env _) ['n'] = some (some (.number 16777217)) :=
    (congrArg (Bindings.get? · ['n']) henv).trans (by decide +kernel)
  have hnumber := (numbers_single_iff (p := ⟨table, true⟩) hparse hreach).1 _
    (.bound List.mem_cons_self hbound)
  exact ⟨table, _, _, hparse, hreach, henv, hnumber.resolve_left (by decide +kernel)⟩

/-- A program of three lines that binds, in either call mode, a number that is not of single
    precision. -/
theorem heading_not_single :
    ∃ table t x, parseProgram ["TURN \"16777216".toList, "TURN \"1".toList,
        "MAKE \"h HEADING".toList] = .ok table ∧
      Turtle.new? .default .default = some t ∧ ¬ IsSingle x ∧
      ∀ privateVariables, ∃ c,
        Config.Reaches ⟨table, privateVariables⟩ (Config.start ⟨table, privateVariables⟩ t) c ∧
        c.Computes x := by
  obtain ⟨table, hparse, hrest⟩ := Except.exists_of_any
    (m := parseProgram ["TURN \"16777216".toList, "TURN \"1".toList, "MAKE \"h HEADING".toList])
    (p := fun table => decide (∀ privateVariables, ((Config.start ⟨table, privateVariables⟩
        ⟨.default, .default, 200, 200, 0, false, 7, [], []⟩).runTo ⟨table, privateVariables⟩ 0 3).1 =
          .unfinished ∧
      ((Config.start ⟨table, privateVariables⟩
        ⟨.default, .default, 200, 200, 0, false, 7, [], []⟩).runTo ⟨table, privateVariables⟩ 0 3).2.env =
          [(['h'], some (.number 16777217))])) (by decide +kernel)
  rw [decide_eq_true_eq] at hrest
  have hnew : Turtle.new? .default .default =
      some ⟨.default, .default, 200, 200, 0, false, defaultColor, [], []⟩ := by decide +kernel
  refine ⟨table, _, 16777217, hparse, hnew, by decide +kernel, fun privateVariables => ?_⟩
  obtain ⟨hunfinished, henv⟩ := hrest privateVariables
  have hbound : Bindings.get? (Config.env _) ['h'] = some (some (.number 16777217)) :=
    (congrArg (Bindings.get? · ['h']) henv).trans (by decide +kernel)
  exact ⟨_, Config.runTo_reaches (Prod.ext hunfinished rfl) (by simp),
    .bound List.mem_cons_self hbound⟩

end LogoLang
