import LogoLang.Proofs.Results
import LogoLang.Run.Machine

set_option autoImplicit false

/-! # Effects of statements, taken apart

`Stmt.Does` says what a statement can do and what has to be evaluated for it, and `Stmt.Fails` what it
is that can stop it. Together they are all that `Stmt.effect` decides (`Stmt.effect_eq_ok_iff`,
`Stmt.effect_eq_error_iff`), so that no other proof looks into it. -/

namespace LogoLang

variable {p : Program} {env : Environment} {t : Turtle}

/-! ## Evaluations -/

/-- A question is asked before it is seen whether it has an answer. -/
theorem Expr.trace_query (q : Query) (span : Span) :
    ((Expr.query q span).eval env t).trace = [q] := by
  rw [Expr.eval, Traced.trace_bind_ok (a := ()) rfl]
  cases hmeasure : t.measure q with
  | ok x => rfl
  | error cause => rfl

theorem Expr.evalNumber_eq_error_iff {expr : Expr} {cause : Refusal} :
    (expr.evalNumber env t).result = .error cause ↔
      (expr.eval env t).result = .error cause ∨
        ∃ b, (expr.eval env t).result = .ok (.truth b) ∧
          cause = refusal .unexpectedBooleanType expr.span := by
  rw [Expr.evalNumber, Traced.bind_eq_error_iff]
  refine or_congr_right ⟨?_, ?_⟩
  · rintro ⟨v, hv, hcause⟩
    cases v with
    | number y => simp [Value.asNumber] at hcause
    | truth b =>
      cases hcause
      exact ⟨b, hv, rfl⟩
  · rintro ⟨b, hv, rfl⟩
    exact ⟨.truth b, hv, rfl⟩

theorem Expr.evalTruth_eq_error_iff {expr : Expr} {cause : Refusal} :
    (expr.evalTruth env t).result = .error cause ↔
      (expr.eval env t).result = .error cause ∨
        ∃ x, (expr.eval env t).result = .ok (.number x) ∧
          cause = refusal .unexpectedNumberType expr.span := by
  rw [Expr.evalTruth, Traced.bind_eq_error_iff]
  refine or_congr_right ⟨?_, ?_⟩
  · rintro ⟨v, hv, hcause⟩
    cases v with
    | truth b => simp [Value.asTruth] at hcause
    | number x =>
      cases hcause
      exact ⟨x, hv, rfl⟩
  · rintro ⟨x, hv, rfl⟩
    exact ⟨.number x, hv, rfl⟩

theorem Expr.evalInteger_eq_error {expr : Expr} {cause : Refusal}
    (h : (expr.evalInteger env t).result = .error cause) :
    (expr.evalNumber env t).result = .error cause ∨
      cause = refusal .nonIntegerValue expr.span := by
  rw [Expr.evalInteger, Traced.bind_eq_error_iff] at h
  rcases h with h | ⟨x, _, h⟩
  · exact Or.inl h
  · cases hint : integerOf? x with
    | none =>
      rw [hint] at h
      cases h
      exact Or.inr rfl
    | some n =>
      rw [hint] at h
      exact absurd h (by simp)

theorem Expr.evalNumber_eq_ok_iff {expr : Expr} {x : Float} :
    (expr.evalNumber env t).result = .ok x ↔ (expr.eval env t).result = .ok (.number x) := by
  rw [Expr.evalNumber, Traced.bind_eq_ok_iff]
  constructor
  · rintro ⟨v, hv, hx⟩
    cases v with
    | number y =>
      cases hx
      exact hv
    | truth b => simp [Value.asNumber] at hx
  · exact fun hv => ⟨.number x, hv, rfl⟩

theorem Expr.evalInteger_eq_ok_iff {expr : Expr} {n : Int} :
    (expr.evalInteger env t).result = .ok n ↔
      ∃ x, (expr.eval env t).result = .ok (.number x) ∧ integerOf? x = some n := by
  simp only [Expr.evalInteger, Traced.bind_eq_ok_iff, Expr.evalNumber_eq_ok_iff]
  refine exists_congr fun x => and_congr_right fun _ => ?_
  cases integerOf? x with
  | none => simp
  | some m => simp

/-! ## What a command tells the turtle -/

/-- How far from the heading a command moves the turtle, if it does. -/
def Command.offset? : Command → Option Int
  | .forward => some 0
  | .back => some 180
  | .left => some (-90)
  | .right => some 90
  | .setPenColor | .turn | .setHeading | .setX | .setY => none

/-- The actions of a command, and the value that its operand has for each of them. -/
inductive Command.Tells (env : Environment) (t : Turtle) (value : Expr) : Command → Action → Prop where
  | move {cmd : Command} {offset : Int} {x : Float} (hoffset : cmd.offset? = some offset)
      (hvalue : (value.eval env t).result = .ok (.number x)) :
      Command.Tells env t value cmd (.move offset x)
  | setPenColor {x : Float} {n : Int} (hvalue : (value.eval env t).result = .ok (.number x))
      (hinteger : integerOf? x = some n) (hrange : 0 ≤ n ∧ n < 16) :
      Command.Tells env t value .setPenColor (.setPenColor n)
  | turn {x : Float} {n : Int} (hvalue : (value.eval env t).result = .ok (.number x))
      (hinteger : integerOf? x = some n) : Command.Tells env t value .turn (.turn n)
  | setHeading {x : Float} {n : Int} (hvalue : (value.eval env t).result = .ok (.number x))
      (hinteger : integerOf? x = some n) : Command.Tells env t value .setHeading (.setHeading n)
  | setX {x : Float} (hvalue : (value.eval env t).result = .ok (.number x)) :
      Command.Tells env t value .setX (.setX x)
  | setY {x : Float} (hvalue : (value.eval env t).result = .ok (.number x)) :
      Command.Tells env t value .setY (.setY x)

theorem requireColor_eq_ok {span : Span} {index n : Int} (h : requireColor span index = .ok n) :
    n = index ∧ 0 ≤ index ∧ index < 16 := by
  unfold requireColor at h
  split at h
  · next hrange =>
    cases h
    exact ⟨rfl, hrange⟩
  · exact absurd h (by simp)

theorem Command.tells_of_action {cmd : Command} {value : Expr} {action : Action}
    (h : (cmd.action env t value).result = .ok action) : cmd.Tells env t value action := by
  cases cmd with
  | forward | back | left | right =>
    rw [Command.action, Traced.bind_eq_ok_iff] at h
    obtain ⟨x, hvalue, h⟩ := h
    cases h
    exact .move rfl (Expr.evalNumber_eq_ok_iff.1 hvalue)
  | setPenColor =>
    simp only [Command.action, Traced.bind_eq_ok_iff, Traced.result_ofExcept] at h
    obtain ⟨index, hvalue, n, hcolor, h⟩ := h
    cases h
    obtain ⟨rfl, hrange⟩ := requireColor_eq_ok hcolor
    obtain ⟨x, hvalue, hinteger⟩ := Expr.evalInteger_eq_ok_iff.1 hvalue
    exact .setPenColor hvalue hinteger hrange
  | turn =>
    rw [Command.action, Traced.bind_eq_ok_iff] at h
    obtain ⟨n, hvalue, h⟩ := h
    cases h
    obtain ⟨x, hvalue, hinteger⟩ := Expr.evalInteger_eq_ok_iff.1 hvalue
    exact .turn hvalue hinteger
  | setHeading =>
    rw [Command.action, Traced.bind_eq_ok_iff] at h
    obtain ⟨n, hvalue, h⟩ := h
    cases h
    obtain ⟨x, hvalue, hinteger⟩ := Expr.evalInteger_eq_ok_iff.1 hvalue
    exact .setHeading hvalue hinteger
  | setX =>
    rw [Command.action, Traced.bind_eq_ok_iff] at h
    obtain ⟨x, hvalue, h⟩ := h
    cases h
    exact .setX (Expr.evalNumber_eq_ok_iff.1 hvalue)
  | setY =>
    rw [Command.action, Traced.bind_eq_ok_iff] at h
    obtain ⟨x, hvalue, h⟩ := h
    cases h
    exact .setY (Expr.evalNumber_eq_ok_iff.1 hvalue)

/-! ## What a statement does -/

/-- The effects of a statement, and what has to be evaluated for each of them. -/
inductive Stmt.Does (p : Program) (env : Environment) (t : Turtle) : Stmt → Effect → Prop where
  | pass {kind : BlockKind} {condition : Expr} {body : List Stmt} {line : Nat}
      (hcondition : (condition.evalTruth env t).result = .ok false) :
      Stmt.Does p env t (.block kind condition body line) .skip
  | branch {condition : Expr} {body : List Stmt} {line : Nat}
      (hcondition : (condition.evalTruth env t).result = .ok true) :
      Stmt.Does p env t (.block .branch condition body line) (.branch body)
  | loop {condition : Expr} {body : List Stmt} {line : Nat}
      (hcondition : (condition.evalTruth env t).result = .ok true) :
      Stmt.Does p env t (.block .loop condition body line) (.loop body)
  | make {name : Text} {span : Span} {value : Expr} {line : Nat} {v : Value}
      (hvalue : (value.eval env t).result = .ok v) :
      Stmt.Does p env t (.assign .make (.named name span) value line) (.assign name v)
  | increase {name : Text} {span : Span} {value : Expr} {line : Nat} {x y : Float}
      (hold : env.readNumber name span = .ok x) (hvalue : (value.evalNumber env t).result = .ok y) :
      Stmt.Does p env t (.assign .increase (.named name span) value line)
        (.assign name (.number (single (x + y))))
  | pen {down : Bool} {line : Nat} :
      Stmt.Does p env t (.pen down line) (.act (if down then .penDown else .penUp))
  | command {cmd : Command} {value : Expr} {line : Nat} {action : Action}
      (haction : (cmd.action env t value).result = .ok action) :
      Stmt.Does p env t (.command cmd value line) (.act action)
  | call {name : Text} {span : Span} {args : List Expr} {line : Nat} {f : Function}
      {values : List Value} (hcallee : p.callee name span args.length = .ok f)
      (hargs : (evalAll env t args).result = .ok values) :
      Stmt.Does p env t (.call (.named name span) args line) (.call name f values)
  | comment {text : Text} {line : Nat} : Stmt.Does p env t (.comment text line) .skip

theorem Label.require_eq_ok {label : Label} {name : Text} (h : label.require = .ok name) :
    ∃ span, label = .named name span := by
  cases label with
  | named name' span =>
    cases h
    exact ⟨span, rfl⟩
  | malformed flaw => simp [Label.require] at h

theorem Stmt.effect_eq_ok_iff {stmt : Stmt} {effect : Effect} :
    (stmt.effect p env t).result = .ok effect ↔ Stmt.Does p env t stmt effect := by
  constructor
  · intro h
    cases stmt with
    | block kind condition body line =>
      rw [Stmt.effect, Traced.bind_eq_ok_iff] at h
      obtain ⟨holds, hcondition, h⟩ := h
      cases holds <;> cases kind <;> cases h
      · exact .pass hcondition
      · exact .pass hcondition
      · exact .branch hcondition
      · exact .loop hcondition
    | assign kind target value line =>
      cases kind with
      | make =>
        simp only [Stmt.effect, Traced.bind_eq_ok_iff, Traced.result_ofExcept] at h
        obtain ⟨v, hvalue, name, hname, h⟩ := h
        obtain ⟨span, rfl⟩ := Label.require_eq_ok hname
        cases h
        exact .make hvalue
      | increase =>
        simp only [Stmt.effect, Traced.bind_eq_ok_iff, Traced.result_ofExcept] at h
        obtain ⟨name, hname, x, hold, y, hvalue, h⟩ := h
        obtain ⟨span, rfl⟩ := Label.require_eq_ok hname
        cases h
        exact .increase hold hvalue
    | pen down line =>
      cases h
      exact .pen
    | command cmd value line =>
      rw [Stmt.effect, Traced.bind_eq_ok_iff] at h
      obtain ⟨action, haction, h⟩ := h
      cases h
      exact .command haction
    | call label args line =>
      simp only [Stmt.effect, Traced.bind_eq_ok_iff, Traced.result_ofExcept] at h
      obtain ⟨name, hname, f, hcallee, values, hargs, h⟩ := h
      obtain ⟨span, rfl⟩ := Label.require_eq_ok hname
      cases h
      exact .call hcallee hargs
    | comment text line =>
      cases h
      exact .comment
  · intro h
    cases h with
    | pass h => simp only [Stmt.effect, Traced.result_bind, h]; rfl
    | branch h => simp only [Stmt.effect, Traced.result_bind, h]; rfl
    | loop h => simp only [Stmt.effect, Traced.result_bind, h]; rfl
    | make h =>
      simp only [Stmt.effect, Traced.bind_eq_ok_iff, Traced.result_ofExcept]
      exact ⟨_, h, _, rfl, rfl⟩
    | increase hold hvalue =>
      simp only [Stmt.effect, Traced.bind_eq_ok_iff, Traced.result_ofExcept]
      exact ⟨_, rfl, _, hold, _, hvalue, rfl⟩
    | pen => rfl
    | command h => simp only [Stmt.effect, Traced.result_bind, h]; rfl
    | call hcallee hargs =>
      simp only [Stmt.effect, Traced.bind_eq_ok_iff, Traced.result_ofExcept]
      exact ⟨_, rfl, _, hcallee, _, hargs, rfl⟩
    | comment => rfl

/-! ## What stops a statement -/

/-- The reasons why a statement cannot be done. -/
inductive Stmt.Fails (p : Program) (env : Environment) (t : Turtle) : Stmt → Refusal → Prop where
  | condition {kind : BlockKind} {condition : Expr} {body : List Stmt} {line : Nat}
      {cause : Refusal} (h : (condition.evalTruth env t).result = .error cause) :
      Stmt.Fails p env t (.block kind condition body line) cause
  | makeValue {target : Label} {value : Expr} {line : Nat} {cause : Refusal}
      (h : (value.eval env t).result = .error cause) :
      Stmt.Fails p env t (.assign .make target value line) cause
  | makeTarget {flaw : Flaw} {value : Expr} {line : Nat} {v : Value}
      (h : (value.eval env t).result = .ok v) :
      Stmt.Fails p env t (.assign .make (.malformed flaw) value line) .malformed
  | increaseTarget {flaw : Flaw} {value : Expr} {line : Nat} :
      Stmt.Fails p env t (.assign .increase (.malformed flaw) value line) .malformed
  | increaseOld {name : Text} {span : Span} {value : Expr} {line : Nat} {cause : Refusal}
      (h : env.readNumber name span = .error cause) :
      Stmt.Fails p env t (.assign .increase (.named name span) value line) cause
  | increaseValue {name : Text} {span : Span} {value : Expr} {line : Nat} {x : Float}
      {cause : Refusal} (hold : env.readNumber name span = .ok x)
      (h : (value.evalNumber env t).result = .error cause) :
      Stmt.Fails p env t (.assign .increase (.named name span) value line) cause
  | command {cmd : Command} {value : Expr} {line : Nat} {cause : Refusal}
      (h : (cmd.action env t value).result = .error cause) :
      Stmt.Fails p env t (.command cmd value line) cause
  | callName {flaw : Flaw} {args : List Expr} {line : Nat} :
      Stmt.Fails p env t (.call (.malformed flaw) args line) .malformed
  | callee {name : Text} {span : Span} {args : List Expr} {line : Nat} {cause : Refusal}
      (h : p.callee name span args.length = .error cause) :
      Stmt.Fails p env t (.call (.named name span) args line) cause
  | args {name : Text} {span : Span} {args : List Expr} {line : Nat} {f : Function}
      {cause : Refusal} (hcallee : p.callee name span args.length = .ok f)
      (h : (evalAll env t args).result = .error cause) :
      Stmt.Fails p env t (.call (.named name span) args line) cause

theorem Stmt.fails_of_assign {kind : AssignKind} {target : Label} {value : Expr} {line : Nat}
    {cause : Refusal}
    (h : ((Stmt.assign kind target value line).effect p env t).result = .error cause) :
    Stmt.Fails p env t (.assign kind target value line) cause := by
  cases kind with
  | make =>
    simp only [Stmt.effect, Traced.bind_eq_error_iff, Traced.result_ofExcept] at h
    rcases h with h | ⟨v, hvalue, h | ⟨name, _, h⟩⟩
    · exact .makeValue h
    · cases target with
      | named name span => simp [Label.require] at h
      | malformed flaw =>
        cases h
        exact .makeTarget hvalue
    · exact absurd h (by simp)
  | increase =>
    cases target with
    | malformed flaw =>
      cases h
      exact .increaseTarget
    | named name span =>
      simp only [Stmt.effect, Traced.bind_eq_error_iff, Traced.result_ofExcept] at h
      -- the old value is read before the new one is evaluated
      rcases h with h | ⟨name', hname, h | ⟨x, hold, h | ⟨y, _, h⟩⟩⟩
      · simp [Label.require] at h
      · cases hname
        exact .increaseOld h
      · cases hname
        exact .increaseValue hold h
      · exact absurd h (by simp)

theorem Stmt.fails_of_call {label : Label} {args : List Expr} {line : Nat} {cause : Refusal}
    (h : ((Stmt.call label args line).effect p env t).result = .error cause) :
    Stmt.Fails p env t (.call label args line) cause := by
  cases label with
  | malformed flaw =>
    cases h
    exact .callName
  | named name span =>
    simp only [Stmt.effect, Traced.bind_eq_error_iff, Traced.result_ofExcept] at h
    -- the function is looked up before any argument is evaluated
    rcases h with h | ⟨name', hname, h | ⟨f, hcallee, h | ⟨values, _, h⟩⟩⟩
    · simp [Label.require] at h
    · cases hname
      exact .callee h
    · cases hname
      exact .args hcallee h
    · exact absurd h (by simp)

theorem Stmt.effect_eq_error_iff {stmt : Stmt} {cause : Refusal} :
    (stmt.effect p env t).result = .error cause ↔ Stmt.Fails p env t stmt cause := by
  constructor
  · intro h
    cases stmt with
    | block kind condition body line =>
      rw [Stmt.effect, Traced.bind_eq_error_iff] at h
      rcases h with h | ⟨holds, _, h⟩
      · exact .condition h
      · cases holds <;> cases kind <;> exact absurd h (by simp)
    | assign kind target value line => exact Stmt.fails_of_assign h
    | pen down line => exact absurd h (by simp [Stmt.effect])
    | command cmd value line =>
      rw [Stmt.effect, Traced.bind_eq_error_iff] at h
      rcases h with h | ⟨action, _, h⟩
      · exact .command h
      · exact absurd h (by simp)
    | call label args line => exact Stmt.fails_of_call h
    | comment text line => exact absurd h (by simp [Stmt.effect])
  · intro h
    cases h with
    | condition h | makeValue h | command h =>
      simp only [Stmt.effect, Traced.bind_eq_error_iff]
      exact Or.inl h
    | makeTarget h =>
      simp only [Stmt.effect, Traced.bind_eq_error_iff]
      exact Or.inr ⟨_, h, Or.inl rfl⟩
    | increaseTarget | callName => rfl
    | increaseOld h =>
      simp only [Stmt.effect, Traced.bind_eq_error_iff]
      exact Or.inr ⟨_, rfl, Or.inl h⟩
    | increaseValue hold h =>
      simp only [Stmt.effect, Traced.bind_eq_error_iff]
      exact Or.inr ⟨_, rfl, Or.inr ⟨_, hold, Or.inl h⟩⟩
    | callee h =>
      simp only [Stmt.effect, Traced.bind_eq_error_iff]
      exact Or.inr ⟨_, rfl, Or.inl h⟩
    | args hcallee h =>
      simp only [Stmt.effect, Traced.bind_eq_error_iff]
      exact Or.inr ⟨_, rfl, Or.inr ⟨_, hcallee, Or.inl h⟩⟩

end LogoLang
