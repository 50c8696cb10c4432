import LogoLang.Emit.Emitter
import LogoLang.Proofs.Results
import LogoLang.Proofs.Syntax.Nodes
import Mathlib.Data.List.Nodup

set_option autoImplicit false

/-! # The methods that a program needs

A command needs the method that does it, and a question the method that answers it. The methods noted by
an emission are those that some statement of the program needs, at any depth and in any function
(`FunctionTable.mem_trace_emit`), and an emitter keeps just these, whatever it was used for before
(`Emitter.mem_methods_iff`). -/

namespace LogoLang

/-! ## Needs -/

/-- The method that answers a question. -/
def Query.needs : Query → Method
  | .x => .x
  | .y => .y
  | .heading => .direction
  | .color => .color

/-- The method that does a command. -/
def Command.needs : Command → Method
  | .forward | .back | .left | .right => .penMove
  | .setPenColor => .setPenColor
  | .turn => .turn
  | .setHeading => .setHeading
  | .setX => .setX
  | .setY => .setY

/-- The methods that an expression needs, in the order in which its questions are written. -/
def Expr.needs : Expr → List Method
  | .query q _ => [q.needs]
  | .binary _ left right _ => left.needs ++ right.needs
  | .truth .. | .number .. | .var .. | .malformed _ => []

/-- The methods that the line of a statement needs. The statements of its body are not looked at. -/
def Stmt.needs : Stmt → List Method
  | .block _ condition _ _ => condition.needs
  | .assign _ _ value _ => value.needs
  | .pen true _ => [.penDown]
  | .pen false _ => [.penUp]
  | .command cmd value _ => cmd.needs :: value.needs
  | .call _ args _ => args.flatMap Expr.needs
  | .comment _ _ => []

/-- Some statement of the program needs the method, at whatever depth, in whatever function. -/
def FunctionTable.Needs (table : FunctionTable) (method : Method) : Prop :=
  ∃ stmt ∈ table.stmts, method ∈ stmt.needs

/-- An expression needs the methods that answer the questions in it, at any depth. -/
theorem Expr.mem_needs_iff {expr : Expr} {method : Method} :
    method ∈ expr.needs ↔ ∃ q span, .query q span ∈ expr.nodes ∧ q.needs = method := by
  induction expr with
  | query q span => simp [Expr.needs, Expr.nodes, eq_comm]
  | binary op left right span ihleft ihright =>
    rw [Expr.needs, List.mem_append, ihleft, ihright]
    simp only [Expr.nodes, List.mem_cons, List.mem_append, reduceCtorEq, false_or]
    constructor
    · rintro (⟨q, s, hmem, hq⟩ | ⟨q, s, hmem, hq⟩)
      · exact ⟨q, s, Or.inl hmem, hq⟩
      · exact ⟨q, s, Or.inr hmem, hq⟩
    · rintro ⟨q, s, hmem | hmem, hq⟩
      · exact Or.inl ⟨q, s, hmem, hq⟩
      · exact Or.inr ⟨q, s, hmem, hq⟩
  | truth | number | var | malformed => simp [Expr.needs, Expr.nodes]

@[simp]
theorem Query.method_eq (q : Query) : q.method = q.needs := by
  cases q <;> rfl

@[simp]
theorem Command.method_fst (cmd : Command) : cmd.method.1 = cmd.needs := by
  cases cmd <;> rfl

/-! ## Notes -/

/-- If the emission ends well, it has noted exactly the given methods. -/
def Traced.Uses {ε α : Type} (m : Traced EmitNote ε α) (methods : List Method) : Prop :=
  ∀ a, m.result = .ok a → ∀ method, EmitNote.uses method ∈ m.trace ↔ method ∈ methods

section Uses

variable {ε α β : Type} {methods more : List Method}

theorem Traced.Uses.pure (a : α) : (pure a : Traced EmitNote ε α).Uses [] := by
  intro _ _ method
  simp

/-- An emission that fails is not asked what it has noted. -/
theorem Traced.Uses.fail (e : ε) : (Traced.fail e : Traced EmitNote ε α).Uses methods := by
  intro a h
  exact absurd h (by simp)

theorem Traced.Uses.wrote (name : Text) (lines : Nat) :
    (Traced.log (.wrote name lines) : Traced EmitNote ε Unit).Uses [] := by
  intro _ _ method
  simp [Traced.log]

theorem Traced.Uses.bind {m : Traced EmitNote ε α} {f : α → Traced EmitNote ε β}
    (hm : m.Uses methods) (hf : ∀ a, (f a).Uses more) : (m >>= f).Uses (methods ++ more) := by
  intro b h method
  obtain ⟨a, ha, hb⟩ := Traced.bind_eq_ok_iff.1 h
  rw [Traced.trace_bind_ok ha, List.mem_append, List.mem_append, hm a ha, hf a b hb]

/-- What follows may note nothing. -/
theorem Traced.Uses.bind_nil {m : Traced EmitNote ε α} {f : α → Traced EmitNote ε β}
    (hm : m.Uses methods) (hf : ∀ a, (f a).Uses []) : (m >>= f).Uses methods := by
  have h := hm.bind hf
  rwa [List.append_nil] at h

theorem Traced.Uses.congr {m : Traced EmitNote ε α} (h : m.Uses methods)
    (hsame : ∀ method, method ∈ methods ↔ method ∈ more) : m.Uses more := by
  intro a ha method
  rw [h a ha, hsame]

theorem Traced.Uses.inLine {m : Emitting α} (h : m.Uses methods) (line : Nat) :
    (m.inLine line).Uses methods := by
  intro a ha
  cases hresult : m.result with
  | ok b => exact h b hresult
  | error fault =>
    rw [Emitting.inLine, hresult] at ha
    exact absurd ha (by simp [Except.mapError])

end Uses

section Emissions

variable {scope : Scope} {table : FunctionTable}

theorem uses_emitCall (method : Method) (args : List Text) :
    (emitCall method args).Uses [method] := by
  intro _ _ method'
  simp [emitCall, bind, Traced.andThen, Traced.log]

theorem uses_checkOperands {wanted : Bool} {kind : ErrorKind} (left right : Expr) (a b : Code) :
    (checkOperands wanted kind left right a b).Uses [] := by
  unfold checkOperands
  split
  · exact .fail _
  · split
    · exact .fail _
    · exact .pure _

/-- An operator between two codes notes nothing. -/
theorem BinaryOp.uses_emit (op : BinaryOp) (left right : Expr) (span : Span) (a b : Code) :
    (op.emit left right span a b).Uses [] := by
  unfold BinaryOp.emit
  cases op.opClass with
  | arithmetic =>
    refine (uses_checkOperands left right a b).bind_nil fun _ => ?_
    split
    · exact .fail _
    · exact .pure _
  | equality =>
    simp only
    split
    · exact .fail _
    · exact .pure _
  | comparison | logic => exact (uses_checkOperands left right a b).bind_nil fun _ => .pure _

theorem Expr.uses_emit (expr : Expr) : (expr.emit scope).Uses expr.needs := by
  induction expr with
  | truth value span | number value span => exact .pure _
  | malformed flaw => exact .fail _
  | var name span =>
    unfold Expr.emit
    split
    · exact .fail _
    · exact .pure _
  | query q span =>
    cases q <;> exact (uses_emitCall _ []).bind_nil fun _ => .pure _
  | binary op left right span ihleft ihright =>
    exact ihleft.bind fun a => ihright.bind_nil fun b => op.uses_emit left right span a b

theorem Expr.uses_emitNumber (expr : Expr) : (expr.emitNumber scope).Uses expr.needs := by
  refine expr.uses_emit.bind_nil fun code => ?_
  split
  · exact .fail _
  · exact .pure _

theorem Expr.uses_emitTruth (expr : Expr) : (expr.emitTruth scope).Uses expr.needs := by
  refine expr.uses_emit.bind_nil fun code => ?_
  split
  · exact .pure _
  · exact .fail _

theorem uses_emitNumbers (args : List Expr) :
    (emitNumbers scope args).Uses (args.flatMap Expr.needs) := by
  induction args with
  | nil => exact .pure _
  | cons arg rest ih => exact arg.uses_emitNumber.bind fun _ => ih.bind_nil fun _ => .pure _

theorem Label.uses_emit (label : Label) : label.emit.Uses [] := by
  cases label with
  | named name span => exact .pure _
  | malformed flaw => exact .fail _

theorem uses_emitAssign (kind : AssignKind) (target : Label) (value : Expr) :
    (emitAssign scope kind target value).Uses value.needs := by
  cases kind with
  | make => exact value.uses_emit.bind_nil fun _ => target.uses_emit.bind_nil fun _ => .pure _
  | increase =>
    refine target.uses_emit.bind fun name => ?_
    split
    · exact .fail _
    · exact .fail _
    · exact value.uses_emitNumber.bind_nil fun _ => .pure _

theorem uses_emitFunctionCall (label : Label) (args : List Expr) :
    (emitFunctionCall table scope label args).Uses (args.flatMap Expr.needs) := by
  refine label.uses_emit.bind fun name => ?_
  split
  · exact .fail _
  · split
    · exact .fail _
    · split
      · exact .fail _
      · exact (uses_emitNumbers args).bind_nil fun _ => .pure _

mutual

/-- **A statement notes the methods that it and the statements inside it need.** -/
theorem Stmt.uses_emit (stmt : Stmt) (depth : Nat) (scope : Scope) :
    (stmt.emit table depth scope).Uses (stmt.all.flatMap Stmt.needs) := by
  cases stmt with
  | block kind condition body line =>
    refine (condition.uses_emitTruth.inLine line).bind fun code => ?_
    exact (uses_emitBody body (depth + 1) scope).bind_nil fun _ => .pure _
  | assign kind target value line =>
    rw [Stmt.all, List.flatMap_singleton]
    exact ((uses_emitAssign kind target value).inLine line).bind_nil fun _ => .pure _
  | pen down line =>
    rw [Stmt.all, List.flatMap_singleton]
    cases down <;> exact ((uses_emitCall _ []).inLine line).bind_nil fun _ => .pure _
  | command cmd value line =>
    -- the operand is emitted before the call that it is an argument of
    have hemit : (Stmt.emit table depth scope (.command cmd value line)).Uses
        (value.needs ++ [cmd.method.1]) :=
      (value.uses_emitNumber.inLine line).bind fun code =>
        ((uses_emitCall _ _).inLine line).bind_nil fun _ => .pure _
    refine hemit.congr fun method => ?_
    simp [Stmt.all, Stmt.needs, or_comm]
  | call label args line =>
    rw [Stmt.all, List.flatMap_singleton]
    exact ((uses_emitFunctionCall label args).inLine line).bind_nil fun _ => .pure _
  | comment text line => exact .pure _

theorem uses_emitBody (body : List Stmt) (depth : Nat) (scope : Scope) :
    (emitBody table depth scope body).Uses ((allStmts body).flatMap Stmt.needs) := by
  cases body with
  | nil => exact .pure _
  | cons stmt rest =>
    rw [allStmts, List.flatMap_append]
    exact (stmt.uses_emit depth scope).bind fun _ =>
      (uses_emitBody rest depth _).bind_nil fun _ => .pure _

end

theorem Function.uses_emit (f : Function) (name : Text) :
    (f.emit table name).Uses ((allStmts f.body).flatMap Stmt.needs) := by
  refine Traced.Uses.bind_nil ?_ fun lines => (Traced.Uses.wrote name _).bind_nil fun _ => .pure _
  exact (uses_emitBody f.body 1 f.scope).bind_nil fun _ => .pure _

theorem uses_emitFunctions (entries : List (Text × Function)) :
    (emitFunctions table entries).Uses
      ((entries.flatMap fun entry => allStmts entry.2.body).flatMap Stmt.needs) := by
  induction entries with
  | nil => exact .pure _
  | cons entry rest ih =>
    rw [List.flatMap_cons, List.flatMap_append]
    exact (entry.2.uses_emit entry.1).bind fun _ => ih.bind_nil fun _ => .pure _

/-- **The methods noted by an emission are those that the program needs.** -/
theorem FunctionTable.mem_trace_emit {codes : List Text} {method : Method}
    (h : table.emit.result = .ok codes) :
    EmitNote.uses method ∈ table.emit.trace ↔ table.Needs method := by
  exact (uses_emitFunctions table.entries codes h method).trans List.mem_flatMap

end Emissions

/-! ## Emitters -/

section Emitters

variable {e : Emitter} {notes : List EmitNote} {method : Method}

theorem Emitter.table_foldl_take : (notes.foldl Emitter.take e).table = e.table := by
  induction notes generalizing e with
  | nil => rfl
  | cons note rest ih =>
    rw [List.foldl_cons, ih]
    cases note <;> rfl

theorem Emitter.mem_methods_foldl_take :
    method ∈ (notes.foldl Emitter.take e).methods ↔
      method ∈ e.methods ∨ EmitNote.uses method ∈ notes := by
  induction notes generalizing e with
  | nil => simp
  | cons note rest ih =>
    rw [List.foldl_cons, ih]
    cases note with
    | uses other => simp [Emitter.take, or_assoc, or_left_comm]
    | wrote name lines => simp [Emitter.take]

theorem Emitter.nodup_methods_foldl_take (h : e.methods.Nodup) :
    (notes.foldl Emitter.take e).methods.Nodup := by
  induction notes generalizing e with
  | nil => exact h
  | cons note rest ih =>
    refine ih ?_
    cases note with
    | uses other => exact List.Nodup.insert h
    | wrote name lines => exact h

/-- Only the methods change when an emitter is used, whether it fails or not. -/
@[simp]
theorem Emitter.table_emit (e : Emitter) (width height : Measure) :
    (e.emit width height).1.table = e.table := Emitter.table_foldl_take

/-- The emitter after it has been used for modules of the given sizes, whether that failed or not. -/
def Emitter.after (e : Emitter) (sizes : List (Measure × Measure)) : Emitter :=
  sizes.foldl (fun e size => (e.emit size.1 size.2).1) e

/-- **An emission does not depend on what the emitter was used for before.** -/
theorem Emitter.emit_after (e : Emitter) (sizes : List (Measure × Measure)) (width height : Measure) :
    (e.after sizes).emit width height = e.emit width height := by
  have htable : (e.after sizes).table = e.table := by
    unfold Emitter.after
    induction sizes generalizing e with
    | nil => rfl
    | cons size rest ih => rw [List.foldl_cons, ih, Emitter.table_emit]
  unfold Emitter.emit
  rw [htable]

theorem Emitter.mem_methods_emit (e : Emitter) (width height : Measure) :
    method ∈ (e.emit width height).1.methods ↔ EmitNote.uses method ∈ e.table.emit.trace := by
  rw [Emitter.emit, Emitter.mem_methods_foldl_take]
  simp

theorem Emitter.emit_eq_ok_iff {width height : Measure} {module : Text} :
    (e.emit width height).2 = .ok module ↔ ∃ codes, e.table.emit.result = .ok codes ∧
      module = moduleText codes (e.emit width height).1.sortedMethods width height := by
  unfold Emitter.emit
  cases hresult : e.table.emit.result with
  | ok codes => simp [hresult, Except.map, eq_comm]
  | error failure => simp [hresult, Except.map]

/-- **An emitter keeps the methods that its program needs**, whatever it was used for before. -/
theorem Emitter.mem_methods_iff {width height : Measure} {module : Text}
    (h : (e.emit width height).2 = .ok module) :
    method ∈ (e.emit width height).1.methods ↔ e.table.Needs method := by
  obtain ⟨codes, hcodes, _⟩ := Emitter.emit_eq_ok_iff.1 h
  rw [Emitter.mem_methods_emit, FunctionTable.mem_trace_emit hcodes]

/-! ## The order of the methods -/

theorem Text.le_trans {t u v : Text} (h : t.le u = true) (h' : u.le v = true) :
    t.le v = true := by
  induction t generalizing u v with
  | nil => simp [Text.le]
  | cons a as ih =>
    cases u with
    | nil => exact absurd h (by simp [Text.le])
    | cons b bs =>
      cases v with
      | nil => exact absurd h' (by simp [Text.le])
      | cons c cs =>
        unfold Text.le at h h' ⊢
        by_cases hab : a = b
        · subst hab
          by_cases hac : a = c
          · rw [if_pos rfl] at h
            rw [if_pos hac] at h' ⊢
            exact ih h h'
          · rw [if_neg hac] at h' ⊢
            exact h'
        · by_cases hbc : b = c
          · subst hbc
            rw [if_neg hab] at h ⊢
            exact h
          · rw [if_neg hab, decide_eq_true_eq] at h
            rw [if_neg hbc, decide_eq_true_eq] at h'
            have hac : a ≠ c := by
              rintro rfl
              omega
            rw [if_neg hac, decide_eq_true_eq]
            omega

theorem Text.le_total (t u : Text) : t.le u = true ∨ u.le t = true := by
  fun_induction Text.le t u with
  | case1 u => exact Or.inl rfl
  | case2 a as => exact Or.inr rfl
  | case3 a as bs ih =>
    rw [Text.le, if_pos rfl]
    exact ih
  | case4 a as b bs hne =>
    have hcode : a.toNat ≠ b.toNat := fun heq => hne (Char.toNat_inj.1 heq)
    rw [Text.le, if_neg (Ne.symm hne), decide_eq_true_eq, decide_eq_true_eq]
    omega

theorem Text.eq_of_le {t u : Text} (h : t.le u = true) (h' : u.le t = true) : t = u := by
  fun_induction Text.le t u with
  | case1 u =>
    cases u with
    | nil => rfl
    | cons b bs => exact absurd h' (by simp [Text.le])
  | case2 a as => exact absurd h (by simp)
  | case3 a as bs ih =>
    rw [Text.le, if_pos rfl] at h'
    rw [ih h h']
  | case4 a as b bs hne =>
    rw [Text.le, if_neg (Ne.symm hne), decide_eq_true_eq] at h'
    rw [decide_eq_true_eq] at h
    omega

theorem Method.mem_all (method : Method) : method ∈ Method.all := by
  cases method <;> decide

theorem Method.nodup_all : Method.all.Nodup := by
  decide

theorem Method.pairwise_all : Method.all.Pairwise fun a b => a.name.le b.name = true := by
  decide +kernel

theorem Method.name_injective : Function.Injective Method.name := by
  intro a b h
  cases a <;> cases b <;> first | rfl | exact absurd h (by decide)

/-- **The methods that an emitter has noted, in order**, are those of all methods that it has noted. -/
theorem Emitter.sortedMethods_eq (h : e.methods.Nodup) :
    e.sortedMethods = Method.all.filter fun method => e.methods.contains method := by
  have hperm : e.sortedMethods.Perm (Method.all.filter fun method => e.methods.contains method) := by
    refine (List.mergeSort_perm _ _).trans ?_
    rw [List.perm_ext_iff_of_nodup h (Method.nodup_all.filter _)]
    intro method
    simp [Method.mem_all]
  have hsorted : e.sortedMethods.Pairwise fun a b => a.name.le b.name = true := by
    refine List.pairwise_mergeSort ?_ ?_ e.methods
    · exact fun a b c => Text.le_trans
    · intro a b
      rw [Bool.or_eq_true]
      exact Text.le_total a.name b.name
  refine hperm.eq_of_pairwise ?_ hsorted (Method.pairwise_all.filter _)
  intro a b _ _ hab hba
  exact Method.name_injective (Text.eq_of_le hab hba)

theorem Emitter.nodup_methods_emit (e : Emitter) (width height : Measure) :
    (e.emit width height).1.methods.Nodup :=
  Emitter.nodup_methods_foldl_take List.nodup_nil

/-- An emitter that is used brings along the methods noted by its emission, and no others. -/
theorem Emitter.sortedMethods_emit (e : Emitter) (width height : Measure) :
    (e.emit width height).1.sortedMethods = usedMethods e.table.emit.trace := by
  rw [Emitter.sortedMethods_eq (e.nodup_methods_emit width height), usedMethods]
  refine List.filter_congr fun method _ => ?_
  rw [Bool.eq_iff_iff, List.contains_iff_mem, List.contains_iff_mem, Emitter.mem_methods_emit]

end Emitters

end LogoLang
