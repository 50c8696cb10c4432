import LogoLang.Emit.Module
import LogoLang.Proofs.Emit.Types

set_option autoImplicit false

/-! # Statements that are emitted

`Stmt.Checked` says what the emission of a statement asks of its parts, and `Stmt.scopeAfter` what it
makes of the scope (`Stmt.checked_of_emit`). An emission that fails has come to some statement, with
the scope that it had there, and fails for a part of this very statement (`EmitsTo`,
`exists_failing_stmt`), whose line it names. -/

namespace LogoLang

/-! ## Accepted expressions and labels -/

section Expressions

variable {scope : Scope}

theorem Expr.typeIn_of_emitTruth {expr : Expr} {text : Text}
    (h : (expr.emitTruth scope).result = .ok text) : expr.typeIn scope = some true := by
  rw [Expr.emitTruth, Traced.bind_eq_ok_iff] at h
  obtain ⟨code, hcode, h⟩ := h
  split at h
  · next htruth =>
    rw [Expr.typeIn_of_emit hcode, htruth]
  · exact absurd h (by simp)

theorem Expr.typeIn_of_emitNumber {expr : Expr} {text : Text}
    (h : (expr.emitNumber scope).result = .ok text) : expr.typeIn scope = some false := by
  rw [Expr.emitNumber, Traced.bind_eq_ok_iff] at h
  obtain ⟨code, hcode, h⟩ := h
  split at h
  · exact absurd h (by simp)
  · next htruth =>
    rw [Expr.typeIn_of_emit hcode, Bool.eq_false_iff.2 htruth]

theorem typeIn_of_emitNumbers {args : List Expr} {texts : List Text}
    (h : (emitNumbers scope args).result = .ok texts) :
    ∀ arg ∈ args, arg.typeIn scope = some false := by
  induction args generalizing texts with
  | nil => simp
  | cons arg rest ih =>
    simp only [emitNumbers, Traced.bind_eq_ok_iff] at h
    obtain ⟨text, htext, texts', hrest, _⟩ := h
    exact List.forall_mem_cons.2 ⟨Expr.typeIn_of_emitNumber htext, ih hrest⟩

theorem Label.emit_eq_ok_iff {label : Label} {name : Text} :
    label.emit.result = .ok name ↔ ∃ span, label = .named name span := by
  cases label with
  | named name' span => simp [Label.emit]
  | malformed flaw => simp [Label.emit]

end Expressions

/-! ## Accepted statements -/

/-- Only failures know of the line that an emission is placed in. -/
theorem Emitting.inLine_eq_ok_iff {α : Type} {line : Nat} {m : Emitting α} {a : α} :
    (m.inLine line).result = .ok a ↔ m.result = .ok a := by
  simp only [Emitting.inLine]
  cases m.result <;> simp [Except.mapError]

theorem Emitting.inLine_eq_error_iff {α : Type} {line : Nat} {m : Emitting α}
    {failure : EmitFailure} :
    (m.inLine line).result = .error failure ↔
      m.result = .error failure.fault ∧ failure.line = line := by
  simp only [Emitting.inLine]
  obtain ⟨fault, line'⟩ := failure
  cases m.result <;> simp [Except.mapError, eq_comm]

mutual

/-- The scope after a statement, through its body if it has one. -/
def Stmt.scopeAfter (scope : Scope) : Stmt → Scope
  | .block _ _ body _ => scopeAfterBody scope body
  | .assign .make (.named name _) value _ =>
    match value.typeIn scope with
    | some ty => Bindings.set scope name ty
    | none => scope
  | .assign .make (.malformed _) _ _ => scope
  | .assign .increase _ _ _ => scope
  | .pen _ _ => scope
  | .command _ _ _ => scope
  | .call _ _ _ => scope
  | .comment _ _ => scope

/-- The scope after the statements of a body. -/
def scopeAfterBody (scope : Scope) : List Stmt → Scope
  | [] => scope
  | stmt :: rest => scopeAfterBody (stmt.scopeAfter scope) rest

end

mutual

/-- What is asked of a statement that is to be emitted: operands of the right types, variables in
    scope, and calls with as many arguments as there are parameters. -/
def Stmt.Checked (table : FunctionTable) (scope : Scope) : Stmt → Prop
  | .block _ condition body _ => condition.typeIn scope = some true ∧ BodyChecked table scope body
  | .assign .make target value _ =>
    (∃ name span, target = .named name span) ∧ ∃ ty, value.typeIn scope = some ty
  | .assign .increase target value _ =>
    (∃ name span, target = .named name span ∧ Bindings.get? scope name = some false) ∧
      value.typeIn scope = some false
  | .pen _ _ => True
  | .command _ value _ => value.typeIn scope = some false
  | .call label args _ =>
    (∃ name span, label = .named name span ∧ table.arity? name = some args.length) ∧
      ∀ arg ∈ args, arg.typeIn scope = some false
  | .comment _ _ => True

/-- What is asked of the statements of a body, each in the scope that the ones before it leave. -/
def BodyChecked (table : FunctionTable) (scope : Scope) : List Stmt → Prop
  | [] => True
  | stmt :: rest => stmt.Checked table scope ∧ BodyChecked table (stmt.scopeAfter scope) rest

end

section Statements

variable {table : FunctionTable} {scope scope' : Scope} {depth : Nat}

theorem checked_of_emitAssign {kind : AssignKind} {target : Label} {value : Expr} {line : Nat}
    {text : Text} (h : (emitAssign scope kind target value).result = .ok (scope', text)) :
    (Stmt.assign kind target value line).Checked table scope ∧
      scope' = (Stmt.assign kind target value line).scopeAfter scope := by
  cases kind with
  | make =>
    simp only [emitAssign, Traced.bind_eq_ok_iff] at h
    obtain ⟨code, hcode, name, hname, h⟩ := h
    obtain ⟨span, rfl⟩ := Label.emit_eq_ok_iff.1 hname
    have htype := Expr.typeIn_of_emit hcode
    cases h
    refine ⟨⟨⟨name, span, rfl⟩, code.isTruth, htype⟩, ?_⟩
    simp only [Stmt.scopeAfter, htype]
  | increase =>
    simp only [emitAssign, Traced.bind_eq_ok_iff] at h
    obtain ⟨name, hname, h⟩ := h
    obtain ⟨span, rfl⟩ := Label.emit_eq_ok_iff.1 hname
    split at h
    · exact absurd h (by simp)
    · exact absurd h (by simp)
    · next hget =>
      obtain ⟨code, hcode, h⟩ := Traced.bind_eq_ok_iff.1 h
      cases h
      exact ⟨⟨⟨name, span, rfl, hget⟩, Expr.typeIn_of_emitNumber hcode⟩, rfl⟩

theorem checked_of_emitFunctionCall {label : Label} {args : List Expr} {line : Nat} {text : Text}
    (h : (emitFunctionCall table scope label args).result = .ok text) :
    (Stmt.call label args line).Checked table scope := by
  rw [emitFunctionCall, Traced.bind_eq_ok_iff] at h
  obtain ⟨name, hname, h⟩ := h
  obtain ⟨span, rfl⟩ := Label.emit_eq_ok_iff.1 hname
  split at h
  · exact absurd h (by simp)
  · next arity harity =>
    split at h
    · exact absurd h (by simp)
    · split at h
      · exact absurd h (by simp)
      · obtain ⟨codes, hcodes, _⟩ := Traced.bind_eq_ok_iff.1 h
        have hlength : arity = args.length := by omega
        exact ⟨⟨name, span, rfl, hlength ▸ harity⟩, typeIn_of_emitNumbers hcodes⟩

mutual

/-- **A statement that is emitted keeps to what is asked of it**, and leaves the scope that it says. -/
theorem Stmt.checked_of_emit {stmt : Stmt} {lines : List CodeLine} {scope scope' : Scope}
    {depth : Nat} (h : (stmt.emit table depth scope).result = .ok (scope', lines)) :
    stmt.Checked table scope ∧ scope' = stmt.scopeAfter scope := by
  cases stmt with
  | block kind condition body line =>
    simp only [Stmt.emit, Traced.bind_eq_ok_iff, Emitting.inLine_eq_ok_iff, Prod.exists] at h
    obtain ⟨code, hcode, scope₁, lines₁, hbody, h⟩ := h
    obtain ⟨hchecked, hscope⟩ := checked_of_emitBody hbody
    cases h
    exact ⟨⟨Expr.typeIn_of_emitTruth hcode, hchecked⟩, hscope⟩
  | assign kind target value line =>
    simp only [Stmt.emit, Traced.bind_eq_ok_iff, Emitting.inLine_eq_ok_iff, Prod.exists] at h
    obtain ⟨scope₁, text, hassign, h⟩ := h
    cases h
    exact checked_of_emitAssign hassign
  | pen down line =>
    simp only [Stmt.emit, Traced.bind_eq_ok_iff] at h
    obtain ⟨_, _, h⟩ := h
    cases h
    exact ⟨trivial, rfl⟩
  | command cmd value line =>
    simp only [Stmt.emit, Traced.bind_eq_ok_iff, Emitting.inLine_eq_ok_iff] at h
    obtain ⟨code, hcode, _, _, h⟩ := h
    cases h
    exact ⟨Expr.typeIn_of_emitNumber hcode, rfl⟩
  | call label args line =>
    simp only [Stmt.emit, Traced.bind_eq_ok_iff, Emitting.inLine_eq_ok_iff] at h
    obtain ⟨code, hcode, h⟩ := h
    cases h
    exact ⟨checked_of_emitFunctionCall hcode, rfl⟩
  | comment text line =>
    cases h
    exact ⟨trivial, rfl⟩

/-- The statements of a body keep to what is asked of them, one after the other. -/
theorem checked_of_emitBody {body : List Stmt} {lines : List CodeLine} {scope scope' : Scope}
    {depth : Nat} (h : (emitBody table depth scope body).result = .ok (scope', lines)) :
    BodyChecked table scope body ∧ scope' = scopeAfterBody scope body := by
  cases body with
  | nil =>
    cases h
    exact ⟨trivial, rfl⟩
  | cons stmt rest =>
    simp only [emitBody, Traced.bind_eq_ok_iff, Prod.exists] at h
    obtain ⟨scope₁, first, hfirst, scope₂, others, hrest, h⟩ := h
    obtain ⟨hstmt, rfl⟩ := Stmt.checked_of_emit hfirst
    obtain ⟨hbody, rfl⟩ := checked_of_emitBody hrest
    cases h
    exact ⟨⟨hstmt, hbody⟩, rfl⟩

end

end Statements

/-! ## Faults of a statement's own parts -/

section Faults

variable {table : FunctionTable} {scope : Scope} {fault : EmitFault}

theorem Expr.cites_of_emitNumber {expr : Expr} (hfree : expr.IsErrorFree)
    (h : (expr.emitNumber scope).result = .error fault) : fault.Cites expr.spans := by
  rw [Expr.emitNumber, Traced.bind_eq_error_iff] at h
  rcases h with h | ⟨code, _, h⟩
  · exact (Expr.refused_of_emit hfree h).1
  · split at h
    · cases h
      exact expr.span_mem_spans
    · exact absurd h (by simp)

theorem Expr.cites_of_emitTruth {expr : Expr} (hfree : expr.IsErrorFree)
    (h : (expr.emitTruth scope).result = .error fault) : fault.Cites expr.spans := by
  rw [Expr.emitTruth, Traced.bind_eq_error_iff] at h
  rcases h with h | ⟨code, _, h⟩
  · exact (Expr.refused_of_emit hfree h).1
  · split at h
    · exact absurd h (by simp)
    · cases h
      exact expr.span_mem_spans

theorem cites_of_emitNumbers {args : List Expr} (hfree : ∀ arg ∈ args, arg.IsErrorFree)
    (h : (emitNumbers scope args).result = .error fault) :
    fault.Cites (args.flatMap Expr.spans) := by
  induction args with
  | nil => exact absurd h (by simp [emitNumbers])
  | cons arg rest ih =>
    obtain ⟨harg, hrest⟩ := List.forall_mem_cons.1 hfree
    rw [List.flatMap_cons]
    simp only [emitNumbers, Traced.bind_eq_error_iff] at h
    rcases h with h | ⟨text, _, h | ⟨texts, _, h⟩⟩
    · exact (Expr.cites_of_emitNumber harg h).mono fun s hs => List.mem_append_left _ hs
    · exact (ih hrest h).mono fun s hs => List.mem_append_right _ hs
    · exact absurd h (by simp)

theorem Label.IsName.emit_ne_error {label : Label} (h : label.IsName) :
    label.emit.result ≠ .error fault := by
  obtain ⟨name, span, rfl, _⟩ := h
  simp [Label.emit]

theorem cites_of_emitAssign {kind : AssignKind} {target : Label} {value : Expr}
    (htarget : target.IsName) (hvalue : value.IsErrorFree)
    (h : (emitAssign scope kind target value).result = .error fault) :
    fault.Cites (target.span :: value.spans) := by
  have hsub : ∀ s ∈ value.spans, s ∈ target.span :: value.spans :=
    fun s hs => List.mem_cons_of_mem _ hs
  cases kind with
  | make =>
    simp only [emitAssign, Traced.bind_eq_error_iff] at h
    rcases h with h | ⟨code, _, h | ⟨name, _, h⟩⟩
    · exact (Expr.refused_of_emit hvalue h).1.mono hsub
    · exact absurd h htarget.emit_ne_error
    · exact absurd h (by simp)
  | increase =>
    simp only [emitAssign, Traced.bind_eq_error_iff] at h
    rcases h with h | ⟨name, _, h⟩
    · exact absurd h htarget.emit_ne_error
    · split at h
      · cases h
        exact List.mem_cons_self
      · cases h
        exact List.mem_cons_self
      · rcases Traced.bind_eq_error_iff.1 h with h | ⟨code, _, h⟩
        · exact (Expr.cites_of_emitNumber hvalue h).mono hsub
        · exact absurd h (by simp)

theorem cites_of_emitFunctionCall {label : Label} {args : List Expr} (hlabel : label.IsName)
    (hargs : ∀ arg ∈ args, arg.IsErrorFree)
    (h : (emitFunctionCall table scope label args).result = .error fault) :
    fault.Cites (label.span :: args.flatMap Expr.spans) := by
  rw [emitFunctionCall, Traced.bind_eq_error_iff] at h
  rcases h with h | ⟨name, _, h⟩
  · exact absurd h hlabel.emit_ne_error
  · split at h
    · cases h
      exact List.mem_cons_self
    · split at h
      · cases h
        exact List.mem_cons_self
      · split at h
        · cases h
          exact List.mem_cons_self
        · rcases Traced.bind_eq_error_iff.1 h with h | ⟨codes, _, h⟩
          · exact (cites_of_emitNumbers hargs h).mono fun s hs => List.mem_cons_of_mem _ hs
          · exact absurd h (by simp)

/-- The fault of a statement's own line, its body left out, is in that line, and if the statement is
    well formed it is a flaw at one of its parts. -/
theorem Stmt.cites_of_emit {stmt : Stmt} {depth : Nat} {failure : EmitFailure}
    (h : (stmt.withoutBody.emit table depth scope).result = .error failure) :
    failure.line = stmt.line ∧ (stmt.WellFormed → failure.fault.Cites stmt.spans) := by
  cases stmt with
  | block kind condition body line =>
    simp only [Stmt.withoutBody, Stmt.emit, emitBody, Traced.bind_eq_error_iff] at h
    rcases h with h | ⟨_, _, h | ⟨_, _, h⟩⟩
    · obtain ⟨hfault, hline⟩ := Emitting.inLine_eq_error_iff.1 h
      refine ⟨hline, fun hform => ?_⟩
      have hmem : condition ∈ (Stmt.block kind condition body line).exprs :=
        List.mem_singleton_self _
      exact (Expr.cites_of_emitTruth (hform.exprs _ hmem).errorFree hfault).mono
        (Stmt.spans_subset hmem)
    · exact absurd h (by simp)
    · exact absurd h (by simp)
  | assign kind target value line =>
    simp only [Stmt.withoutBody, Stmt.emit, Traced.bind_eq_error_iff] at h
    rcases h with h | ⟨_, _, h⟩
    · obtain ⟨hfault, hline⟩ := Emitting.inLine_eq_error_iff.1 h
      refine ⟨hline, fun hform => ?_⟩
      have hvalue : value ∈ (Stmt.assign kind target value line).exprs :=
        List.mem_singleton_self _
      have htarget : target ∈ (Stmt.assign kind target value line).labels :=
        List.mem_singleton_self _
      exact (cites_of_emitAssign (hform.labels _ htarget) (hform.exprs _ hvalue).errorFree
        hfault).mono
        (List.forall_mem_cons.2 ⟨Stmt.span_mem_of_label htarget, Stmt.spans_subset hvalue⟩)
    · exact absurd h (by simp)
  | pen down line =>
    simp only [Stmt.withoutBody, Stmt.emit, Traced.bind_eq_error_iff] at h
    rcases h with h | ⟨_, _, h⟩
    · exact absurd (Emitting.inLine_eq_error_iff.1 h).1 (by cases down <;> simp)
    · exact absurd h (by simp)
  | command cmd value line =>
    simp only [Stmt.withoutBody, Stmt.emit, Traced.bind_eq_error_iff] at h
    rcases h with h | ⟨_, _, h | ⟨_, _, h⟩⟩
    · obtain ⟨hfault, hline⟩ := Emitting.inLine_eq_error_iff.1 h
      refine ⟨hline, fun hform => ?_⟩
      have hmem : value ∈ (Stmt.command cmd value line).exprs := List.mem_singleton_self _
      exact (Expr.cites_of_emitNumber (hform.exprs _ hmem).errorFree hfault).mono
        (Stmt.spans_subset hmem)
    · exact absurd (Emitting.inLine_eq_error_iff.1 h).1 (by simp)
    · exact absurd h (by simp)
  | call label args line =>
    simp only [Stmt.withoutBody, Stmt.emit, Traced.bind_eq_error_iff] at h
    rcases h with h | ⟨_, _, h⟩
    · obtain ⟨hfault, hline⟩ := Emitting.inLine_eq_error_iff.1 h
      refine ⟨hline, fun hform => ?_⟩
      have hlabel := hform.labels label (List.mem_singleton_self _)
      have hargs : ∀ arg ∈ args, arg.IsErrorFree := fun arg harg => (hform.exprs arg harg).errorFree
      exact cites_of_emitFunctionCall hlabel hargs hfault
    · exact absurd h (by simp)
  | comment text line => exact absurd h (by simp [Stmt.withoutBody, Stmt.emit])

end Faults

/-! ## Where an emission fails -/

/-- The emission of a body from the first scope comes to the statement, with the second scope: what
    stands before it was emitted. -/
inductive EmitsTo (table : FunctionTable) : Scope → List Stmt → Scope → Stmt → Prop where
  | here {scope : Scope} {stmt : Stmt} {rest : List Stmt} :
      EmitsTo table scope (stmt :: rest) scope stmt
  | inside {scope scope' : Scope} {kind : BlockKind} {condition : Expr} {body rest : List Stmt}
      {line : Nat} {stmt : Stmt} {code : Text}
      (hcondition : (condition.emitTruth scope).result = .ok code)
      (hbody : EmitsTo table scope body scope' stmt) :
      EmitsTo table scope (.block kind condition body line :: rest) scope' stmt
  | later {scope mid scope' : Scope} {first stmt : Stmt} {rest : List Stmt} {depth : Nat}
      {lines : List CodeLine} (hfirst : (first.emit table depth scope).result = .ok (mid, lines))
      (hrest : EmitsTo table mid rest scope' stmt) :
      EmitsTo table scope (first :: rest) scope' stmt

section Failures

variable {table : FunctionTable}

/-- An emission comes to statements of the body, at any depth. -/
theorem EmitsTo.mem {scope scope' : Scope} {body : List Stmt} {stmt : Stmt}
    (h : EmitsTo table scope body scope' stmt) : stmt ∈ allStmts body := by
  induction h with
  | here => exact List.mem_append_left _ (Stmt.self_mem_all _)
  | inside _ _ ih => exact List.mem_append_left _ (List.mem_cons_of_mem _ ih)
  | later _ _ ih => exact List.mem_append_right _ ih

/-- A failure in a statement is one of its own line or one in its body. -/
theorem Stmt.emit_eq_error {stmt : Stmt} {scope : Scope} {depth : Nat} {failure : EmitFailure}
    (h : (stmt.emit table depth scope).result = .error failure) :
    (stmt.withoutBody.emit table depth scope).result = .error failure ∨
      ∃ kind condition body line code, stmt = .block kind condition body line ∧
        (condition.emitTruth scope).result = .ok code ∧
        (emitBody table (depth + 1) scope body).result = .error failure := by
  cases stmt with
  | block kind condition body line =>
    simp only [Stmt.emit, Traced.bind_eq_error_iff] at h
    rcases h with h | ⟨code, hcode, h | ⟨_, _, h⟩⟩
    · refine Or.inl ?_
      simp only [Stmt.withoutBody, Stmt.emit, Traced.bind_eq_error_iff]
      exact Or.inl h
    · exact Or.inr ⟨kind, condition, body, line, code, rfl, Emitting.inLine_eq_ok_iff.1 hcode, h⟩
    · exact absurd h (by simp)
  | assign | pen | command | call | comment => exact Or.inl h

mutual

theorem Stmt.exists_failing_stmt {stmt : Stmt} {rest : List Stmt} {scope : Scope} {depth : Nat}
    {failure : EmitFailure} (h : (stmt.emit table depth scope).result = .error failure) :
    ∃ scope' stmt' depth', EmitsTo table scope (stmt :: rest) scope' stmt' ∧
      (stmt'.withoutBody.emit table depth' scope').result = .error failure := by
  rcases Stmt.emit_eq_error h with hown | ⟨kind, condition, body, line, code, rfl, hcode, hbody⟩
  · exact ⟨scope, stmt, depth, .here, hown⟩
  · obtain ⟨scope', stmt', depth', hto, hfail⟩ := exists_failing_stmt hbody
    exact ⟨scope', stmt', depth', .inside hcode hto, hfail⟩

/-- **An emission that fails has come to a statement and fails in the line of that statement.** -/
theorem exists_failing_stmt {body : List Stmt} {scope : Scope} {depth : Nat}
    {failure : EmitFailure} (h : (emitBody table depth scope body).result = .error failure) :
    ∃ scope' stmt depth', EmitsTo table scope body scope' stmt ∧
      (stmt.withoutBody.emit table depth' scope').result = .error failure := by
  cases body with
  | nil => exact absurd h (by simp [emitBody])
  | cons first rest =>
    simp only [emitBody, Traced.bind_eq_error_iff, Prod.exists] at h
    rcases h with h | ⟨mid, lines, hfirst, h | ⟨_, _, _, h⟩⟩
    · exact first.exists_failing_stmt h
    · obtain ⟨scope', stmt, depth', hto, hfail⟩ := exists_failing_stmt h
      exact ⟨scope', stmt, depth', .later hfirst hto, hfail⟩
    · exact absurd h (by simp)

end

/-! ## Functions -/

theorem checked_of_emit {f : Function} {name code : Text}
    (h : (f.emit table name).result = .ok code) : BodyChecked table f.scope f.body := by
  rw [Function.emit, Traced.bind_eq_ok_iff] at h
  obtain ⟨lines, hlines, _⟩ := h
  rw [Function.emitLines, Traced.bind_eq_ok_iff] at hlines
  obtain ⟨⟨scope', lines'⟩, hbody, _⟩ := hlines
  exact (checked_of_emitBody hbody).1

theorem checked_of_emitFunctions {entries : List (Text × Function)} {codes : List Text}
    (h : (emitFunctions table entries).result = .ok codes) :
    ∀ entry ∈ entries, BodyChecked table entry.2.scope entry.2.body := by
  induction entries generalizing codes with
  | nil => simp
  | cons entry rest ih =>
    simp only [emitFunctions, Traced.bind_eq_ok_iff] at h
    obtain ⟨code, hcode, codes', hrest, _⟩ := h
    exact List.forall_mem_cons.2 ⟨checked_of_emit hcode, ih hrest⟩

/-- The functions of a table that is emitted are checked, each from the scope of its parameters. -/
theorem FunctionTable.checked_of_emit {codes : List Text} (h : table.emit.result = .ok codes) :
    ∀ entry ∈ table.entries, BodyChecked table entry.2.scope entry.2.body :=
  checked_of_emitFunctions h

theorem exists_failing_function {entries : List (Text × Function)} {failure : EmitFailure}
    (h : (emitFunctions table entries).result = .error failure) :
    ∃ before name f after, entries = before ++ (name, f) :: after ∧
      (∃ codes, (emitFunctions table before).result = .ok codes) ∧
      (emitBody table 1 f.scope f.body).result = .error failure := by
  induction entries with
  | nil => exact absurd h (by simp [emitFunctions])
  | cons entry rest ih =>
    obtain ⟨name, f⟩ := entry
    simp only [emitFunctions, Traced.bind_eq_error_iff] at h
    rcases h with h | ⟨code, hcode, h | ⟨_, _, h⟩⟩
    · refine ⟨[], name, f, rest, rfl, ⟨[], rfl⟩, ?_⟩
      simp only [Function.emit, Function.emitLines, Traced.bind_eq_error_iff] at h
      rcases h with (h | ⟨_, _, h⟩) | ⟨_, _, h | ⟨_, _, h⟩⟩
      · exact h
      · exact absurd h (by simp)
      · exact absurd h (by simp)
      · exact absurd h (by simp)
    · obtain ⟨before, name', f', after, rfl, ⟨codes, hbefore⟩, hbody⟩ := ih h
      refine ⟨(name, f) :: before, name', f', after, rfl, ⟨code :: codes, ?_⟩, hbody⟩
      simp only [emitFunctions, Traced.bind_eq_ok_iff]
      exact ⟨code, hcode, codes, hbefore, rfl⟩
    · exact absurd h (by simp)

end Failures

end LogoLang
