import LogoLang.Program.FunctionTable
import LogoLang.Proofs.Syntax.Statement

set_option autoImplicit false

/-! # The parts of a tree

The nodes of an expression, the labels and expressions on the line of a statement, and the statements
inside a statement. `firstFlaw?` finds a flaw exactly if some part is malformed, so a tree without one
is well formed in every part (`Stmt.WellFormed`) once the names that it holds are names. -/

namespace LogoLang

/-! ## Nodes of expressions -/

/-- The nodes of an expression, each one before its operands. -/
def Expr.nodes : Expr → List Expr
  | .binary op left right span => .binary op left right span :: (left.nodes ++ right.nodes)
  | expr => [expr]

theorem Expr.self_mem_nodes (expr : Expr) : expr ∈ expr.nodes := by
  cases expr <;> simp [Expr.nodes]

theorem Expr.forall_mem_nodes_binary {motive : Expr → Prop} {op : BinaryOp} {left right : Expr}
    {span : Span} :
    (∀ node ∈ (Expr.binary op left right span).nodes, motive node) ↔
      motive (.binary op left right span) ∧ (∀ node ∈ left.nodes, motive node) ∧
        ∀ node ∈ right.nodes, motive node := by
  rw [Expr.nodes, List.forall_mem_cons, List.forall_mem_append]

/-- The places of the nodes of an expression. -/
def Expr.spans (expr : Expr) : List Span := expr.nodes.map Expr.span

theorem Expr.span_mem_spans (expr : Expr) : expr.span ∈ expr.spans :=
  List.mem_map_of_mem expr.self_mem_nodes

theorem Expr.spans_binary (op : BinaryOp) (left right : Expr) (span : Span) :
    (Expr.binary op left right span).spans = span :: (left.spans ++ right.spans) := by
  rw [Expr.spans, Expr.nodes, List.map_cons, List.map_append]
  rfl

theorem Expr.malformed_mem_nodes {expr : Expr} {flaw : Flaw} (h : expr.firstFlaw? = some flaw) :
    .malformed flaw ∈ expr.nodes := by
  induction expr with
  | malformed flaw' =>
    rw [Option.some.inj h]
    exact Expr.self_mem_nodes _
  | binary op left right span ihleft ihright =>
    rw [Expr.nodes, List.mem_cons, List.mem_append]
    rw [Expr.firstFlaw?, Option.or_eq_some_iff] at h
    rcases h with h | ⟨_, h⟩
    · exact Or.inr (Or.inl (ihleft h))
    · exact Or.inr (Or.inr (ihright h))
  | truth | number | var | query => simp [Expr.firstFlaw?] at h

/-- An expression none of whose nodes is malformed. -/
def Expr.IsErrorFree (expr : Expr) : Prop := ∀ flaw, .malformed flaw ∉ expr.nodes

theorem Expr.isErrorFree_binary {op : BinaryOp} {left right : Expr} {span : Span} :
    (Expr.binary op left right span).IsErrorFree ↔ left.IsErrorFree ∧ right.IsErrorFree := by
  simp only [Expr.IsErrorFree, Expr.nodes, List.mem_cons, List.mem_append, reduceCtorEq, false_or,
    not_or, forall_and]

theorem Expr.not_isErrorFree_malformed (flaw : Flaw) : ¬ (Expr.malformed flaw).IsErrorFree :=
  fun h => h flaw (Expr.self_mem_nodes _)

theorem Expr.isErrorFree_iff {expr : Expr} : expr.IsErrorFree ↔ expr.firstFlaw? = none := by
  induction expr with
  | malformed flaw => simp [Expr.not_isErrorFree_malformed, Expr.firstFlaw?]
  | binary op left right span ihleft ihright =>
    rw [Expr.isErrorFree_binary, ihleft, ihright, Expr.firstFlaw?, Option.or_eq_none_iff]
  | truth | number | var | query => simp [Expr.IsErrorFree, Expr.nodes, Expr.firstFlaw?]

/-- An error-free expression whose variables have proper names. -/
structure Expr.WellFormed (expr : Expr) : Prop where
  errorFree : expr.IsErrorFree
  names : ∀ name span, .var name span ∈ expr.nodes → isValidName name = true

/-! ## Labels -/

/-- A label that is a proper name. -/
def Label.IsName (label : Label) : Prop :=
  ∃ name span, label = .named name span ∧ isValidName name = true

theorem Label.eq_malformed {label : Label} {flaw : Flaw} (h : label.flaw? = some flaw) :
    label = .malformed flaw := by
  cases label with
  | named name span => simp [Label.flaw?] at h
  | malformed flaw' => rw [Option.some.inj h]

/-! ## Parts of statements -/

/-- The labels on the line of a statement. -/
def Stmt.labels : Stmt → List Label
  | .assign _ target _ _ => [target]
  | .call name _ _ => [name]
  | .block .. | .pen .. | .command .. | .comment .. => []

/-- The expressions on the line of a statement. -/
def Stmt.exprs : Stmt → List Expr
  | .block _ condition _ _ => [condition]
  | .assign _ _ value _ => [value]
  | .command _ value _ => [value]
  | .call _ args _ => args
  | .pen .. | .comment .. => []

/-- The places of a statement's parts: of its labels, and of the nodes of its expressions. -/
def Stmt.spans (stmt : Stmt) : List Span :=
  stmt.labels.map Label.span ++ stmt.exprs.flatMap Expr.spans

theorem Stmt.span_mem_of_label {stmt : Stmt} {label : Label} (h : label ∈ stmt.labels) :
    label.span ∈ stmt.spans :=
  List.mem_append_left _ (List.mem_map_of_mem h)

theorem Stmt.spans_subset {stmt : Stmt} {expr : Expr} (h : expr ∈ stmt.exprs) :
    ∀ span ∈ expr.spans, span ∈ stmt.spans :=
  fun _ hspan => List.mem_append_right _ (List.mem_flatMap.2 ⟨expr, h, hspan⟩)

/-- A statement all of whose labels are names and all of whose expressions are well formed. The
    statements of its body are not looked at. -/
structure Stmt.WellFormed (stmt : Stmt) : Prop where
  labels : ∀ label ∈ stmt.labels, label.IsName
  exprs : ∀ expr ∈ stmt.exprs, expr.WellFormed

/-- The flaw of a statement is that of one of its parts. -/
theorem Stmt.malformed_mem {stmt : Stmt} {flaw : Flaw} (h : stmt.firstFlaw? = some flaw) :
    .malformed flaw ∈ stmt.labels ∨ ∃ expr ∈ stmt.exprs, .malformed flaw ∈ expr.nodes := by
  cases stmt with
  | block kind condition body line =>
    exact Or.inr ⟨condition, by simp [Stmt.exprs], Expr.malformed_mem_nodes h⟩
  | command cmd value line =>
    exact Or.inr ⟨value, by simp [Stmt.exprs], Expr.malformed_mem_nodes h⟩
  | assign kind target value line =>
    rw [Stmt.firstFlaw?, Option.or_eq_some_iff] at h
    rcases h with h | ⟨_, h⟩
    · exact Or.inl (by simp [Stmt.labels, Label.eq_malformed h])
    · exact Or.inr ⟨_, by simp [Stmt.exprs], Expr.malformed_mem_nodes h⟩
  | call name args line =>
    rw [Stmt.firstFlaw?, Option.or_eq_some_iff] at h
    rcases h with h | ⟨_, h⟩
    · exact Or.inl (by simp [Stmt.labels, Label.eq_malformed h])
    · obtain ⟨arg, hmem, harg⟩ := List.exists_of_findSome?_eq_some h
      exact Or.inr ⟨arg, hmem, Expr.malformed_mem_nodes harg⟩
  | pen | comment => simp [Stmt.firstFlaw?] at h

theorem Stmt.firstFlaw?_eq_none_iff {stmt : Stmt} :
    stmt.firstFlaw? = none ↔
      (∀ label ∈ stmt.labels, label.flaw? = none) ∧ ∀ expr ∈ stmt.exprs, expr.IsErrorFree := by
  cases stmt <;>
    simp [Stmt.firstFlaw?, Stmt.labels, Stmt.exprs, Expr.isErrorFree_iff, Option.or_eq_none_iff,
      List.findSome?_eq_none_iff]

/-- The flaw of a heading is that of its name or of one of its parameters. -/
theorem Decl.malformed_mem {decl : Decl} {flaw : Flaw} (h : decl.firstFlaw? = some flaw) :
    .malformed flaw ∈ decl.name :: decl.params := by
  rw [Decl.firstFlaw?, Option.or_eq_some_iff] at h
  rcases h with h | ⟨_, h⟩
  · simp [Label.eq_malformed h]
  · obtain ⟨param, hmem, hparam⟩ := List.exists_of_findSome?_eq_some h
    rw [← Label.eq_malformed hparam]
    exact List.mem_cons_of_mem _ hmem

theorem Decl.firstFlaw?_eq_none_iff {decl : Decl} :
    decl.firstFlaw? = none ↔ ∀ label ∈ decl.name :: decl.params, label.flaw? = none := by
  simp [Decl.firstFlaw?, Option.or_eq_none_iff, List.findSome?_eq_none_iff]

/-! ## Statements inside statements -/

mutual

/-- A statement and those of its body, at any depth. -/
def Stmt.all : Stmt → List Stmt
  | .block kind condition body line => .block kind condition body line :: allStmts body
  | .assign kind target value line => [.assign kind target value line]
  | .pen down line => [.pen down line]
  | .command cmd value line => [.command cmd value line]
  | .call name args line => [.call name args line]
  | .comment text line => [.comment text line]

/-- The statements of a body, at any depth. -/
def allStmts : List Stmt → List Stmt
  | [] => []
  | stmt :: rest => stmt.all ++ allStmts rest

end

theorem Stmt.self_mem_all (stmt : Stmt) : stmt ∈ stmt.all := by
  cases stmt <;> simp [Stmt.all]

theorem allStmts_append (body more : List Stmt) :
    allStmts (body ++ more) = allStmts body ++ allStmts more := by
  induction body with
  | nil => rfl
  | cons stmt rest ih => rw [List.cons_append, allStmts, allStmts, ih, List.append_assoc]

theorem allStmts_concat (body : List Stmt) (stmt : Stmt) :
    allStmts (body ++ [stmt]) = allStmts body ++ stmt.all := by
  rw [allStmts_append, allStmts, allStmts, List.append_nil]

theorem Stmt.all_of_leaf {stmt : Stmt} (hleaf : stmt.isBlock = false) : stmt.all = [stmt] := by
  cases stmt <;> first | rfl | simp [Stmt.isBlock] at hleaf

/-- A statement with its body left out. -/
def Stmt.withoutBody : Stmt → Stmt
  | .block kind condition _ line => .block kind condition [] line
  | stmt => stmt

/-- The statements of a table, at any depth. -/
def FunctionTable.stmts (table : FunctionTable) : List Stmt :=
  table.entries.flatMap fun entry => allStmts entry.2.body

end LogoLang
