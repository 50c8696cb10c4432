import LogoLang.Proofs.Emit.OneRow
import LogoLang.Proofs.Number.ReadBack
import LogoLang.Proofs.Syntax.Bare
import LogoLang.Proofs.Syntax.Comments
import LogoLang.Proofs.Syntax.OutlineTree

set_option autoImplicit false

/-! # Outlines of syntax trees

The outline of a statement is the text of a tree of rows (`Stmt.outlineAt_eq_write`) with one row for
each node (`Stmt.length_rows`). Two statements have the same tree of rows exactly if they have the same
shape, that is if they differ in places and line numbers only (`Stmt.toTree_inj`). As long as the names
and comments of a statement have no line feed in them its rows take up one line each
(`Stmt.oneLine_toTree`). -/

namespace LogoLang

/-! ## Trees of rows -/

/-- The row of a flaw. -/
def Flaw.row (flaw : Flaw) : OutlineRow := ⟨.malformed, some flaw.kind.label⟩

/-- The rows of an expression. -/
def Expr.toTree : Expr → OutlineTree
  | .truth value _ => .node ⟨.truth, some (Text.ofBool value)⟩ []
  | .number value _ => .node ⟨.number, some (Text.ofDouble value)⟩ []
  | .var name _ => .node ⟨.variable, some name⟩ []
  | .malformed flaw => .node flaw.row []
  | .binary op left right _ => .node ⟨.operator op, none⟩ [left.toTree, right.toTree]
  | .query q _ => .node ⟨.query q, none⟩ []

/-- The row of a label. -/
def Label.toTree (cls : NodeClass) : Label → OutlineTree
  | .named name _ => .node ⟨cls, some name⟩ []
  | .malformed flaw => .node flaw.row []

mutual

/-- The rows of a statement. -/
def Stmt.toTree : Stmt → OutlineTree
  | .block kind condition body _ => .node ⟨.block kind, none⟩ (condition.toTree :: bodyTrees body)
  | .assign kind target value _ =>
    .node ⟨.assign kind, none⟩ [target.toTree .variable, value.toTree]
  | .pen down _ => .node ⟨.pen down, none⟩ []
  | .command cmd value _ => .node ⟨.command cmd, none⟩ [value.toTree]
  | .call name args _ => .node ⟨.call, none⟩ (name.toTree .functionName :: args.map Expr.toTree)
  | .comment text _ => .node ⟨.comment, some text⟩ []

/-- The rows of the statements of a body. -/
def bodyTrees : List Stmt → List OutlineTree
  | [] => []
  | stmt :: rest => stmt.toTree :: bodyTrees rest

end

/-- The rows of a heading. -/
def Decl.toTree (decl : Decl) : OutlineTree :=
  .node ⟨.heading, none⟩
    (decl.name.toTree .functionName :: decl.params.map (Label.toTree .variable))

/-! ## Outlines are written trees -/

section Write

variable (indent : Text) (depth : Nat)

theorem OutlineTree.write_node (row : OutlineRow) (children : List OutlineTree) :
    (OutlineTree.node row children).write indent depth =
      outlineLine indent depth row.cls.text row.ownText ++
        writeRows indent (rowsOf (depth + 1) children) := by
  rw [outlineLine_eq, ← writeRows_append]
  rfl

theorem OutlineTree.write_leaf (row : OutlineRow) :
    (OutlineTree.node row []).write indent depth =
      outlineLine indent depth row.cls.text row.ownText := by
  rw [OutlineTree.write_node]
  exact List.append_nil _

theorem writeRows_rowsOf (trees : List OutlineTree) :
    writeRows indent (rowsOf depth trees) = trees.flatMap (OutlineTree.write indent depth) := by
  induction trees with
  | nil => rfl
  | cons tree rest ih => rw [rowsOf, writeRows_append, ih, List.flatMap_cons, OutlineTree.write]

theorem Expr.outlineAt_eq_write (e : Expr) : e.outlineAt indent depth = e.toTree.write indent depth := by
  induction e generalizing depth with
  | binary op left right span ihleft ihright =>
    rw [toTree, OutlineTree.write_node, writeRows_rowsOf, Expr.outlineAt, ihleft, ihright,
      List.flatMap_cons, List.flatMap_singleton, ← List.append_assoc]
    rfl
  | _ =>
    rw [toTree, OutlineTree.write_leaf]
    rfl

theorem Label.outlineAt_eq_write (cls : NodeClass) (label : Label) :
    label.outlineAt indent depth cls.text = (label.toTree cls).write indent depth := by
  cases label with
  | named name span =>
    rw [toTree, OutlineTree.write_leaf]
    rfl
  | malformed flaw =>
    rw [toTree, OutlineTree.write_leaf]
    rfl

theorem flatMap_outlineAt {α : Type} {outline : α → Text} {toTree : α → OutlineTree}
    (h : ∀ a, outline a = (toTree a).write indent depth) (items : List α) :
    items.flatMap outline = (items.map toTree).flatMap (OutlineTree.write indent depth) := by
  rw [List.flatMap_map]
  exact List.flatMap_congr fun a _ => h a

mutual

theorem Stmt.outlineAt_eq_write (depth : Nat) (stmt : Stmt) :
    stmt.outlineAt indent depth = stmt.toTree.write indent depth := by
  cases stmt with
  | block kind condition body line =>
    rw [Stmt.outlineAt, Stmt.toTree, OutlineTree.write_node, writeRows_rowsOf,
      outlineBody_eq_write (depth + 1) body, Expr.outlineAt_eq_write, List.flatMap_cons,
      ← List.append_assoc]
    rfl
  | assign kind target value line =>
    rw [Stmt.outlineAt, Stmt.toTree, OutlineTree.write_node, writeRows_rowsOf, List.flatMap_cons,
      List.flatMap_singleton, ← List.append_assoc, ← Expr.outlineAt_eq_write,
      ← Label.outlineAt_eq_write]
    rfl
  | pen down line =>
    rw [Stmt.toTree, OutlineTree.write_leaf]
    rfl
  | command cmd value line =>
    rw [Stmt.outlineAt, Stmt.toTree, OutlineTree.write_node, writeRows_rowsOf, List.flatMap_singleton,
      ← Expr.outlineAt_eq_write]
    rfl
  | call name args line =>
    rw [Stmt.outlineAt, Stmt.toTree, OutlineTree.write_node, writeRows_rowsOf, List.flatMap_cons,
      ← List.append_assoc, ← Label.outlineAt_eq_write,
      ← flatMap_outlineAt indent (depth + 1) (Expr.outlineAt_eq_write indent (depth + 1))]
    rfl
  | comment text line =>
    rw [Stmt.toTree, OutlineTree.write_leaf]
    rfl

theorem outlineBody_eq_write (depth : Nat) (body : List Stmt) :
    outlineBody indent depth body = (bodyTrees body).flatMap (OutlineTree.write indent depth) := by
  cases body with
  | nil => rfl
  | cons stmt rest =>
    rw [outlineBody, Stmt.outlineAt_eq_write depth stmt, outlineBody_eq_write depth rest, bodyTrees,
      List.flatMap_cons]

end

theorem Decl.outline_eq_write (decl : Decl) : decl.outline indent = decl.toTree.write indent 0 := by
  rw [Decl.outline, toTree, OutlineTree.write_node, writeRows_rowsOf, List.flatMap_cons,
    ← List.append_assoc, ← Label.outlineAt_eq_write,
    ← flatMap_outlineAt indent 1 (Label.outlineAt_eq_write indent 1 .variable)]
  rfl

end Write

/-! ## The shape of a node -/

/-- A statement without its places and line numbers. -/
def Stmt.shape (stmt : Stmt) : Stmt := (stmt.renumber fun _ => 0).bare

/-- A heading without its places. -/
def Decl.shape (decl : Decl) : Decl := ⟨decl.name.bare, decl.params.map Label.bare⟩

theorem Text.ofBool_inj {b b' : Bool} : Text.ofBool b = Text.ofBool b' ↔ b = b' := by
  cases b <;> cases b' <;> decide

theorem ErrorKind.mem_all (kind : ErrorKind) : kind ∈ ErrorKind.all := by
  cases kind <;> decide

theorem ErrorKind.label_inj {kind kind' : ErrorKind} : kind.label = kind'.label ↔ kind = kind' := by
  have hnodup : (ErrorKind.all.map ErrorKind.label).Nodup := by decide +kernel
  refine ⟨List.inj_on_of_nodup_map hnodup kind.mem_all kind'.mem_all, congrArg _⟩

theorem Flaw.bare_inj {flaw flaw' : Flaw} : flaw.bare = flaw'.bare ↔ flaw.kind = flaw'.kind := by
  simp [Flaw.bare]

/-- **The rows of an expression determine it**, apart from its places. -/
theorem Expr.toTree_inj (e e' : Expr) : e.toTree = e'.toTree ↔ e.bare = e'.bare := by
  induction e generalizing e' with
  | binary op left right span ihleft ihright =>
    cases e' <;> simp [toTree, bare, Flaw.row, ihleft, ihright]
  | truth value span => cases e' <;> simp [toTree, bare, Flaw.row, Text.ofBool_inj]
  | number value span =>
    cases e' <;> simp [toTree, bare, Flaw.row, Text.ofDouble_injective.eq_iff]
  | malformed flaw =>
    cases e' <;> simp [toTree, bare, Flaw.row, Flaw.bare_inj, ErrorKind.label_inj]
  | var name span => cases e' <;> simp [toTree, bare, Flaw.row]
  | query q span => cases e' <;> simp [toTree, bare, Flaw.row]

theorem Label.toTree_inj {cls : NodeClass} (hcls : cls ≠ .malformed) (label label' : Label) :
    label.toTree cls = label'.toTree cls ↔ label.bare = label'.bare := by
  cases label <;> cases label' <;>
    simp [toTree, bare, Flaw.row, Flaw.bare_inj, ErrorKind.label_inj, hcls, hcls.symm]

/-- Two functions that tell the same things apart tell the same lists apart. -/
theorem map_eq_map_iff_of_forall {α β γ : Type} {f : α → β} {g : α → γ}
    (h : ∀ a b, f a = f b ↔ g a = g b) (l l' : List α) : l.map f = l'.map f ↔ l.map g = l'.map g := by
  induction l generalizing l' with
  | nil => cases l' <;> simp
  | cons a rest ih => cases l' <;> simp [h, ih]

mutual

/-- **The rows of a statement determine its shape.** -/
theorem Stmt.toTree_inj (stmt stmt' : Stmt) :
    stmt.toTree = stmt'.toTree ↔ stmt.shape = stmt'.shape := by
  cases stmt with
  | block kind condition body line =>
    cases stmt' with
    | block kind' condition' body' line' =>
      simp [Stmt.toTree, Stmt.shape, Stmt.renumber, Stmt.bare, Expr.toTree_inj,
        bodyTrees_inj body body']
    | _ => simp [Stmt.toTree, Stmt.shape, Stmt.renumber, Stmt.bare]
  | assign kind target value line =>
    cases stmt' <;> simp [Stmt.toTree, Stmt.shape, Stmt.renumber, Stmt.bare, Expr.toTree_inj,
      Label.toTree_inj]
  | pen down line => cases stmt' <;> simp [Stmt.toTree, Stmt.shape, Stmt.renumber, Stmt.bare]
  | command cmd value line =>
    cases stmt' <;> simp [Stmt.toTree, Stmt.shape, Stmt.renumber, Stmt.bare, Expr.toTree_inj]
  | call name args line =>
    cases stmt' <;> simp [Stmt.toTree, Stmt.shape, Stmt.renumber, Stmt.bare, Label.toTree_inj,
      map_eq_map_iff_of_forall Expr.toTree_inj]
  | comment text line => cases stmt' <;> simp [Stmt.toTree, Stmt.shape, Stmt.renumber, Stmt.bare]

theorem bodyTrees_inj (body body' : List Stmt) :
    bodyTrees body = bodyTrees body' ↔
      bareBody (renumberBody (fun _ => 0) body) = bareBody (renumberBody (fun _ => 0) body') := by
  cases body with
  | nil => cases body' <;> simp [bodyTrees, renumberBody, bareBody]
  | cons stmt rest =>
    cases body' with
    | nil => simp [bodyTrees, renumberBody, bareBody]
    | cons stmt' rest' =>
      simp only [bodyTrees, renumberBody, bareBody, List.cons.injEq, Stmt.toTree_inj stmt stmt',
        bodyTrees_inj rest rest', Stmt.shape]

end

theorem Decl.toTree_inj {decl decl' : Decl} :
    decl.toTree = decl'.toTree ↔ decl.shape = decl'.shape := by
  simp [toTree, shape, Label.toTree_inj,
    map_eq_map_iff_of_forall (Label.toTree_inj (by decide : NodeClass.variable ≠ .malformed))]

/-- The rows of a statement are not those of a heading. -/
theorem Stmt.toTree_ne_decl (stmt : Stmt) (decl : Decl) : stmt.toTree ≠ decl.toTree := by
  cases stmt <;> simp [Stmt.toTree, Decl.toTree]

/-! ## One row for each node -/

/-- The number of nodes on the line of a statement: the statement itself, its labels, and the nodes of
its expressions. -/
def Stmt.lineNodeCount (stmt : Stmt) : Nat :=
  1 + stmt.labels.length + (stmt.exprs.map fun e => e.nodes.length).sum

/-- The number of nodes of a statement, those of its body among them. -/
def Stmt.nodeCount (stmt : Stmt) : Nat := (stmt.all.map Stmt.lineNodeCount).sum

/-- The number of nodes of a heading. -/
def Decl.nodeCount (decl : Decl) : Nat := 1 + (decl.name :: decl.params).length

theorem length_rowsOf (depth : Nat) (trees : List OutlineTree) :
    (rowsOf depth trees).length = (trees.map fun tree => (tree.rows depth).length).sum := by
  induction trees with
  | nil => rfl
  | cons tree rest ih => rw [rowsOf, List.length_append, ih, List.map_cons, List.sum_cons]

theorem OutlineTree.length_rows (depth : Nat) (row : OutlineRow) (children : List OutlineTree) :
    ((OutlineTree.node row children).rows depth).length =
      1 + (children.map fun tree => (tree.rows (depth + 1)).length).sum := by
  rw [OutlineTree.rows, List.length_cons, length_rowsOf, Nat.add_comm]

theorem Expr.length_rows (depth : Nat) (e : Expr) : (e.toTree.rows depth).length = e.nodes.length := by
  induction e generalizing depth with
  | binary op left right span ihleft ihright =>
    simp [toTree, OutlineTree.length_rows, nodes, ihleft, ihright, Nat.add_comm]
  | _ => rfl

theorem Label.length_rows (depth : Nat) (cls : NodeClass) (label : Label) :
    ((label.toTree cls).rows depth).length = 1 := by
  cases label <;> rfl

mutual

theorem Stmt.length_rows (depth : Nat) (stmt : Stmt) :
    (stmt.toTree.rows depth).length = stmt.nodeCount := by
  cases stmt with
  | block kind condition body line =>
    have hbody := length_bodyTrees (depth + 1) body
    simp [Stmt.toTree, OutlineTree.length_rows, Expr.length_rows, hbody, Stmt.nodeCount, Stmt.all,
      Stmt.lineNodeCount, Stmt.labels, Stmt.exprs, Nat.add_assoc]
  | assign kind target value line =>
    simp [Stmt.toTree, OutlineTree.length_rows, Expr.length_rows, Label.length_rows, Stmt.nodeCount,
      Stmt.all, Stmt.lineNodeCount, Stmt.labels, Stmt.exprs]
    omega
  | pen down line => rfl
  | command cmd value line =>
    simp [Stmt.toTree, OutlineTree.length_rows, Expr.length_rows, Stmt.nodeCount, Stmt.all,
      Stmt.lineNodeCount, Stmt.labels, Stmt.exprs]
  | call name args line =>
    simp [Stmt.toTree, OutlineTree.length_rows, Expr.length_rows, Label.length_rows, Stmt.nodeCount,
      Stmt.all, Stmt.lineNodeCount, Stmt.labels, Stmt.exprs, Function.comp_def]
    omega
  | comment text line => rfl

theorem length_bodyTrees (depth : Nat) (body : List Stmt) :
    ((bodyTrees body).map fun tree => (tree.rows depth).length).sum =
      ((allStmts body).map Stmt.lineNodeCount).sum := by
  cases body with
  | nil => rfl
  | cons stmt rest =>
    rw [bodyTrees, allStmts, List.map_cons, List.sum_cons, List.map_append, List.sum_append,
      Stmt.length_rows depth stmt, length_bodyTrees depth rest, Stmt.nodeCount]

end

theorem Decl.length_rows (depth : Nat) (decl : Decl) :
    (decl.toTree.rows depth).length = decl.nodeCount := by
  simp [toTree, OutlineTree.length_rows, Label.length_rows, nodeCount, Function.comp_def, Nat.add_comm]

/-! ## One line for each row -/

theorem not_mem_ofBool (b : Bool) : '\n' ∉ Text.ofBool b := by
  cases b <;> decide

theorem not_mem_label (kind : ErrorKind) : '\n' ∉ kind.label := by
  cases kind <;> decide

theorem Text.OneRow.not_mem {t : Text} (h : t.OneRow) : '\n' ∉ t := fun hmem => (h _ hmem).1 rfl

theorem OutlineTree.OneLine.leaf {cls : NodeClass} {own : Text} (h : '\n' ∉ own) :
    (OutlineTree.node ⟨cls, some own⟩ []).OneLine := by
  refine OutlineTree.oneLine_node ?_ (by simp)
  rintro _ ⟨⟩
  exact h

theorem OutlineTree.OneLine.inner {cls : NodeClass} {children : List OutlineTree}
    (h : ∀ tree ∈ children, tree.OneLine) : (OutlineTree.node ⟨cls, none⟩ children).OneLine := by
  refine OutlineTree.oneLine_node ?_ h
  rintro _ ⟨⟩

theorem Expr.oneLine_toTree {e : Expr} (h : ∀ name span, .var name span ∈ e.nodes → '\n' ∉ name) :
    e.toTree.OneLine := by
  induction e with
  | truth value span => exact .leaf (not_mem_ofBool value)
  | number value span => exact .leaf (Text.isNumeral_ofDouble value).oneRow.not_mem
  | var name span => exact .leaf (h name span (Expr.self_mem_nodes _))
  | malformed flaw => exact .leaf (not_mem_label flaw.kind)
  | binary op left right span ihleft ihright =>
    refine .inner (List.forall_mem_cons.2 ⟨?_, List.forall_mem_singleton.2 ?_⟩)
    · exact ihleft fun name span hmem => h name span (by simp [Expr.nodes, hmem])
    · exact ihright fun name span hmem => h name span (by simp [Expr.nodes, hmem])
  | query q span => exact .inner (by simp)

theorem Label.oneLine_toTree {label : Label} (cls : NodeClass)
    (h : ∀ name span, label = .named name span → '\n' ∉ name) : (label.toTree cls).OneLine := by
  cases label with
  | named name span => exact .leaf (h name span rfl)
  | malformed flaw => exact .leaf (not_mem_label flaw.kind)

/-- The names on the line of a statement, and its text if it is a comment, do not go over a line. -/
structure Stmt.OneLine (stmt : Stmt) : Prop where
  labels : ∀ label ∈ stmt.labels, ∀ name span, label = .named name span → '\n' ∉ name
  vars : ∀ e ∈ stmt.exprs, ∀ name span, .var name span ∈ e.nodes → '\n' ∉ name
  comment : ∀ text, stmt.comment? = some text → '\n' ∉ text

mutual

/-- **The rows of a statement take up one line each** if its names and comments do. -/
theorem Stmt.oneLine_toTree (stmt : Stmt) (h : ∀ inner ∈ stmt.all, inner.OneLine) :
    stmt.toTree.OneLine := by
  have hself := h stmt stmt.self_mem_all
  have hexpr : ∀ e ∈ stmt.exprs, e.toTree.OneLine := fun e he => Expr.oneLine_toTree (hself.vars e he)
  have hlabel : ∀ cls, ∀ label ∈ stmt.labels, (label.toTree cls).OneLine :=
    fun cls label hmem => Label.oneLine_toTree cls (hself.labels label hmem)
  cases stmt with
  | block kind condition body line =>
    rw [Stmt.all, List.forall_mem_cons] at h
    refine .inner (List.forall_mem_cons.2 ⟨?_, oneLine_bodyTrees body h.2⟩)
    exact hexpr condition List.mem_cons_self
  | assign kind target value line =>
    refine .inner (List.forall_mem_cons.2 ⟨?_, List.forall_mem_singleton.2 ?_⟩)
    · exact hlabel _ target List.mem_cons_self
    · exact hexpr value List.mem_cons_self
  | pen down line => exact .inner (by simp)
  | command cmd value line => exact .inner (List.forall_mem_singleton.2 (hexpr value
      List.mem_cons_self))
  | call name args line =>
    refine .inner (List.forall_mem_cons.2 ⟨?_, List.forall_mem_map.2 hexpr⟩)
    exact hlabel _ name List.mem_cons_self
  | comment text line => exact .leaf (hself.comment text rfl)

theorem oneLine_bodyTrees (body : List Stmt) (h : ∀ inner ∈ allStmts body, inner.OneLine) :
    ∀ tree ∈ bodyTrees body, tree.OneLine := by
  cases body with
  | nil => simp [bodyTrees]
  | cons stmt rest =>
    rw [allStmts, List.forall_mem_append] at h
    exact List.forall_mem_cons.2 ⟨Stmt.oneLine_toTree stmt h.1, oneLine_bodyTrees rest h.2⟩

end

theorem Decl.oneLine_toTree {decl : Decl} (h : ∀ label ∈ decl.name :: decl.params,
    ∀ name span, label = .named name span → '\n' ∉ name) : decl.toTree.OneLine := by
  obtain ⟨hname, hparams⟩ := List.forall_mem_cons.1 h
  refine .inner (List.forall_mem_cons.2 ⟨Label.oneLine_toTree _ hname, ?_⟩)
  exact List.forall_mem_map.2 fun param hmem => Label.oneLine_toTree _ (hparams param hmem)

end LogoLang
