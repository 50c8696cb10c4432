import LogoLang.Proofs.Program.CommentLines
import LogoLang.Proofs.Program.LineView
import LogoLang.Proofs.Program.Provenance
import LogoLang.Proofs.Syntax.Outline

set_option autoImplicit false

/-! # Outlines of programs

The outline of a statement or a heading that was built from lines without a line feed is faithful: it
has one line for each node, and two of them are equal exactly if the nodes have the same shape, that is
if they differ in places and line numbers only (`outline_eq_iff_shape_eq`). This holds of what is read
from a line, flaws included, and of the statements of an assembled table at any depth. -/

namespace LogoLang

/-! ## Nodes -/

/-- A statement or a heading. -/
inductive SyntaxNode where
  | statement (stmt : Stmt)
  | heading (decl : Decl)

/-- The outline of a node. -/
def SyntaxNode.outline (indent : Text) : SyntaxNode → Text
  | .statement stmt => stmt.outline indent
  | .heading decl => decl.outline indent

/-- The number of nodes of a tree. -/
def SyntaxNode.nodeCount : SyntaxNode → Nat
  | .statement stmt => stmt.nodeCount
  | .heading decl => decl.nodeCount

/-- A node without its places and line numbers. -/
def SyntaxNode.shape : SyntaxNode → SyntaxNode
  | .statement stmt => .statement stmt.shape
  | .heading decl => .heading decl.shape

/-- The rows of a node. -/
def SyntaxNode.toTree : SyntaxNode → OutlineTree
  | .statement stmt => stmt.toTree
  | .heading decl => decl.toTree

theorem SyntaxNode.outline_eq_write (indent : Text) (node : SyntaxNode) :
    node.outline indent = node.toTree.write indent 0 := by
  cases node with
  | statement stmt => exact stmt.outlineAt_eq_write indent 0
  | heading decl => exact decl.outline_eq_write indent

theorem SyntaxNode.toTree_inj {node node' : SyntaxNode} :
    node.toTree = node'.toTree ↔ node.shape = node'.shape := by
  cases node with
  | statement stmt =>
    cases node' with
    | statement stmt' => simp [toTree, shape, Stmt.toTree_inj]
    | heading decl' => simp [toTree, shape, stmt.toTree_ne_decl decl']
  | heading decl =>
    cases node' with
    | statement stmt' => simp [toTree, shape, (stmt'.toTree_ne_decl decl).symm]
    | heading decl' => simp [toTree, shape, Decl.toTree_inj]

theorem SyntaxNode.length_rows (node : SyntaxNode) :
    (node.toTree.rows 0).length = node.nodeCount := by
  cases node with
  | statement stmt => exact stmt.length_rows 0
  | heading decl => exact decl.length_rows 0

/-! ## Where nodes come from -/

/-- The nodes that reading and assembling lines build: the statement or the heading that is read from a
line, and the statements of the assembled table at any depth. -/
inductive SyntaxNode.BuiltFrom (lines : List Text) : SyntaxNode → Prop where
  | statement {line : Text} {index : Nat} {stmt : Stmt} {c : Cursor} (hline : line ∈ lines)
      (hread : readStmt? line index = some (stmt, c)) : SyntaxNode.BuiltFrom lines (.statement stmt)
  | heading {line : Text} {decl : Decl} {c : Cursor} (hline : line ∈ lines)
      (hread : readDecl? line = some (decl, c)) : SyntaxNode.BuiltFrom lines (.heading decl)
  | assembled {table : FunctionTable} {stmt : Stmt} (h : assemble lines = .ok table)
      (hmem : stmt ∈ table.stmts) : SyntaxNode.BuiltFrom lines (.statement stmt)

/-- The names of a statement that is read are proper names, and it is no comment. -/
theorem Stmt.oneLine_of_readStmt? {line : Text} {index : Nat} {stmt : Stmt} {c : Cursor}
    (h : readStmt? line index = some (stmt, c)) : stmt.OneLine := by
  have hplaced := (readFrom_of_readStmt? h).placed
  refine ⟨fun label hlabel name span heq => ?_, fun e he name span hvar => ?_, ?_⟩
  · exact (oneRow_of_isValidName ((hplaced.labels label hlabel).name name span heq)).not_mem
  · exact (oneRow_of_isValidName ((hplaced.nodes e he _ hvar).name name span rfl)).not_mem
  · simp [comment?_of_readStmt? h]

theorem lineProperty_oneLine {lines : List Text} (hlines : ∀ line ∈ lines, '\n' ∉ line) :
    LineProperty lines Stmt.OneLine where
  comment index line text hline hshape := by
    refine ⟨by simp [Stmt.labels], by simp [Stmt.exprs], ?_⟩
    rintro _ ⟨⟩ hmem
    exact hlines line (List.mem_of_getElem? hline) (LineShape.mem_of_comment hshape hmem)
  read _ _ _ _ _ hread _ := Stmt.oneLine_of_readStmt? hread
  close _ _ h := ⟨h.labels, h.vars, h.comment⟩

mutual

/-- The statements inside a statement of a statement are inside the latter. -/
theorem Stmt.mem_all_trans (stmt : Stmt) {mid inner : Stmt} (hmid : mid ∈ stmt.all)
    (hinner : inner ∈ mid.all) : inner ∈ stmt.all := by
  cases stmt with
  | block kind condition body line =>
    rcases List.mem_cons.1 hmid with rfl | hbody
    · exact hinner
    · exact List.mem_cons_of_mem _ (mem_allStmts_trans body hbody hinner)
  | assign | pen | command | call | comment =>
    obtain rfl := List.mem_singleton.1 hmid
    exact hinner

theorem mem_allStmts_trans (body : List Stmt) {mid inner : Stmt} (hmid : mid ∈ allStmts body)
    (hinner : inner ∈ mid.all) : inner ∈ allStmts body := by
  cases body with
  | nil => exact absurd hmid List.not_mem_nil
  | cons stmt rest =>
    rcases List.mem_append.1 hmid with hstmt | hrest
    · exact List.mem_append_left _ (stmt.mem_all_trans hstmt hinner)
    · exact List.mem_append_right _ (mem_allStmts_trans rest hrest hinner)

end

theorem FunctionTable.mem_stmts_trans {table : FunctionTable} {mid inner : Stmt}
    (hmid : mid ∈ table.stmts) (hinner : inner ∈ mid.all) : inner ∈ table.stmts := by
  obtain ⟨entry, hentry, hmid⟩ := List.mem_flatMap.1 hmid
  exact List.mem_flatMap.2 ⟨entry, hentry, mem_allStmts_trans entry.2.body hmid hinner⟩

/-- A statement that is read has no body yet. -/
theorem Stmt.all_of_readStmt? {line : Text} {index : Nat} {stmt : Stmt} {c : Cursor}
    (h : readStmt? line index = some (stmt, c)) : stmt.all = [stmt] := by
  cases stmt with
  | block kind condition body lineIndex =>
    obtain ⟨rfl, -⟩ := readStmt?_block h
    rfl
  | assign | pen | command | call | comment => rfl

/-- **The rows of what is built take up one line each.** -/
theorem SyntaxNode.BuiltFrom.oneLine {lines : List Text} {node : SyntaxNode}
    (hlines : ∀ line ∈ lines, '\n' ∉ line) (h : node.BuiltFrom lines) : node.toTree.OneLine := by
  cases h with
  | statement hline hread =>
    refine Stmt.oneLine_toTree _ ?_
    rw [Stmt.all_of_readStmt? hread, List.forall_mem_singleton]
    exact Stmt.oneLine_of_readStmt? hread
  | heading hline hread =>
    refine Decl.oneLine_toTree fun label hlabel name span heq => ?_
    have hplaced := (readFrom_of_readDecl? hread).placed label hlabel
    exact (oneRow_of_isValidName (hplaced.name name span heq)).not_mem
  | assembled h hmem =>
    refine Stmt.oneLine_toTree _ fun inner hinner => ?_
    exact (lineProperty_oneLine hlines).of_assemble h inner (FunctionTable.mem_stmts_trans hmem hinner)

/-! ## Faithful outlines -/

/-- **Outlines are faithful.** Two nodes that were built from lines without a line feed have the same
outline exactly if they have the same shape, and an outline has one line for each node. -/
theorem outline_eq_iff_shape_eq {lines lines' : List Text} {node node' : SyntaxNode}
    (hlines : ∀ line ∈ lines, '\n' ∉ line) (hlines' : ∀ line ∈ lines', '\n' ∉ line)
    (h : node.BuiltFrom lines) (h' : node'.BuiltFrom lines') :
    (node.outline defaultIndent = node'.outline defaultIndent ↔ node.shape = node'.shape) ∧
    ∃ rows : List Text, rows.length = node.nodeCount ∧ (∀ row ∈ rows, '\n' ∉ row) ∧
      node.outline defaultIndent = rows.flatMap (· ++ ['\n']) := by
  have hone := h.oneLine hlines
  refine ⟨?_, (node.toTree.rows 0).map (indentedRow defaultIndent), ?_, ?_, ?_⟩
  · rw [← SyntaxNode.toTree_inj, SyntaxNode.outline_eq_write, SyntaxNode.outline_eq_write]
    exact ⟨OutlineTree.write_inj isIndent_default hone (h'.oneLine hlines'), fun heq => by rw [heq]⟩
  · rw [List.length_map, node.length_rows]
  · exact List.forall_mem_map.2 fun entry hentry =>
      not_mem_indentedRow isIndent_default (hone 0 entry hentry)
  · rw [node.outline_eq_write, List.flatMap_map]
    rfl

/-- A line that is read on its own has the outline of the same line, spaced in another way, inside a
block. -/
theorem outline_eq_iff_shape_eq_spaced :
    SyntaxNode.BuiltFrom ["FORWARD :x".toList]
      (.statement (.command .forward (.var ['x'] ⟨8, 2⟩) 0)) ∧
    SyntaxNode.BuiltFrom ["IF \"TRUE [".toList, " FORWARD  :x".toList, "]".toList]
      (.statement (.command .forward (.var ['x'] ⟨10, 2⟩) 1)) ∧
    SyntaxNode.outline defaultIndent (.statement (.command .forward (.var ['x'] ⟨8, 2⟩) 0)) =
      SyntaxNode.outline defaultIndent (.statement (.command .forward (.var ['x'] ⟨10, 2⟩) 1)) := by
  have hread : readStmt? "FORWARD :x".toList 0 =
      some (.command .forward (.var ['x'] ⟨8, 2⟩) 0, ⟨10, []⟩) := by rfl
  have hassemble : assemble ["IF \"TRUE [".toList, " FORWARD  :x".toList, "]".toList] =
      .ok ⟨[(mainName, ⟨[], [.block .branch (.truth true ⟨3, 5⟩)
        [.command .forward (.var ['x'] ⟨10, 2⟩) 1] 0]⟩)]⟩ := by rfl
  have hline := SyntaxNode.BuiltFrom.statement (List.mem_singleton_self _) hread
  have hblock := SyntaxNode.BuiltFrom.assembled hassemble
    (List.mem_cons_of_mem _ List.mem_cons_self)
  exact ⟨hline, hblock,
    (outline_eq_iff_shape_eq (by decide) (by decide) hline hblock).1.2 (by rfl)⟩

end LogoLang
