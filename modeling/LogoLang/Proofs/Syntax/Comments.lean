import LogoLang.Proofs.Syntax.Renumbering

set_option autoImplicit false

/-! # Comments of a program

A body is its part that is no comment (`withoutComments`) with its comments (`bodyComments`) among the
statements: it has grown from the one by the others (`bodyGrows_withoutComments`). -/

namespace LogoLang

/-- The text of a statement that is a comment. -/
def Stmt.comment? : Stmt → Option Text
  | .comment text _ => some text
  | .block .. | .assign .. | .pen .. | .command .. | .call .. => none

/-- The texts of the comments of a body, at any depth, in their order. -/
def bodyComments (body : List Stmt) : List Text := (allStmts body).filterMap Stmt.comment?

mutual

/-- A statement without the comments in its body. -/
def Stmt.withoutComments : Stmt → Stmt
  | .block kind condition body line => .block kind condition (LogoLang.withoutComments body) line
  | .assign kind target value line => .assign kind target value line
  | .pen down line => .pen down line
  | .command cmd value line => .command cmd value line
  | .call name args line => .call name args line
  | .comment text line => .comment text line

/-- A body without its comments, at any depth. -/
def withoutComments : List Stmt → List Stmt
  | [] => []
  | .comment _ _ :: rest => withoutComments rest
  | stmt :: rest => stmt.withoutComments :: withoutComments rest

end

theorem bodyComments_append (body more : List Stmt) :
    bodyComments (body ++ more) = bodyComments body ++ bodyComments more := by
  rw [bodyComments, allStmts_append, List.filterMap_append]
  rfl

theorem bodyComments_block (kind : BlockKind) (condition : Expr) (body rest : List Stmt)
    (line : Nat) : bodyComments (.block kind condition body line :: rest) =
      bodyComments body ++ bodyComments rest := by
  simp [bodyComments, allStmts, Stmt.all, List.filterMap_cons, Stmt.comment?]

theorem bodyComments_leaf {stmt : Stmt} (hleaf : stmt.isBlock = false) (rest : List Stmt) :
    bodyComments (stmt :: rest) = stmt.comment?.toList ++ bodyComments rest := by
  rw [bodyComments, allStmts, Stmt.all_of_leaf hleaf, List.singleton_append, List.filterMap_cons]
  cases stmt.comment? <;> rfl

theorem withoutComments_append (body more : List Stmt) :
    withoutComments (body ++ more) = withoutComments body ++ withoutComments more := by
  induction body with
  | nil => rfl
  | cons stmt rest ih => cases stmt <;> simp [withoutComments, ih]

theorem withoutComments_block (kind : BlockKind) (condition : Expr) (body rest : List Stmt)
    (line : Nat) : withoutComments (.block kind condition body line :: rest) =
      .block kind condition (withoutComments body) line :: withoutComments rest := by
  simp [withoutComments, Stmt.withoutComments]

/-- **A body is what is left without its comments, with these comments more.** -/
theorem bodyGrows_withoutComments (body : List Stmt) :
    BodyGrows id (bodyComments body) (withoutComments body) body := by
  cases body with
  | nil => exact .nil
  | cons stmt rest =>
    have hrest := bodyGrows_withoutComments rest
    cases stmt with
    | block kind condition body line =>
      rw [bodyComments_block]
      exact .block (bodyGrows_withoutComments body) hrest
    | comment text line =>
      rw [bodyComments_leaf rfl]
      exact .comment hrest
    | assign | pen | command | call =>
      rw [bodyComments_leaf rfl]
      exact .leaf rfl hrest

/-! ## Tables -/

/-- An entry without the comments in its body. -/
def entryWithoutComments (entry : Text × Function) : Text × Function :=
  (entry.1, ⟨entry.2.params, withoutComments entry.2.body⟩)

/-- A table without comments. -/
def FunctionTable.withoutComments (table : FunctionTable) : FunctionTable :=
  ⟨table.entries.map entryWithoutComments⟩

/-- The texts of the comments of a table. -/
def FunctionTable.comments (table : FunctionTable) : List Text :=
  table.stmts.filterMap Stmt.comment?

theorem FunctionTable.comments_eq (table : FunctionTable) :
    table.comments = table.entries.flatMap fun entry => bodyComments entry.2.body :=
  List.filterMap_flatMap

theorem entriesGrow_withoutComments (entries : List (Text × Function)) :
    EntriesGrow id (entries.flatMap fun entry => bodyComments entry.2.body)
      (entries.map entryWithoutComments) entries := by
  induction entries with
  | nil => exact .nil
  | cons entry rest ih => exact .cons _ _ (bodyGrows_withoutComments entry.2.body) ih

/-- **A table is what is left without its comments, with these comments more.** -/
theorem FunctionTable.entriesGrow (table : FunctionTable) :
    EntriesGrow id table.comments table.withoutComments.entries table.entries := by
  rw [table.comments_eq]
  exact entriesGrow_withoutComments table.entries

theorem FunctionTable.names_withoutComments (table : FunctionTable) :
    table.withoutComments.names = table.names := by
  simp [FunctionTable.names, Bindings.names, FunctionTable.withoutComments, entryWithoutComments]

end LogoLang
