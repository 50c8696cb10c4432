import LogoLang.Proofs.Syntax.Nodes

set_option autoImplicit false

/-! # Other line numbers and more comments

Where a line stands and what is said in comments is no part of what a program does. `Stmt.renumber`
changes the numbers of the lines in a tree and nothing else. `BodyGrows` relates a body to one that
has other line numbers and, anywhere in it, comments more; it is the relation under which the runs
and the emitted code of two programs are compared. -/

namespace LogoLang

/-! ## Renumbered trees -/

mutual

/-- A statement with the numbers of its lines changed. -/
def Stmt.renumber (σ : Nat → Nat) : Stmt → Stmt
  | .block kind condition body line => .block kind condition (renumberBody σ body) (σ line)
  | .assign kind target value line => .assign kind target value (σ line)
  | .pen down line => .pen down (σ line)
  | .command cmd value line => .command cmd value (σ line)
  | .call name args line => .call name args (σ line)
  | .comment text line => .comment text (σ line)

/-- The statements of a body with the numbers of their lines changed. -/
def renumberBody (σ : Nat → Nat) : List Stmt → List Stmt
  | [] => []
  | stmt :: rest => stmt.renumber σ :: renumberBody σ rest

end

theorem renumberBody_append (σ : Nat → Nat) (body more : List Stmt) :
    renumberBody σ (body ++ more) = renumberBody σ body ++ renumberBody σ more := by
  induction body with
  | nil => rfl
  | cons stmt rest ih => rw [List.cons_append, renumberBody, renumberBody, ih, List.cons_append]

mutual

theorem Stmt.renumber_id (stmt : Stmt) : stmt.renumber id = stmt := by
  cases stmt with
  | block kind condition body line => rw [Stmt.renumber, renumberBody_id body, id]
  | assign | pen | command | call | comment => rfl

theorem renumberBody_id (body : List Stmt) : renumberBody id body = body := by
  cases body with
  | nil => rfl
  | cons stmt rest => rw [renumberBody, stmt.renumber_id, renumberBody_id rest]

end

@[simp]
theorem Stmt.line_renumber (σ : Nat → Nat) (stmt : Stmt) :
    (stmt.renumber σ).line = σ stmt.line := by
  cases stmt <;> rfl

@[simp]
theorem Stmt.isBlock_renumber (σ : Nat → Nat) (stmt : Stmt) :
    (stmt.renumber σ).isBlock = stmt.isBlock := by
  cases stmt <;> rfl

@[simp]
theorem Stmt.firstFlaw?_renumber (σ : Nat → Nat) (stmt : Stmt) :
    (stmt.renumber σ).firstFlaw? = stmt.firstFlaw? := by
  cases stmt <;> rfl

/-- What is read from a line depends on where it stands in its line number only. -/
theorem readStmt?_renumber (σ : Nat → Nat) (text : Text) (index : Nat) :
    readStmt? text (σ index) =
      (readStmt? text index).map fun result => (result.1.renumber σ, result.2) := by
  simp only [readStmt?]
  cases (Cursor.start text).oneOf? stmtKeywords with
  | some result =>
    obtain ⟨form, span, c⟩ := result
    cases form <;> rfl
  | none =>
    simp only [readCall?, Option.map_map]
    rfl

theorem readStmt?_eq_some_renumber {σ : Nat → Nat} {text : Text} {index : Nat} {stmt : Stmt}
    {c : Cursor} (h : readStmt? text index = some (stmt, c)) :
    readStmt? text (σ index) = some (stmt.renumber σ, c) := by
  rw [readStmt?_renumber, h]
  rfl

/-! ## Renumbered functions and tables -/

/-- A function with the numbers of the lines in its body changed. -/
def Function.renumber (σ : Nat → Nat) (f : Function) : Function :=
  ⟨f.params, renumberBody σ f.body⟩

/-- A function with its name, the numbers of the lines in its body changed. -/
def renumberEntry (σ : Nat → Nat) (entry : Text × Function) : Text × Function :=
  (entry.1, entry.2.renumber σ)

/-- A table with the numbers of all lines changed. -/
def FunctionTable.renumber (σ : Nat → Nat) (table : FunctionTable) : FunctionTable :=
  ⟨table.entries.map (renumberEntry σ)⟩

/-! ## Bodies that grow -/

/-- The second body is the first one with the numbers of its lines changed and with comments more, at
    any depth. The list has the texts of these comments in their order. -/
inductive BodyGrows (σ : Nat → Nat) : List Text → List Stmt → List Stmt → Prop where
  | nil : BodyGrows σ [] [] []
  | leaf {texts : List Text} {stmt : Stmt} {rest rest' : List Stmt} (hleaf : stmt.isBlock = false)
      (hrest : BodyGrows σ texts rest rest') :
      BodyGrows σ texts (stmt :: rest) (stmt.renumber σ :: rest')
  | block {inner texts : List Text} {kind : BlockKind} {condition : Expr}
      {body body' rest rest' : List Stmt} {line : Nat} (hbody : BodyGrows σ inner body body')
      (hrest : BodyGrows σ texts rest rest') :
      BodyGrows σ (inner ++ texts) (.block kind condition body line :: rest)
        (.block kind condition body' (σ line) :: rest')
  | comment {texts : List Text} {text : Text} {line : Nat} {rest rest' : List Stmt}
      (hrest : BodyGrows σ texts rest rest') :
      BodyGrows σ (text :: texts) rest (.comment text line :: rest')

/-- The second body has grown from the first one by some comments. -/
def BodyGrown (σ : Nat → Nat) (body body' : List Stmt) : Prop :=
  ∃ texts, BodyGrows σ texts body body'

/-- The second function has the parameters of the first one and a body that has grown from its body. -/
structure FunctionGrown (σ : Nat → Nat) (f g : Function) : Prop where
  params : g.params = f.params
  body : BodyGrown σ f.body g.body

/-- The second list has functions of the same names in the same order, with bodies that have grown. The
    list has the texts of all the comments that there are more. -/
inductive EntriesGrow (σ : Nat → Nat) :
    List Text → List (Text × Function) → List (Text × Function) → Prop where
  | nil : EntriesGrow σ [] [] []
  | cons {inner texts : List Text} {body body' : List Stmt} {rest rest' : List (Text × Function)}
      (name : Text) (params : List Label) (hbody : BodyGrows σ inner body body')
      (hrest : EntriesGrow σ texts rest rest') :
      EntriesGrow σ (inner ++ texts) ((name, ⟨params, body⟩) :: rest)
        ((name, ⟨params, body'⟩) :: rest')

theorem BodyGrows.append {σ : Nat → Nat} {texts texts' : List Text}
    {body body' more more' : List Stmt} (h : BodyGrows σ texts body body')
    (hmore : BodyGrows σ texts' more more') :
    BodyGrows σ (texts ++ texts') (body ++ more) (body' ++ more') := by
  induction h with
  | nil => exact hmore
  | leaf hleaf _ ih => exact .leaf hleaf ih
  | block hbody _ _ ih =>
    rw [List.append_assoc]
    exact .block hbody ih
  | comment _ ih => exact .comment ih

theorem EntriesGrow.append {σ : Nat → Nat} {texts texts' : List Text}
    {entries entries' more more' : List (Text × Function)} (h : EntriesGrow σ texts entries entries')
    (hmore : EntriesGrow σ texts' more more') :
    EntriesGrow σ (texts ++ texts') (entries ++ more) (entries' ++ more') := by
  induction h with
  | nil => exact hmore
  | cons name params hbody _ ih =>
    rw [List.append_assoc]
    exact .cons name params hbody ih

mutual

theorem Stmt.grows_renumber (σ : Nat → Nat) (stmt : Stmt) :
    BodyGrows σ [] [stmt] [stmt.renumber σ] := by
  cases stmt with
  | block kind condition body line => exact .block (bodyGrows_renumber σ body) .nil
  | assign | pen | command | call | comment => exact .leaf rfl .nil

/-- A renumbered body has grown, by no comment at all. -/
theorem bodyGrows_renumber (σ : Nat → Nat) (body : List Stmt) :
    BodyGrows σ [] body (renumberBody σ body) := by
  cases body with
  | nil => exact .nil
  | cons stmt rest => exact (stmt.grows_renumber σ).append (bodyGrows_renumber σ rest)

end

theorem bodyGrows_refl (body : List Stmt) : BodyGrows id [] body body := by
  have h := bodyGrows_renumber id body
  rwa [renumberBody_id] at h

/-- The comments of the given texts on a line. -/
def commentsAt (line : Nat) (texts : List Text) : List Stmt := texts.map (Stmt.comment · line)

/-- A body of comments has grown from nothing. -/
theorem bodyGrows_comments (σ : Nat → Nat) (texts : List Text) (line : Nat) :
    BodyGrows σ texts [] (commentsAt line texts) := by
  induction texts with
  | nil => exact .nil
  | cons text rest ih => exact .comment ih

/-- What has grown from a renumbered body has grown from the body. -/
theorem BodyGrows.of_renumber {σ : Nat → Nat} {texts : List Text} {body renumbered body' : List Stmt}
    (h : BodyGrows id texts renumbered body') (hbody : renumbered = renumberBody σ body) :
    BodyGrows σ texts body body' := by
  induction h generalizing body with
  | nil =>
    cases body with
    | nil => exact .nil
    | cons stmt rest => exact absurd hbody (by simp [renumberBody])
  | leaf hleaf _ ih =>
    cases body with
    | nil => exact absurd hbody (by simp [renumberBody])
    | cons stmt rest =>
      obtain ⟨rfl, hrest⟩ := List.cons.inj hbody
      rw [Stmt.renumber_id]
      exact .leaf (by simpa using hleaf) (ih hrest)
  | block _ _ ihBody ih =>
    cases body with
    | nil => exact absurd hbody (by simp [renumberBody])
    | cons stmt rest =>
      obtain ⟨hstmt, hrest⟩ := List.cons.inj hbody
      cases stmt with
      | block kind condition inner line =>
        obtain ⟨rfl, rfl, hinner, rfl⟩ := Stmt.block.inj hstmt
        exact .block (ihBody hinner) (ih hrest)
      | assign | pen | command | call | comment => exact absurd hstmt (by simp [Stmt.renumber])
  | comment _ ih => exact .comment (ih hbody)

theorem EntriesGrow.of_renumber {σ : Nat → Nat} {texts : List Text}
    {entries renumbered entries' : List (Text × Function)} (h : EntriesGrow id texts renumbered entries')
    (hentries : renumbered = entries.map (renumberEntry σ)) :
    EntriesGrow σ texts entries entries' := by
  induction h generalizing entries with
  | nil =>
    cases entries with
    | nil => exact .nil
    | cons entry rest => exact absurd hentries (by simp)
  | cons name params hbody _ ih =>
    cases entries with
    | nil => exact absurd hentries (by simp)
    | cons entry rest =>
      obtain ⟨hentry, hrest⟩ := List.cons.inj hentries
      obtain ⟨rfl, hfunction⟩ := Prod.mk.inj hentry
      obtain ⟨rfl, hbodies⟩ := Function.mk.inj hfunction
      exact .cons _ _ (hbody.of_renumber hbodies) (ih hrest)

theorem entriesGrow_refl (entries : List (Text × Function)) : EntriesGrow id [] entries entries := by
  induction entries with
  | nil => exact .nil
  | cons entry rest ih => exact .cons entry.1 entry.2.params (bodyGrows_refl entry.2.body) ih

theorem entriesGrow_renumber (σ : Nat → Nat) (entries : List (Text × Function)) :
    EntriesGrow σ [] entries (entries.map (renumberEntry σ)) :=
  (entriesGrow_refl _).of_renumber rfl

end LogoLang
