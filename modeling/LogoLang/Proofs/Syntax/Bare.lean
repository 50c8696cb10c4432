import LogoLang.Program.FunctionTable

set_option autoImplicit false

/-! # Trees without places

Two trees that are read from differently spaced lines differ in the places of their parts only. The
bare form of a tree has every place moved to the start of the line and keeps everything else, the
numbers of the lines included. -/

namespace LogoLang

/-! ## Expressions and labels -/

/-- The empty place at the start of a line. -/
def Span.nowhere : Span := ⟨0, 0⟩

/-- A flaw without its place. -/
def Flaw.bare (flaw : Flaw) : Flaw := ⟨flaw.kind, .nowhere⟩

/-- An expression without its places. -/
def Expr.bare : Expr → Expr
  | .truth value _ => .truth value .nowhere
  | .number value _ => .number value .nowhere
  | .var name _ => .var name .nowhere
  | .malformed flaw => .malformed flaw.bare
  | .binary op left right _ => .binary op left.bare right.bare .nowhere
  | .query q _ => .query q .nowhere

/-- A label without its place. -/
def Label.bare : Label → Label
  | .named name _ => .named name .nowhere
  | .malformed flaw => .malformed flaw.bare

theorem Expr.firstFlaw?_bare (e : Expr) : e.bare.firstFlaw? = e.firstFlaw?.map Flaw.bare := by
  induction e with
  | truth | number | var | malformed | query => rfl
  | binary op left right span ihl ihr =>
    rw [Expr.bare, Expr.firstFlaw?, ihl, ihr, Expr.firstFlaw?]
    cases left.firstFlaw? <;> rfl

theorem Label.flaw?_bare (label : Label) : label.bare.flaw? = label.flaw?.map Flaw.bare := by
  cases label <;> rfl

/-- A label whose bare form is a name is that name at some place. -/
theorem Label.exists_named_of_bare {label : Label} {name : Text}
    (h : label.bare = .named name .nowhere) : ∃ span, label = .named name span := by
  cases label with
  | named name' span =>
    cases h
    exact ⟨span, rfl⟩
  | malformed flaw => exact absurd h (by simp [Label.bare])

/-! ## Statements and tables -/

mutual

/-- A statement without its places. -/
def Stmt.bare : Stmt → Stmt
  | .block kind condition body line => .block kind condition.bare (bareBody body) line
  | .assign kind target value line => .assign kind target.bare value.bare line
  | .pen down line => .pen down line
  | .command cmd value line => .command cmd value.bare line
  | .call name args line => .call name.bare (args.map Expr.bare) line
  | .comment text line => .comment text line

/-- The statements of a body without their places. -/
def bareBody : List Stmt → List Stmt
  | [] => []
  | stmt :: rest => stmt.bare :: bareBody rest

end

/-- The flaw of a statement is found at another place only. -/
theorem Stmt.firstFlaw?_bare (stmt : Stmt) :
    stmt.bare.firstFlaw? = stmt.firstFlaw?.map Flaw.bare := by
  cases stmt with
  | block kind condition body line => exact Expr.firstFlaw?_bare condition
  | assign kind target value line =>
    rw [Stmt.bare, Stmt.firstFlaw?, Label.flaw?_bare, Expr.firstFlaw?_bare, ← Option.map_or]
    rfl
  | pen down line => rfl
  | command cmd value line => exact Expr.firstFlaw?_bare value
  | call name args line =>
    have hargs : (args.map Expr.bare).findSome? Expr.firstFlaw? =
        (args.findSome? Expr.firstFlaw?).map Flaw.bare := by
      rw [List.findSome?_map, List.map_findSome?]
      congr 1
      funext e
      exact Expr.firstFlaw?_bare e
    rw [Stmt.bare, Stmt.firstFlaw?, Label.flaw?_bare, hargs, ← Option.map_or]
    rfl
  | comment text line => rfl

theorem bareBody_append (body more : List Stmt) :
    bareBody (body ++ more) = bareBody body ++ bareBody more := by
  induction body with
  | nil => rfl
  | cons stmt rest ih => rw [List.cons_append, bareBody, bareBody, ih, List.cons_append]

/-- A function without the places in it. -/
def Function.bare (f : Function) : Function := ⟨f.params.map Label.bare, bareBody f.body⟩

/-- A function with its name, without the places in it. -/
def bareEntry (entry : Text × Function) : Text × Function := (entry.1, entry.2.bare)

/-- A table without the places in its functions. -/
def FunctionTable.bare (table : FunctionTable) : FunctionTable := ⟨table.entries.map bareEntry⟩

end LogoLang
