import LogoLang.Proofs.Number.Single
import LogoLang.Proofs.Syntax.Nodes

set_option autoImplicit false

/-! # The number literals of a statement

A number literal stands for a number of single precision, and reading puts no other number into a
tree (`literalsSingle_of_readStmt?`). -/

namespace LogoLang

/-- The number literals of an expression are of single precision. -/
def Expr.LiteralsSingle (expr : Expr) : Prop :=
  ∀ x span, .number x span ∈ expr.nodes → IsSingle x

/-- The number literals on the line of a statement are of single precision. -/
def Stmt.LiteralsSingle (stmt : Stmt) : Prop := ∀ expr ∈ stmt.exprs, expr.LiteralsSingle

/-! ## Expressions -/

theorem Expr.literalsSingle_malformed (flaw : Flaw) : (Expr.malformed flaw).LiteralsSingle := by
  simp [Expr.LiteralsSingle, Expr.nodes]

theorem Expr.literalsSingle_number {x : Float} (hx : IsSingle x) (span : Span) :
    (Expr.number x span).LiteralsSingle := by
  intro y span' hmem
  cases List.mem_singleton.1 hmem
  exact hx

theorem Expr.LiteralsSingle.binary {left right : Expr} (hleft : left.LiteralsSingle)
    (hright : right.LiteralsSingle) (op : BinaryOp) (span : Span) :
    (Expr.binary op left right span).LiteralsSingle := by
  intro x span' hmem
  simp only [Expr.nodes, List.mem_cons, List.mem_append, reduceCtorEq, false_or] at hmem
  rcases hmem with hmem | hmem
  · exact hleft x span' hmem
  · exact hright x span' hmem

theorem literalsSingle_of_readNumberLiteral? {c after : Cursor} {expr : Expr}
    (h : readNumberLiteral? c = some (expr, after)) : expr.LiteralsSingle := by
  simp only [readNumberLiteral?] at h
  split at h
  · split at h
    · exact absurd h (by simp)
    · cases h
      split
      · next value hvalue =>
        exact Expr.literalsSingle_number (isSingle_of_singleOfLiteral? hvalue) _
      · exact Expr.literalsSingle_malformed _
  · exact absurd h (by simp)

theorem literalsSingle_of_readLeafBefore? {c after : Cursor} {expr : Expr}
    (h : readLeafBefore? c = some (expr, after)) : expr.LiteralsSingle := by
  simp only [readLeafBefore?, Option.or_eq_some_iff] at h
  rcases h with h | ⟨_, h | ⟨_, h⟩⟩
  · simp only [readTruth?, Option.map_eq_some_iff, Prod.exists] at h
    obtain ⟨value, span, after', _, hexpr⟩ := h
    cases hexpr
    simp [Expr.LiteralsSingle, Expr.nodes]
  · exact literalsSingle_of_readNumberLiteral? h
  · simp only [readVariable?] at h
    split at h
    · split at h
      · exact absurd h (by simp)
      · cases h
        split
        · simp [Expr.LiteralsSingle, Expr.nodes]
        · exact Expr.literalsSingle_malformed _
    · exact absurd h (by simp)

theorem literalsSingle_of_readLeafAfter? {c after : Cursor} {expr : Expr}
    (h : readLeafAfter? c = some (expr, after)) : expr.LiteralsSingle := by
  simp only [readLeafAfter?, Option.or_eq_some_iff] at h
  rcases h with h | ⟨_, h⟩
  · simp only [readQuery?, Option.map_eq_some_iff, Prod.exists] at h
    obtain ⟨query, span, after', _, hexpr⟩ := h
    cases hexpr
    simp [Expr.LiteralsSingle, Expr.nodes]
  · simp only [readUnexpected?] at h
    split at h
    · exact absurd h (by simp)
    · cases h
      exact Expr.literalsSingle_malformed _

theorem literalsSingle_orMissing {c : Cursor} {read? : Option (Expr × Cursor)}
    (h : ∀ expr after, read? = some (expr, after) → expr.LiteralsSingle) :
    (orMissing c read?).1.LiteralsSingle := by
  cases read? with
  | some result => exact h result.1 result.2 rfl
  | none => exact Expr.literalsSingle_malformed _

theorem literalsSingle_of_readExprWith? {fuel : Nat} {c after : Cursor} {expr : Expr}
    (h : readExprWith? fuel c = some (expr, after)) : expr.LiteralsSingle := by
  induction fuel generalizing c after expr with
  | zero => simp [readExprWith?] at h
  | succ fuel ih =>
    rw [readExprWith?] at h
    split at h
    · next result hleaf =>
      cases h
      exact literalsSingle_of_readLeafBefore? hleaf
    · split at h
      · cases h
        exact (literalsSingle_orMissing fun _ _ => ih).binary
          (literalsSingle_orMissing fun _ _ => ih) _ _
      · exact literalsSingle_of_readLeafAfter? h

theorem literalsSingle_readExprsWith (fuel : Nat) (c : Cursor) :
    ∀ expr ∈ (readExprsWith fuel c).1, expr.LiteralsSingle := by
  induction fuel generalizing c with
  | zero => simp [readExprsWith]
  | succ fuel ih =>
    rw [readExprsWith]
    split
    · simp
    · next expr c₁ hexpr =>
      exact List.forall_mem_cons.2 ⟨literalsSingle_of_readExprWith? hexpr, ih c₁⟩

/-! ## Statements -/

theorem literalsSingle_readOperand (c : Cursor) : (readOperand c).1.LiteralsSingle := by
  rw [readOperand]
  cases hread : readExpr? c with
  | some result => exact literalsSingle_of_readExprWith? hread
  | none => exact Expr.literalsSingle_malformed _

/-- **The number literals of a statement that is read are of single precision.** -/
theorem literalsSingle_of_readStmt? {text : Text} {line : Nat} {stmt : Stmt} {c : Cursor}
    (h : readStmt? text line = some (stmt, c)) : stmt.LiteralsSingle := by
  simp only [readStmt?] at h
  split at h
  · next form span c₁ hform =>
    have hread : form.read c₁ line = (stmt, c) := Option.some.inj h
    cases form with
    | block | assign | command =>
      cases hread
      exact List.forall_mem_singleton.2 (literalsSingle_readOperand _)
    | pen =>
      cases hread
      simp [Stmt.LiteralsSingle, Stmt.exprs]
  · simp only [readCall?, Option.map_eq_some_iff, Prod.exists] at h
    obtain ⟨name, c₁, _, hstmt⟩ := h
    cases hstmt
    exact literalsSingle_readExprsWith _ c₁

end LogoLang
