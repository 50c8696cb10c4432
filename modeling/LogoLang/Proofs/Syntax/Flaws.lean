import LogoLang.Syntax.Statement

set_option autoImplicit false

/-! # Flaws are problems inside a line

Whatever text is read, the flaws in the tree are about a name or about the grammar of an expression,
never about the structure of the program. -/

namespace LogoLang

/-- A flaw in a name or in an expression. -/
def Flaw.InLine (flaw : Flaw) : Prop :=
  flaw.kind.category = .naming ∨ flaw.kind.category = .grammar

/-! ## Expressions -/

/-- An expression whose first flaw, if it has one, is a problem inside the line. -/
def Expr.InLine (expr : Expr) : Prop := ∀ flaw, expr.firstFlaw? = some flaw → flaw.InLine

theorem Expr.inLine_malformed {flaw : Flaw} (h : flaw.InLine) : Expr.InLine (.malformed flaw) := by
  intro flaw' hflaw
  rw [← Option.some.inj hflaw]
  exact h

theorem Expr.inLine_of_firstFlaw? {expr : Expr} (h : expr.firstFlaw? = none) : expr.InLine := by
  intro flaw hflaw
  rw [h] at hflaw
  exact absurd hflaw (by simp)

theorem Expr.inLine_binary {op : BinaryOp} {left right : Expr} {span : Span} (hleft : left.InLine)
    (hright : right.InLine) : Expr.InLine (.binary op left right span) := by
  intro flaw hflaw
  rw [Expr.firstFlaw?, Option.or_eq_some_iff] at hflaw
  rcases hflaw with h | ⟨_, h⟩
  · exact hleft flaw h
  · exact hright flaw h

theorem inLine_of_readTruth? {c after : Cursor} {expr : Expr}
    (h : readTruth? c = some (expr, after)) : expr.InLine := by
  simp only [readTruth?, Option.map_eq_some_iff] at h
  obtain ⟨⟨value, span, c₁⟩, _, hexpr⟩ := h
  cases hexpr
  exact Expr.inLine_of_firstFlaw? rfl

theorem inLine_of_readNumberLiteral? {c after : Cursor} {expr : Expr}
    (h : readNumberLiteral? c = some (expr, after)) : expr.InLine := by
  simp only [readNumberLiteral?] at h
  split at h
  · split at h
    · exact absurd h (by simp)
    · cases h
      split
      · exact Expr.inLine_of_firstFlaw? rfl
      · exact Expr.inLine_malformed (Or.inr rfl)
  · exact absurd h (by simp)

theorem inLine_of_readVariable? {c after : Cursor} {expr : Expr}
    (h : readVariable? c = some (expr, after)) : expr.InLine := by
  simp only [readVariable?] at h
  split at h
  · split at h
    · exact absurd h (by simp)
    · cases h
      split
      · exact Expr.inLine_of_firstFlaw? rfl
      · exact Expr.inLine_malformed (Or.inl rfl)
  · exact absurd h (by simp)

theorem inLine_of_readLeafBefore? {c after : Cursor} {expr : Expr}
    (h : readLeafBefore? c = some (expr, after)) : expr.InLine := by
  simp only [readLeafBefore?, Option.or_eq_some_iff] at h
  rcases h with h | ⟨_, h | ⟨_, h⟩⟩
  · exact inLine_of_readTruth? h
  · exact inLine_of_readNumberLiteral? h
  · exact inLine_of_readVariable? h

theorem inLine_of_readLeafAfter? {c after : Cursor} {expr : Expr}
    (h : readLeafAfter? c = some (expr, after)) : expr.InLine := by
  simp only [readLeafAfter?, Option.or_eq_some_iff] at h
  rcases h with h | ⟨_, h⟩
  · simp only [readQuery?, Option.map_eq_some_iff] at h
    obtain ⟨⟨query, span, c₁⟩, _, hexpr⟩ := h
    cases hexpr
    exact Expr.inLine_of_firstFlaw? rfl
  · simp only [readUnexpected?] at h
    split at h
    · exact absurd h (by simp)
    · cases h
      exact Expr.inLine_malformed (Or.inr rfl)

theorem inLine_orMissing {c : Cursor} {read? : Option (Expr × Cursor)}
    (h : ∀ expr after, read? = some (expr, after) → expr.InLine) :
    (orMissing c read?).1.InLine := by
  cases read? with
  | none => exact Expr.inLine_malformed (Or.inr rfl)
  | some result => exact h result.1 result.2 rfl

/-- The flaws of an expression come from its leaves, at any depth. -/
theorem inLine_of_readExprWith? {fuel : Nat} {c after : Cursor} {expr : Expr}
    (h : readExprWith? fuel c = some (expr, after)) : expr.InLine := by
  induction fuel generalizing c after expr with
  | zero => simp [readExprWith?] at h
  | succ fuel ih =>
    rw [readExprWith?] at h
    split at h
    · next result hleaf =>
      cases h
      exact inLine_of_readLeafBefore? hleaf
    · split at h
      · cases h
        exact Expr.inLine_binary (inLine_orMissing fun _ _ => ih) (inLine_orMissing fun _ _ => ih)
      · exact inLine_of_readLeafAfter? h

theorem inLine_readExprs {c : Cursor} : ∀ expr ∈ (readExprs c).1, expr.InLine := by
  have hwith : ∀ (fuel : Nat) (c : Cursor), ∀ expr ∈ (readExprsWith fuel c).1, expr.InLine := by
    intro fuel
    induction fuel with
    | zero => simp [readExprsWith]
    | succ fuel ih =>
      intro c
      rw [readExprsWith]
      split
      · simp
      · next expr c₁ hexpr =>
        rw [List.forall_mem_cons]
        exact ⟨inLine_of_readExprWith? hexpr, ih c₁⟩
  exact hwith _ c

/-! ## Labels -/

/-- A label whose flaw, if it has one, is a problem inside the line. -/
def Label.InLine (label : Label) : Prop := ∀ flaw, label.flaw? = some flaw → flaw.InLine

theorem Label.inLine_malformed {flaw : Flaw} (h : flaw.InLine) :
    Label.InLine (.malformed flaw) := by
  intro flaw' hflaw
  rw [← Option.some.inj hflaw]
  exact h

theorem Label.inLine_ofName (name : Text) (span : Span) : (Label.ofName name span).InLine := by
  rw [Label.ofName]
  split
  · exact fun flaw hflaw => absurd hflaw (by simp [Label.flaw?])
  · exact Label.inLine_malformed (Or.inl rfl)

theorem inLine_of_readUnquoted? {c after : Cursor} {label : Label}
    (h : readUnquoted? c = some (label, after)) : label.InLine := by
  simp only [readUnquoted?] at h
  split at h
  · exact absurd h (by simp)
  · cases h
    exact Label.inLine_malformed (Or.inr rfl)

theorem inLine_of_readTarget? {c after : Cursor} {label : Label}
    (h : readTarget? c = some (label, after)) : label.InLine := by
  simp only [readTarget?] at h
  split at h
  · split at h
    · exact inLine_of_readUnquoted? h
    · cases h
      exact Label.inLine_ofName _ _
  · exact inLine_of_readUnquoted? h

theorem inLine_of_readFunctionName? {c after : Cursor} {label : Label}
    (h : readFunctionName? c = some (label, after)) : label.InLine := by
  simp only [readFunctionName?] at h
  split at h
  · exact absurd h (by simp)
  · cases h
    exact Label.inLine_ofName _ _

theorem inLine_readParams {c : Cursor} : ∀ label ∈ (readParams c).1, label.InLine := by
  have hwith : ∀ (fuel : Nat) (c : Cursor), ∀ label ∈ (readParamsWith fuel c).1, label.InLine := by
    intro fuel
    induction fuel with
    | zero => simp [readParamsWith]
    | succ fuel ih =>
      intro c
      rw [readParamsWith]
      split
      · simp
      · next label c₁ hlabel =>
        rw [List.forall_mem_cons]
        exact ⟨inLine_of_readTarget? hlabel, ih c₁⟩
  exact hwith _ c

/-! ## Statements and headings -/

theorem inLine_readOperand (c : Cursor) : (readOperand c).1.InLine := by
  rw [readOperand]
  cases hread : readExpr? c with
  | none => exact Expr.inLine_malformed (Or.inr rfl)
  | some result => exact inLine_of_readExprWith? hread

theorem inLine_readTarget (c : Cursor) : (readTarget c).1.InLine := by
  rw [readTarget]
  cases hread : readTarget? c with
  | none => exact Label.inLine_malformed (Or.inr rfl)
  | some result => exact inLine_of_readTarget? hread

/-- **The flaw of a statement is a problem inside its line.** -/
theorem inLine_of_readStmt? {line : Text} {index : Nat} {stmt : Stmt} {c : Cursor} {flaw : Flaw}
    (h : readStmt? line index = some (stmt, c)) (hflaw : stmt.firstFlaw? = some flaw) :
    flaw.InLine := by
  simp only [readStmt?] at h
  split at h
  · next form span c₁ _ =>
    cases form with
    | block kind =>
      cases h
      exact inLine_readOperand c₁ flaw hflaw
    | assign kind =>
      cases h
      rw [Stmt.firstFlaw?, Option.or_eq_some_iff] at hflaw
      rcases hflaw with htarget | ⟨_, hvalue⟩
      · exact inLine_readTarget c₁ flaw htarget
      · exact inLine_readOperand _ flaw hvalue
    | pen down =>
      cases h
      simp [Stmt.firstFlaw?] at hflaw
    | command cmd =>
      cases h
      exact inLine_readOperand c₁ flaw hflaw
  · simp only [readCall?, Option.map_eq_some_iff] at h
    obtain ⟨⟨name, c₁⟩, hname, hstmt⟩ := h
    cases hstmt
    rw [Stmt.firstFlaw?, Option.or_eq_some_iff] at hflaw
    rcases hflaw with hlabel | ⟨_, hargs⟩
    · exact inLine_of_readFunctionName? hname flaw hlabel
    · obtain ⟨arg, hmem, harg⟩ := List.exists_of_findSome?_eq_some hargs
      exact inLine_readExprs arg hmem flaw harg

/-- **The flaw of a heading is a problem inside its line.** -/
theorem inLine_of_readDecl? {line : Text} {decl : Decl} {c : Cursor} {flaw : Flaw}
    (h : readDecl? line = some (decl, c)) (hflaw : decl.firstFlaw? = some flaw) : flaw.InLine := by
  simp only [readDecl?, Option.map_eq_some_iff] at h
  obtain ⟨⟨span, c₁⟩, _, hdecl⟩ := h
  cases hdecl
  rw [Decl.firstFlaw?, Option.or_eq_some_iff] at hflaw
  rcases hflaw with hname | ⟨_, hparams⟩
  · cases hread : readFunctionName? c₁ with
    | none =>
      rw [hread] at hname
      exact Label.inLine_malformed (Or.inl rfl) flaw hname
    | some result =>
      rw [hread] at hname
      exact inLine_of_readFunctionName? hread flaw hname
  · obtain ⟨param, hmem, hparam⟩ := List.exists_of_findSome?_eq_some hparams
    exact inLine_readParams param hmem flaw hparam

end LogoLang
