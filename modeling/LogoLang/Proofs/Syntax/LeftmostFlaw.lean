import LogoLang.Proofs.Syntax.Operands

set_option autoImplicit false

/-! # The flaw that is reported is the leftmost one

A tree is searched for its first flaw in the order of its parts, not by their places. The two orders
agree on every tree that is read: the flaws of what is read stand in their line in the order in which
they are found (`FlawsBetween`), the leaves for missing parts included, which are empty or stand one
character before the place where the part is missed. -/

namespace LogoLang

/-! ## The flaws of a tree -/

/-- The flaw of a node. -/
def Expr.flaw? : Expr → Option Flaw
  | .malformed flaw => some flaw
  | .truth .. | .number .. | .var .. | .binary .. | .query .. => none

/-- The flaws of an expression, in the order in which they are searched. -/
def Expr.flaws (expr : Expr) : List Flaw := expr.nodes.filterMap Expr.flaw?

/-- The flaws on the line of a statement. -/
def Stmt.flaws (stmt : Stmt) : List Flaw :=
  stmt.labels.filterMap Label.flaw? ++ stmt.exprs.flatMap Expr.flaws

/-- The flaws of a heading. -/
def Decl.flaws (decl : Decl) : List Flaw := (decl.name :: decl.params).filterMap Label.flaw?

theorem Expr.flaw?_eq_some_iff {expr : Expr} {flaw : Flaw} :
    expr.flaw? = some flaw ↔ expr = .malformed flaw := by
  cases expr <;> simp [Expr.flaw?]

theorem Label.flaw?_eq_some_iff {label : Label} {flaw : Flaw} :
    label.flaw? = some flaw ↔ label = .malformed flaw := by
  cases label <;> simp [Label.flaw?]

theorem Expr.mem_flaws {expr : Expr} {flaw : Flaw} :
    flaw ∈ expr.flaws ↔ .malformed flaw ∈ expr.nodes := by
  simp only [Expr.flaws, List.mem_filterMap, Expr.flaw?_eq_some_iff, exists_eq_right]

theorem Stmt.mem_flaws {stmt : Stmt} {flaw : Flaw} :
    flaw ∈ stmt.flaws ↔
      .malformed flaw ∈ stmt.labels ∨ ∃ expr ∈ stmt.exprs, .malformed flaw ∈ expr.nodes := by
  simp only [Stmt.flaws, List.mem_append, List.mem_filterMap, Label.flaw?_eq_some_iff,
    exists_eq_right, List.mem_flatMap, Expr.mem_flaws]

theorem Decl.mem_flaws {decl : Decl} {flaw : Flaw} :
    flaw ∈ decl.flaws ↔ .malformed flaw ∈ decl.name :: decl.params := by
  simp only [Decl.flaws, List.mem_filterMap, Label.flaw?_eq_some_iff, exists_eq_right]

theorem Expr.flaws_leaf {expr : Expr} (h : expr.nodes = [expr]) :
    expr.flaws = expr.flaw?.toList := by
  rw [Expr.flaws, h]
  cases expr <;> rfl

theorem Expr.flaws_binary (op : BinaryOp) (left right : Expr) (span : Span) :
    (Expr.binary op left right span).flaws = left.flaws ++ right.flaws := by
  rw [Expr.flaws, Expr.nodes, List.filterMap_cons, List.filterMap_append]
  rfl

/-! ## The first flaw -/

theorem Expr.firstFlaw?_eq_head? (expr : Expr) : expr.firstFlaw? = expr.flaws.head? := by
  induction expr with
  | truth | number | var | malformed | query => rfl
  | binary op left right span ihleft ihright =>
    rw [Expr.firstFlaw?, Expr.flaws_binary, List.head?_append, ihleft, ihright]

theorem head?_flatMap_flaws (exprs : List Expr) :
    (exprs.flatMap Expr.flaws).head? = exprs.findSome? Expr.firstFlaw? := by
  induction exprs with
  | nil => rfl
  | cons expr rest ih =>
    rw [List.flatMap_cons, List.head?_append, List.findSome?_cons, ih, ← Expr.firstFlaw?_eq_head?]
    cases expr.firstFlaw? <;> rfl

theorem Stmt.firstFlaw?_eq_head? (stmt : Stmt) : stmt.firstFlaw? = stmt.flaws.head? := by
  rw [Stmt.flaws, List.head?_append, List.head?_filterMap, head?_flatMap_flaws]
  cases stmt <;> simp [Stmt.firstFlaw?, Stmt.labels, Stmt.exprs]

theorem Decl.firstFlaw?_eq_head? (decl : Decl) : decl.firstFlaw? = decl.flaws.head? := by
  rw [Decl.flaws, List.head?_filterMap, Decl.firstFlaw?, List.findSome?_cons]
  cases decl.name.flaw? <;> rfl

/-- What a search for a flaw is to find among flaws: none if there is none, and otherwise one that no
    other one starts before. -/
structure IsLeftmost (found? : Option Flaw) (HasFlaw : Flaw → Prop) : Prop where
  none_iff : found? = none ↔ ∀ flaw, ¬HasFlaw flaw
  mem : ∀ flaw, found? = some flaw → HasFlaw flaw
  start_le : ∀ flaw, found? = some flaw → ∀ other, HasFlaw other → flaw.span.start ≤ other.span.start

/-! ## The order of the flaws -/

/-- Flaws that start one after the other, between two positions. -/
structure FlawsBetween (first last : Nat) (flaws : List Flaw) : Prop where
  le : first ≤ last
  bounds : ∀ flaw ∈ flaws, first ≤ flaw.span.start ∧ flaw.span.start ≤ last
  order : flaws.Pairwise fun flaw later => flaw.span.start ≤ later.span.start

theorem FlawsBetween.nil {first last : Nat} (h : first ≤ last) : FlawsBetween first last [] :=
  ⟨h, by simp, List.Pairwise.nil⟩

theorem FlawsBetween.append {first middle last : Nat} {flaws more : List Flaw}
    (h : FlawsBetween first middle flaws) (h' : FlawsBetween middle last more) :
    FlawsBetween first last (flaws ++ more) where
  le := Nat.le_trans h.le h'.le
  bounds := List.forall_mem_append.2
    ⟨fun flaw hflaw => ⟨(h.bounds flaw hflaw).1, Nat.le_trans (h.bounds flaw hflaw).2 h'.le⟩,
      fun flaw hflaw => ⟨Nat.le_trans h.le (h'.bounds flaw hflaw).1, (h'.bounds flaw hflaw).2⟩⟩
  order := List.pairwise_append.2 ⟨h.order, h'.order, fun flaw hflaw later hlater =>
    Nat.le_trans (h.bounds flaw hflaw).2 (h'.bounds later hlater).1⟩

theorem FlawsBetween.mono {first first' last last' : Nat} {flaws : List Flaw}
    (h : FlawsBetween first last flaws) (hfirst : first' ≤ first) (hlast : last ≤ last') :
    FlawsBetween first' last' flaws where
  le := Nat.le_trans hfirst (Nat.le_trans h.le hlast)
  bounds flaw hflaw := ⟨Nat.le_trans hfirst (h.bounds flaw hflaw).1,
    Nat.le_trans (h.bounds flaw hflaw).2 hlast⟩
  order := h.order

/-- At most one flaw. -/
theorem FlawsBetween.toList {first last : Nat} {flaw? : Option Flaw} (hle : first ≤ last)
    (h : ∀ flaw, flaw? = some flaw → first ≤ flaw.span.start ∧ flaw.span.start ≤ last) :
    FlawsBetween first last flaw?.toList := by
  cases flaw? with
  | none => exact .nil hle
  | some flaw => exact ⟨hle, by simpa using h, List.pairwise_singleton _ _⟩

/-- The first one of flaws in order is the leftmost one. -/
theorem FlawsBetween.isLeftmost {first last : Nat} {flaws : List Flaw} {HasFlaw : Flaw → Prop}
    (h : FlawsBetween first last flaws) (hmem : ∀ flaw, flaw ∈ flaws ↔ HasFlaw flaw) :
    IsLeftmost flaws.head? HasFlaw := by
  cases flaws with
  | nil =>
    refine ⟨⟨fun _ flaw hflaw => ?_, fun _ => rfl⟩, by simp, by simp⟩
    exact absurd ((hmem flaw).2 hflaw) List.not_mem_nil
  | cons first rest =>
    refine ⟨⟨by simp, fun hnone => ?_⟩, ?_, ?_⟩
    · exact absurd ((hmem first).1 List.mem_cons_self) (hnone first)
    · rintro flaw ⟨⟩
      exact (hmem first).1 List.mem_cons_self
    · rintro flaw ⟨⟩ other hother
      rcases List.mem_cons.1 ((hmem other).2 hother) with rfl | hrest
      · exact Nat.le_refl _
      · exact (List.pairwise_cons.1 h.order).1 other hrest

/-! ## Expressions -/

section Expressions

variable {c after : Cursor} {e : Expr}

/-- **The flaws of an expression stand in the line in the order of the search.** -/
theorem Cursor.Parses.flawsBetween (h : c.Parses e after) :
    FlawsBetween c.pos after.pos e.flaws := by
  have hleaf : ∀ {c after : Cursor} {leaf : Expr}, c.Parses leaf after → leaf.nodes = [leaf] →
      FlawsBetween c.pos after.pos leaf.flaws := by
    intro c after leaf h hnodes
    rw [Expr.flaws_leaf hnodes]
    refine .toList h.movesTo.pos_le fun flaw hflaw => ?_
    cases Expr.flaw?_eq_some_iff.1 hflaw
    have hwithin := h.within _ (Expr.self_mem_nodes _)
    exact ⟨hwithin.1, Nat.le_trans (Nat.le_add_right _ _) hwithin.2⟩
  induction h with
  | before h => exact hleaf (.before h) (readsWord_of_readLeafBefore? h).nodes
  | binary hbefore hop hleft hright ihleft ihright =>
    have htakes := Cursor.takes_of_oneOf? (by decide) hop
    rw [Expr.flaws_binary]
    exact (ihleft.append ihright).mono htakes.moves.pos_le (Nat.le_refl _)
  | after hbefore hop h => exact hleaf (.after hbefore hop h) (readsWord_of_readLeafAfter? h).nodes
  | missing hnone => exact hleaf (.missing hnone) rfl

theorem flawsBetween_of_readExpr? (h : readExpr? c = some (e, after)) :
    FlawsBetween c.pos after.pos e.flaws :=
  (Cursor.parses_of_readExpr? h).flawsBetween

theorem flawsBetween_readExprs (c : Cursor) :
    FlawsBetween c.pos (readExprs c).2.pos ((readExprs c).1.flatMap Expr.flaws) := by
  have hwith : ∀ (fuel : Nat) (c : Cursor), FlawsBetween c.pos (readExprsWith fuel c).2.pos
      ((readExprsWith fuel c).1.flatMap Expr.flaws) := by
    intro fuel
    induction fuel with
    | zero => exact fun c => .nil (Nat.le_refl _)
    | succ fuel ih =>
      intro c
      rw [readExprsWith]
      split
      · exact .nil (Nat.le_refl _)
      · next expr c₁ hexpr => exact (flawsBetween_of_readExpr? hexpr).append (ih c₁)
  exact hwith _ c

end Expressions

/-! ## Labels -/

section Labels

variable {c after : Cursor} {label : Label}

theorem Label.span_ofName (name : Text) (span : Span) : (Label.ofName name span).span = span := by
  rw [Label.ofName]
  split <;> rfl

theorem passes_of_readUnquoted? (h : readUnquoted? c.skipSpaces = some (label, after)) :
    c.Passes [label.span] after := by
  simp only [readUnquoted?, Cursor.wordUntil, List.isEmpty_iff] at h
  split at h
  · exact absurd h (by simp)
  · next hne =>
    cases h
    exact Cursor.passes_takeWhile hne

theorem passes_of_readTarget? (h : readTarget? c = some (label, after)) :
    c.Passes [label.span] after := by
  simp only [readTarget?] at h
  split at h
  · next rest hrest =>
    split at h
    · exact passes_of_readUnquoted? h
    · cases h
      rw [Label.span_ofName]
      exact Cursor.passes_signed (!quotedStops.contains ·) hrest
  · exact passes_of_readUnquoted? h

theorem passes_of_readFunctionName? (h : readFunctionName? c = some (label, after)) :
    c.Passes [label.span] after := by
  simp only [readFunctionName?, Cursor.wordUntil, List.isEmpty_iff] at h
  split at h
  · exact absurd h (by simp)
  · next hne =>
    cases h
    rw [Label.span_ofName]
    exact Cursor.passes_takeWhile hne

/-- The flaw of a label that was read starts before the position after the label. -/
theorem Cursor.Passes.flawsBetween (h : c.Passes [label.span] after) :
    FlawsBetween c.pos (after.pos - 1) label.flaw?.toList := by
  have hpos := h.pos_le
  have hstop := h.stop_le
  have hlength : 0 < label.span.length := h.2.1
  simp only [Span.stop] at hstop
  refine .toList (by omega) fun flaw hflaw => ?_
  cases Label.flaw?_eq_some_iff.1 hflaw
  simp only [Label.span] at hpos hstop hlength
  omega

/-- A missing part is one character before the cursor. -/
theorem flawsBetween_missingPart (kind : ErrorKind) (c : Cursor) :
    FlawsBetween (c.pos - 1) (c.pos - 1) [missingPart kind c] :=
  ⟨Nat.le_refl _, List.forall_mem_singleton.2 ⟨Nat.le_refl _, Nat.le_refl _⟩,
    List.pairwise_singleton _ _⟩

/-- A label that is read or missing. -/
theorem flawsBetween_getD (kind : ErrorKind) {read? : Option (Label × Cursor)}
    (h : ∀ label after, read? = some (label, after) → c.Passes [label.span] after) :
    FlawsBetween (c.pos - 1) ((read?.getD (.malformed (missingPart kind c), c)).2.pos - 1)
      (read?.getD (.malformed (missingPart kind c), c)).1.flaw?.toList := by
  cases read? with
  | none => exact flawsBetween_missingPart kind c
  | some result =>
    exact (h result.1 result.2 rfl).flawsBetween.mono (Nat.sub_le _ _) (Nat.le_refl _)

theorem filterMap_flaw?_cons (label : Label) (labels : List Label) :
    (label :: labels).filterMap Label.flaw? =
      label.flaw?.toList ++ labels.filterMap Label.flaw? := by
  rw [List.filterMap_cons]
  cases label.flaw? <;> rfl

theorem flawsBetween_readParams (c : Cursor) :
    FlawsBetween c.pos (readParams c).2.pos ((readParams c).1.filterMap Label.flaw?) := by
  have hwith : ∀ (fuel : Nat) (c : Cursor), FlawsBetween c.pos (readParamsWith fuel c).2.pos
      ((readParamsWith fuel c).1.filterMap Label.flaw?) := by
    intro fuel
    induction fuel with
    | zero => exact fun c => .nil (Nat.le_refl _)
    | succ fuel ih =>
      intro c
      rw [readParamsWith]
      split
      · exact .nil (Nat.le_refl _)
      · next param c₁ hparam =>
        have hword := (passes_of_readTarget? hparam).flawsBetween
        rw [filterMap_flaw?_cons]
        exact (hword.mono (Nat.le_refl _) (Nat.sub_le _ _)).append (ih c₁)
  exact hwith _ c

end Labels

/-! ## Statements and headings -/

theorem flawsBetween_readOperand (c : Cursor) :
    FlawsBetween (c.pos - 1) (readOperand c).2.pos (readOperand c).1.flaws := by
  rw [readOperand]
  cases hread : readExpr? c with
  | some result => exact (flawsBetween_of_readExpr? hread).mono (Nat.sub_le _ _) (Nat.le_refl _)
  | none => exact (flawsBetween_missingPart .missingOperand c).mono (Nat.le_refl _) (Nat.sub_le _ _)

theorem Stmt.flaws_assign (kind : AssignKind) (target : Label) (value : Expr) (line : Nat) :
    (Stmt.assign kind target value line).flaws = target.flaw?.toList ++ value.flaws := by
  rw [Stmt.flaws, Stmt.labels, Stmt.exprs, List.flatMap_singleton, filterMap_flaw?_cons,
    List.filterMap_nil, List.append_nil]

theorem Stmt.flaws_call (name : Label) (args : List Expr) (line : Nat) :
    (Stmt.call name args line).flaws = name.flaw?.toList ++ args.flatMap Expr.flaws := by
  rw [Stmt.flaws, Stmt.labels, Stmt.exprs, filterMap_flaw?_cons, List.filterMap_nil,
    List.append_nil]

theorem StmtForm.flawsBetween_read (form : StmtForm) (c : Cursor) (line : Nat) :
    FlawsBetween (c.pos - 1) (form.read c line).2.pos (form.read c line).1.flaws := by
  cases form with
  | block kind =>
    simpa [StmtForm.read, Stmt.flaws, Stmt.labels, Stmt.exprs] using flawsBetween_readOperand c
  | assign kind =>
    rw [StmtForm.read, Stmt.flaws_assign]
    exact (flawsBetween_getD _ fun _ _ => passes_of_readTarget?).append (flawsBetween_readOperand _)
  | pen down => exact .nil (Nat.sub_le _ _)
  | command cmd =>
    simpa [StmtForm.read, Stmt.flaws, Stmt.labels, Stmt.exprs] using flawsBetween_readOperand c

theorem exists_flawsBetween_of_readStmt? {line : Text} {index : Nat} {stmt : Stmt} {c : Cursor}
    (h : readStmt? line index = some (stmt, c)) : ∃ first, FlawsBetween first c.pos stmt.flaws := by
  simp only [readStmt?] at h
  split at h
  · next form span c₁ hform =>
    have hread := form.flawsBetween_read c₁ index
    rw [Option.some.inj h] at hread
    exact ⟨_, hread⟩
  · simp only [readCall?, Option.map_eq_some_iff, Prod.exists] at h
    obtain ⟨name, c₁, hname, hstmt⟩ := h
    cases hstmt
    rw [Stmt.flaws_call]
    have hword := (passes_of_readFunctionName? hname).flawsBetween
    exact ⟨_, (hword.mono (Nat.le_refl _) (Nat.sub_le _ _)).append (flawsBetween_readExprs c₁)⟩

theorem exists_flawsBetween_of_readDecl? {line : Text} {decl : Decl} {c : Cursor}
    (h : readDecl? line = some (decl, c)) : ∃ first, FlawsBetween first c.pos decl.flaws := by
  simp only [readDecl?, Option.map_eq_some_iff, Prod.exists] at h
  obtain ⟨span, c₁, _, hdecl⟩ := h
  cases hdecl
  have hname := flawsBetween_getD .missingName fun _ _ => passes_of_readFunctionName? (c := c₁)
  have hall := (hname.mono (Nat.le_refl _) (Nat.sub_le _ _)).append (flawsBetween_readParams _)
  rw [← filterMap_flaw?_cons] at hall
  exact ⟨_, hall⟩

/-- **The flaw that is found is the leftmost one**, in whatever is read as an expression, a statement or
    a heading. -/
theorem firstFlaw?_isLeftmost (line : Text) :
    (∀ pos expr c, readExpr? (Cursor.at line pos) = some (expr, c) →
      IsLeftmost expr.firstFlaw? fun flaw => .malformed flaw ∈ expr.nodes) ∧
    (∀ index stmt c, readStmt? line index = some (stmt, c) →
      IsLeftmost stmt.firstFlaw? fun flaw => .malformed flaw ∈ stmt.labels ∨
        ∃ expr ∈ stmt.exprs, .malformed flaw ∈ expr.nodes) ∧
    ∀ decl c, readDecl? line = some (decl, c) →
      IsLeftmost decl.firstFlaw? fun flaw => .malformed flaw ∈ decl.name :: decl.params := by
  refine ⟨fun pos expr c h => ?_, fun index stmt c h => ?_, fun decl c h => ?_⟩
  · rw [Expr.firstFlaw?_eq_head?]
    exact (flawsBetween_of_readExpr? h).isLeftmost fun flaw => Expr.mem_flaws
  · obtain ⟨first, hbetween⟩ := exists_flawsBetween_of_readStmt? h
    rw [Stmt.firstFlaw?_eq_head?]
    exact hbetween.isLeftmost fun flaw => Stmt.mem_flaws
  · obtain ⟨first, hbetween⟩ := exists_flawsBetween_of_readDecl? h
    rw [Decl.firstFlaw?_eq_head?]
    exact hbetween.isLeftmost fun flaw => Decl.mem_flaws

/-- Of the three flaws on the line the one of the target is found; the last operand is missing. -/
theorem firstFlaw?_isLeftmost_of_three :
    ∃ stmt c, readStmt? "MAKE x + ?".toList 0 = some (stmt, c) ∧
      stmt.flaws.map (·.span.start) = [5, 9, 10] ∧
      IsLeftmost stmt.firstFlaw? fun flaw => .malformed flaw ∈ stmt.labels ∨
        ∃ expr ∈ stmt.exprs, .malformed flaw ∈ expr.nodes :=
  ⟨_, _, rfl, rfl, (firstFlaw?_isLeftmost "MAKE x + ?".toList).2.1 0 _ _ rfl⟩

end LogoLang
