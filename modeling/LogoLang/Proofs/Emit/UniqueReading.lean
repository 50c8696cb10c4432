import LogoLang.Proofs.Emit.InfixTree
import LogoLang.Proofs.Emit.Literals
import LogoLang.Proofs.Emit.Types
import LogoLang.Proofs.Number.Numerals
import LogoLang.Proofs.Syntax.Bare
import LogoLang.Proofs.Syntax.Literals
import LogoLang.Proofs.Syntax.Spans

set_option autoImplicit false

/-! # Emitted expressions are unambiguous

The code of an expression is the text of a tree (`Expr.text_of_emit`), and the tree says which
expression it is the code of (`InfixTree.expr?_infixTree`): the leaves by their text, operators by where
they stand. As the text of a tree is read in one way only, so is emitted code (`emit_unambiguous`). -/

namespace LogoLang

/-! ## The tree of an expression -/

/-- The call of a method of the turtle without arguments, up to the closing parenthesis. -/
def Query.opening (q : Query) : Text := "draw.".toList ++ q.method.name ++ ['(']

/-- The tree of a question to the turtle. Positions are rounded. -/
def Query.infixTree (q : Query) : InfixTree :=
  match q with
  | .x | .y => .rounded (.call q.opening)
  | .heading | .color => .call q.opening

/-- The tree of a number literal. -/
def numberTree (x : Float) : InfixTree :=
  if isFinite x then
    if shortForSingle x == x then .word (shortCode x) else .rounded (.word (shortCode x))
  else .call ("float('".toList ++ Text.ofDouble x ++ ['\''])

/-- The tree of an expression's code. A malformed expression has none, and stands for no word. -/
def Expr.infixTree : Expr → InfixTree
  | .truth value _ => .word (Text.ofBool value)
  | .number x _ => numberTree x
  | .var name _ => .word (variableName name)
  | .malformed _ => .word []
  | .query q _ => q.infixTree
  | .binary op left right _ => .infixed (op.opClass = .arithmetic) op left.infixTree right.infixTree

theorem numberTree_text (x : Float) : (numberTree x).text = numberCode x := by
  unfold numberTree numberCode
  split
  · next hfinite =>
    rw [hfinite, Bool.not_true, Bool.false_or]
    split <;> rfl
  · next hfinite =>
    rw [Bool.not_eq_true] at hfinite
    simp [shortCode, hfinite, InfixTree.text]

theorem Query.text_infixTree (q : Query) (span : Span) {scope : Scope} {code : Code}
    (h : ((Expr.query q span).emit scope).result = .ok code) : code.text = q.infixTree.text := by
  cases q <;> cases h <;> rfl

/-- **The code of an expression is the text of its tree.** -/
theorem Expr.text_of_emit {e : Expr} {scope : Scope} {code : Code}
    (h : (e.emit scope).result = .ok code) : code.text = e.infixTree.text := by
  induction e generalizing code with
  | truth value span =>
    cases h
    rfl
  | number x span =>
    cases h
    exact (numberTree_text x).symm
  | var name span =>
    rw [Expr.emit] at h
    split at h
    · exact absurd h (by simp)
    · cases h
      rfl
  | malformed flaw => exact absurd h (by simp [Expr.emit])
  | query q span => exact q.text_infixTree span h
  | binary op left right span ihleft ihright =>
    simp only [Expr.emit, Traced.bind_eq_ok_iff] at h
    obtain ⟨a, ha, b, hb, hop⟩ := h
    rw [BinaryOp.text_of_emit hop, ihleft ha, ihright hb]
    simp only [Expr.infixTree, InfixTree.text, enclosed, decide_eq_true_eq]

/-! ## Words and calls -/

theorem IsNumeral.isUnbroken {t : Text} (h : IsNumeral t) : IsUnbroken t :=
  isUnbroken_of_forall h (by decide) (by decide) (by decide) (by decide)

theorem IsNumeral.proper_word {t : Text} (h : IsNumeral t) : (InfixTree.word t).Proper :=
  ⟨h.isUnbroken, fun hmem => absurd (h _ hmem) (by decide)⟩

theorem Query.proper_infixTree (q : Query) : q.infixTree.Proper := by
  have hcall : (InfixTree.call q.opening).Proper := by
    refine ⟨?_, ?_, ?_⟩
    · cases q <;> exact isUnbroken_of_all (by decide)
    · cases q <;> decide
    · intro rounds
      cases q <;> cases rounds <;> decide
  cases q <;> exact hcall

theorem proper_numberTree (x : Float) : (numberTree x).Proper := by
  unfold numberTree
  split
  · next hfinite =>
    have hword : (InfixTree.word (shortCode x)).Proper := by
      rw [shortCode_of_isFinite hfinite]
      exact (Text.isNumeral_ofDouble _).proper_word
    split <;> exact hword
  · have hopening : IsUnbroken "float('".toList := isUnbroken_of_all (by decide)
    have hquote : IsUnbroken ['\''] := isUnbroken_of_all (by decide)
    refine ⟨(hopening.append (Text.isNumeral_ofDouble x).isUnbroken).append hquote, by simp, ?_⟩
    intro rounds
    cases rounds <;> simp [enclosureText]

theorem proper_variableName {name : Text} (h : isValidName name = true) :
    (InfixTree.word (variableName name)).Proper := by
  have hchars : ∀ c ∈ variableName name, isNameChar c = true :=
    List.forall_mem_append.2 ⟨List.all_eq_true.1 (by decide), (isNameChar_of_isValidName h).2⟩
  exact ⟨isUnbroken_of_forall hchars (by decide) (by decide) (by decide) (by decide),
    fun hmem => absurd (hchars _ hmem) (by decide)⟩

/-- The tree of an expression whose variables have proper names is proper. -/
theorem Expr.proper_infixTree {e : Expr}
    (hnames : ∀ name span, .var name span ∈ e.nodes → isValidName name = true) :
    e.infixTree.Proper := by
  induction e with
  | truth value span => cases value <;> exact ⟨isUnbroken_of_all (by decide), by decide⟩
  | number x span => exact proper_numberTree x
  | var name span => exact proper_variableName (hnames name span (Expr.self_mem_nodes _))
  | malformed flaw => exact ⟨by simp [IsUnbroken], by simp⟩
  | query q span => exact q.proper_infixTree
  | binary op left right span ihleft ihright =>
    exact ⟨ihleft fun name span hmem => hnames name span (by simp [Expr.nodes, hmem]),
      ihright fun name span hmem => hnames name span (by simp [Expr.nodes, hmem])⟩

/-! ## The expression of a tree -/

/-- The leaves whose code is fixed. -/
def fixedLeaves : List Expr :=
  [.truth true .nowhere, .truth false .nowhere, .query .x .nowhere, .query .y .nowhere,
    .query .heading .nowhere, .query .color .nowhere]

/-- The leaf that code stands for: a number literal, one of the fixed leaves, or a variable. -/
def leafOf? (code : Text) : Option Expr :=
  ((literalValue? code).map fun x => .number x .nowhere).or
    ((fixedLeaves.find? fun leaf => leaf.infixTree.text = code).or
      ((code.dropPrefix? "v_".toList).map fun name => .var name .nowhere))

/-- The expression that a tree is the code of, without its places. -/
def InfixTree.expr? : InfixTree → Option Expr
  | .infixed _ op left right => do
    let a ← left.expr?
    let b ← right.expr?
    return .binary op a b .nowhere
  | .word chars => leafOf? chars
  | .call opening => leafOf? (opening ++ [')'])
  | .rounded inner => leafOf? (roundedCode inner.text)

theorem expr?_numberTree {x : Float} (hsingle : IsSingle x) :
    (numberTree x).expr? = some (.number x .nowhere) := by
  have hleaf : (numberTree x).expr? = leafOf? (numberTree x).text := by
    unfold numberTree
    split
    · split <;> rfl
    · rfl
  rw [hleaf, numberTree_text, leafOf?, hsingle.literalValue?_numberCode]
  rfl

theorem literalValue?_variableName (name : Text) : literalValue? (variableName name) = none := by
  have hplain : (variableName name).all isLiteralChar = false := rfl
  rw [literalValue?_of_no_call (by simp [variableName]) (by simp [variableName]), plainValue?, hplain,
    if_neg Bool.false_ne_true]

theorem leafOf?_variableName (name : Text) :
    leafOf? (variableName name) = some (.var name .nowhere) := by
  have hfixed : (fixedLeaves.find? fun leaf => leaf.infixTree.text = variableName name) = none := by
    rw [List.find?_eq_none]
    intro leaf hleaf
    rw [decide_eq_true_eq]
    intro htext
    have hheads : ∀ leaf ∈ fixedLeaves, leaf.infixTree.text.head? ≠ some 'v' := by decide
    exact hheads leaf hleaf (congrArg List.head? htext)
  have hdrop : (variableName name).dropPrefix? "v_".toList = some name :=
    List.dropPrefix?_eq_some_iff.2 ⟨_, rfl, beq_self_eq_true _⟩
  rw [leafOf?, literalValue?_variableName, hfixed, hdrop]
  rfl

/-- **A tree says which expression it is the code of.** -/
theorem InfixTree.expr?_infixTree {e : Expr} (hfree : e.IsErrorFree) (hsingle : e.LiteralsSingle) :
    e.infixTree.expr? = some e.bare := by
  induction e with
  | truth value span => cases value <;> rfl
  | number x span => exact expr?_numberTree (hsingle x span (Expr.self_mem_nodes _))
  | var name span => exact leafOf?_variableName name
  | malformed flaw => exact absurd hfree (Expr.not_isErrorFree_malformed flaw)
  | query q span => cases q <;> rfl
  | binary op left right span ihleft ihright =>
    obtain ⟨hleft, hright⟩ := Expr.isErrorFree_binary.1 hfree
    have hsingleLeft : left.LiteralsSingle := fun x span hmem =>
      hsingle x span (by simp [Expr.nodes, hmem])
    have hsingleRight : right.LiteralsSingle := fun x span hmem =>
      hsingle x span (by simp [Expr.nodes, hmem])
    simp only [Expr.infixTree, InfixTree.expr?, ihleft hleft hsingleLeft, ihright hright hsingleRight]
    rfl

/-! ## Emitted code -/

theorem Expr.typeIn_bare (scope : Scope) (e : Expr) : e.bare.typeIn scope = e.typeIn scope := by
  induction e with
  | truth | number | var | malformed | query => rfl
  | binary op left right span ihleft ihright => rw [Expr.bare, Expr.typeIn, ihleft, ihright, Expr.typeIn]

/-- An expression that is read without a flaw is well formed. -/
theorem wellFormed_of_readExpr? {c after : Cursor} {e : Expr} (h : readExpr? c = some (e, after))
    (hflaw : e.firstFlaw? = none) : e.WellFormed :=
  ⟨Expr.isErrorFree_iff.2 hflaw,
    fun name span hmem => ((reads_of_readExprWith? h).nodes _ hmem).name name span rfl⟩

/-- **Emitted expressions are unambiguous.** Two expressions that are read without a flaw and emitted
    under a scope, and whose codes followed by something that ends them make the same text, have the
    same code and are the same expression up to their places. -/
theorem emit_unambiguous {scope : Scope} {c c' after after' : Cursor} {e e' : Expr} {code code' : Code}
    {rest rest' : Text} (hread : readExpr? c = some (e, after))
    (hread' : readExpr? c' = some (e', after')) (hflaw : e.firstFlaw? = none)
    (hflaw' : e'.firstFlaw? = none) (hcode : (e.emit scope).result = .ok code)
    (hcode' : (e'.emit scope).result = .ok code') (hrest : EndsCode rest) (hrest' : EndsCode rest')
    (htext : code.text ++ rest = code'.text ++ rest') : code = code' ∧ e.bare = e'.bare := by
  have hform := wellFormed_of_readExpr? hread hflaw
  have hform' := wellFormed_of_readExpr? hread' hflaw'
  have htree := Expr.text_of_emit hcode
  have htree' := Expr.text_of_emit hcode'
  rw [htree, htree'] at htext
  obtain ⟨hsame, _⟩ := InfixTree.eq_of_text_append (Expr.proper_infixTree hform.names)
    (Expr.proper_infixTree hform'.names) hrest hrest' htext
  have hexpr := InfixTree.expr?_infixTree hform.errorFree (literalsSingle_of_readExprWith? hread)
  have hexpr' := InfixTree.expr?_infixTree hform'.errorFree (literalsSingle_of_readExprWith? hread')
  have hbare : e.bare = e'.bare := by
    rw [hsame, hexpr'] at hexpr
    exact (Option.some.inj hexpr).symm
  have htext' : code.text = code'.text := by rw [htree, htree', hsame]
  have htype : code.isTruth = code'.isTruth := by
    refine Option.some.inj ?_
    rw [← Expr.typeIn_of_emit hcode, ← Expr.typeIn_of_emit hcode', ← Expr.typeIn_bare, hbare,
      Expr.typeIn_bare]
  refine ⟨?_, hbare⟩
  cases code
  cases code'
  rw [Code.mk.injEq]
  exact ⟨htext', htype⟩

/-- A sum that is written in two ways, with a parenthesis after its code. -/
theorem emit_unambiguous_half :
    let half := Float.ofBits 0x3fe0000000000000
    let e : Expr := .binary .add (.var "x".toList ⟨2, 2⟩) (.number half ⟨5, 5⟩) ⟨0, 10⟩
    let e' : Expr := .binary .add (.var "x".toList ⟨3, 2⟩) (.number half ⟨6, 3⟩) ⟨0, 9⟩
    let scope : Scope := [("x".toList, false)]
    let code : Code := ⟨"_f32(v_x + 0.5)".toList, false⟩
    readExpr? (Cursor.start "+ :x \"0.50".toList) = some (e, ⟨10, []⟩) ∧
      readExpr? (Cursor.start "+  :x \".5".toList) = some (e', ⟨9, []⟩) ∧
      (e.emit scope).result = .ok code ∧ (e'.emit scope).result = .ok code ∧
      EndsCode [')'] ∧ e.bare = e'.bare := by
  intro half e e' scope code
  have hread : readExpr? (Cursor.start "+ :x \"0.50".toList) = some (e, ⟨10, []⟩) := by decide +kernel
  have hread' : readExpr? (Cursor.start "+  :x \".5".toList) = some (e', ⟨9, []⟩) := by decide +kernel
  have hcode : (e.emit scope).result = .ok code := by decide +kernel
  have hcode' : (e'.emit scope).result = .ok code := by decide +kernel
  have hrest : EndsCode [')'] := endsCode_close []
  exact ⟨hread, hread', hcode, hcode', hrest,
    (emit_unambiguous hread hread' rfl rfl hcode hcode' hrest hrest rfl).2⟩

end LogoLang
