import LogoLang.Emit.Expression

set_option autoImplicit false

/-! # The trees of emitted code

The code of an expression is a tree of words, calls, roundings and operators between two operands
(`InfixTree`). Its text can be read in one way only (`InfixTree.eq_of_text_append`): the characters up
to the first one that ends a piece of code tell what the tree begins with, and each operand ends where
such a character follows it. -/

namespace LogoLang

/-! ## Trees -/

/-- How the code of an expression is put together. -/
inductive InfixTree where
  /-- A name or a literal. -/
  | word (chars : Text)
  /-- A call, given by its text up to the closing parenthesis. -/
  | call (opening : Text)
  /-- The rounding to single precision of one piece of code. -/
  | rounded (inner : InfixTree)
  /-- An operator between two operands, all of it rounded or only in parentheses. -/
  | infixed (rounds : Bool) (op : BinaryOp) (left right : InfixTree)

/-- Code that is rounded or only put in parentheses. -/
def enclosed (rounds : Bool) (code : Text) : Text :=
  if rounds then roundedCode code else parenthesized code

/-- The text of a tree. -/
def InfixTree.text : InfixTree → Text
  | .word chars => chars
  | .call opening => opening ++ [')']
  | .rounded inner => enclosed true inner.text
  | .infixed rounds op left right => enclosed rounds (left.text ++ op.symbol ++ right.text)

/-! ## Where code ends -/

/-- A character that may follow a piece of code. -/
def isCodeStop (c : Char) : Bool := [' ', ')', ',', ':'].contains c

/-- What follows a piece of code: nothing, or a text that starts with a stop. -/
def EndsCode (rest : Text) : Prop := ∀ c ∈ rest.head?, isCodeStop c = true

theorem endsCode_cons {c : Char} (hc : isCodeStop c = true) (rest : Text) : EndsCode (c :: rest) := by
  intro x hx
  cases hx
  exact hc

/-- A text without stops. -/
def IsUnbroken (t : Text) : Prop := ∀ c ∈ t, isCodeStop c = false

theorem isUnbroken_of_all {t : Text} (h : t.all (!isCodeStop ·) = true) : IsUnbroken t := by
  intro c hc
  rw [← Bool.not_eq_true']
  exact List.all_eq_true.1 h c hc

theorem IsUnbroken.append {t u : Text} (ht : IsUnbroken t) (hu : IsUnbroken u) : IsUnbroken (t ++ u) :=
  List.forall_mem_append.2 ⟨ht, hu⟩

/-- A text is unbroken if its characters are of a class without stops. -/
theorem isUnbroken_of_forall {p : Char → Prop} {t : Text} (h : ∀ c ∈ t, p c) (hspace : ¬ p ' ')
    (hclose : ¬ p ')') (hcomma : ¬ p ',') (hcolon : ¬ p ':') : IsUnbroken t := by
  intro c hc
  rw [← Bool.not_eq_true]
  intro hstop
  have hmem : c ∈ [' ', ')', ',', ':'] := List.contains_iff_mem.1 hstop
  simp only [List.mem_cons, List.not_mem_nil, or_false] at hmem
  rcases hmem with rfl | rfl | rfl | rfl
  · exact hspace (h _ hc)
  · exact hclose (h _ hc)
  · exact hcomma (h _ hc)
  · exact hcolon (h _ hc)

theorem takeWhile_unbroken_append {t rest : Text} (ht : IsUnbroken t) :
    (t ++ rest).takeWhile (!isCodeStop ·) = t ++ rest.takeWhile (!isCodeStop ·) :=
  List.takeWhile_append_of_pos fun c hc => by rw [ht c hc, Bool.not_false]

theorem EndsCode.takeWhile_eq {rest : Text} (h : EndsCode rest) :
    rest.takeWhile (!isCodeStop ·) = [] := by
  cases rest with
  | nil => rfl
  | cons c rest => rw [List.takeWhile_cons_of_neg (by rw [h c rfl]; simp)]

theorem BinaryOp.endsCode_symbol (op : BinaryOp) (rest : Text) : EndsCode (op.symbol ++ rest) := by
  cases op <;> exact endsCode_cons (by decide) _

/-- No symbol of an operator begins another one. -/
theorem BinaryOp.eq_of_symbol_append {op op' : BinaryOp} {rest rest' : Text}
    (h : op.symbol ++ rest = op'.symbol ++ rest') : op = op' ∧ rest = rest' := by
  have hop : op = op' := by
    have hbegins := List.prefix_or_prefix_of_prefix (List.prefix_append op.symbol rest)
      (h ▸ List.prefix_append op'.symbol rest')
    cases op <;> cases op' <;> first | rfl | exact absurd hbegins (by decide)
  subst hop
  exact ⟨rfl, List.append_cancel_left h⟩

/-! ## What a tree begins with -/

/-- The text before code that is enclosed. -/
def enclosureText (rounds : Bool) : Text := if rounds then "_f32(".toList else ['(']

theorem enclosed_eq (rounds : Bool) (code : Text) :
    enclosed rounds code = enclosureText rounds ++ (code ++ [')']) := by
  cases rounds <;> rfl

/-- A tree whose words and calls can be told from each other and from what is enclosed. -/
def InfixTree.Proper : InfixTree → Prop
  | .word chars => IsUnbroken chars ∧ '(' ∉ chars
  | .call opening => IsUnbroken opening ∧ '(' ∈ opening ∧ ∀ rounds, ¬ enclosureText rounds <+: opening
  | .rounded inner => inner.Proper
  | .infixed _ _ left right => left.Proper ∧ right.Proper

/-- The beginning of a tree. -/
inductive Beginning where
  | word (chars : Text)
  | call (opening : Text)
  | enclosure (rounds : Bool)

/-- What a tree begins with. -/
def InfixTree.beginning : InfixTree → Beginning
  | .word chars => .word chars
  | .call opening => .call opening
  | .rounded _ => .enclosure true
  | .infixed rounds _ _ _ => .enclosure rounds

/-- What the characters up to the first stop say that a text begins with. -/
def beginningOf (code : Text) : Beginning :=
  let start := code.takeWhile (!isCodeStop ·)
  if enclosureText false <+: start then .enclosure false
  else if enclosureText true <+: start then .enclosure true
  else if '(' ∈ start then .call start
  else .word start

theorem isUnbroken_enclosureText (rounds : Bool) : IsUnbroken (enclosureText rounds) := by
  cases rounds <;> exact isUnbroken_of_all (by decide)

theorem beginningOf_enclosure (rounds : Bool) (rest : Text) :
    beginningOf (enclosureText rounds ++ rest) = .enclosure rounds := by
  have hstart : (enclosureText rounds ++ rest).takeWhile (!isCodeStop ·) =
      enclosureText rounds ++ rest.takeWhile (!isCodeStop ·) :=
    takeWhile_unbroken_append (isUnbroken_enclosureText rounds)
  unfold beginningOf
  rw [hstart]
  cases rounds with
  | false => exact if_pos (List.prefix_append _ _)
  | true =>
    have hother : ¬ enclosureText false <+: enclosureText true ++ rest.takeWhile (!isCodeStop ·) := by
      simp [enclosureText]
    simp only [if_neg hother, List.prefix_append, if_true]

/-- A text tells what the tree begins with. -/
theorem InfixTree.beginningOf_text {t : InfixTree} (ht : t.Proper) {rest : Text}
    (hrest : EndsCode rest) : beginningOf (t.text ++ rest) = t.beginning := by
  cases t with
  | word chars =>
    obtain ⟨hunbroken, hparen⟩ := ht
    have hbegins (rounds : Bool) : ¬ enclosureText rounds <+: chars := fun h =>
      hparen (h.subset (by cases rounds <;> decide))
    simp only [beginningOf, InfixTree.text, takeWhile_unbroken_append hunbroken, hrest.takeWhile_eq,
      List.append_nil, if_neg (hbegins _), if_neg hparen, InfixTree.beginning]
  | call opening =>
    obtain ⟨hunbroken, hparen, hbegins⟩ := ht
    have hclose : EndsCode ([')'] ++ rest) := endsCode_cons (by decide) rest
    simp only [beginningOf, InfixTree.text, List.append_assoc, takeWhile_unbroken_append hunbroken,
      hclose.takeWhile_eq, List.append_nil, if_neg (hbegins _), if_pos hparen, InfixTree.beginning]
  | rounded inner =>
    rw [InfixTree.text, enclosed_eq, List.append_assoc, beginningOf_enclosure, InfixTree.beginning]
  | infixed rounds op left right =>
    rw [InfixTree.text, enclosed_eq, List.append_assoc, beginningOf_enclosure, InfixTree.beginning]

/-! ## Unique reading -/

section Reading

variable {t t' : InfixTree} {rest rest' : Text}

theorem InfixTree.beginning_eq (ht : t.Proper) (ht' : t'.Proper) (hrest : EndsCode rest)
    (hrest' : EndsCode rest') (h : t.text ++ rest = t'.text ++ rest') : t.beginning = t'.beginning := by
  rw [← InfixTree.beginningOf_text ht hrest, h, InfixTree.beginningOf_text ht' hrest']

theorem endsCode_close (rest : Text) : EndsCode (')' :: rest) := endsCode_cons (by decide) rest

theorem BinaryOp.symbol_append_ne_close (op : BinaryOp) : op.symbol ++ rest ≠ ')' :: rest' := by
  cases op <;> simp [BinaryOp.symbol]

/-- **The text of a tree can be read in one way only**, whatever follows it. -/
theorem InfixTree.eq_of_text_append (ht : t.Proper) (ht' : t'.Proper) (hrest : EndsCode rest)
    (hrest' : EndsCode rest') (h : t.text ++ rest = t'.text ++ rest') : t = t' ∧ rest = rest' := by
  induction t generalizing t' rest rest' with
  | word chars =>
    have hbeginning := InfixTree.beginning_eq ht ht' hrest hrest' h
    cases t' with
    | word chars' =>
      cases hbeginning
      exact ⟨rfl, List.append_cancel_left h⟩
    | call | rounded | infixed => cases hbeginning
  | call opening =>
    have hbeginning := InfixTree.beginning_eq ht ht' hrest hrest' h
    cases t' with
    | call opening' =>
      cases hbeginning
      exact ⟨rfl, List.append_cancel_left h⟩
    | word | rounded | infixed => cases hbeginning
  | rounded inner ih =>
    have hbeginning := InfixTree.beginning_eq ht ht' hrest hrest' h
    cases t' with
    | word | call => cases hbeginning
    | rounded inner' =>
      have hinner : inner'.Proper := ht'
      simp only [InfixTree.text, enclosed_eq, List.append_assoc, List.append_cancel_left_eq] at h
      obtain ⟨rfl, hclose⟩ := ih ht hinner (endsCode_close rest) (endsCode_close rest') h
      exact ⟨rfl, (List.cons.inj hclose).2⟩
    | infixed rounds op left right =>
      cases hbeginning
      simp only [InfixTree.text, enclosed_eq, List.append_assoc, List.append_cancel_left_eq] at h
      obtain ⟨_, hclose⟩ := ih ht ht'.1 (endsCode_close rest) (op.endsCode_symbol _) h
      exact absurd hclose.symm op.symbol_append_ne_close
  | infixed rounds op left right ihleft ihright =>
    have hbeginning := InfixTree.beginning_eq ht ht' hrest hrest' h
    cases t' with
    | word | call => cases hbeginning
    | rounded inner' =>
      have hinner : inner'.Proper := ht'
      cases hbeginning
      simp only [InfixTree.text, enclosed_eq, List.append_assoc, List.append_cancel_left_eq] at h
      obtain ⟨_, hclose⟩ := ihleft ht.1 hinner (op.endsCode_symbol _) (endsCode_close rest') h
      exact absurd hclose op.symbol_append_ne_close
    | infixed rounds' op' left' right' =>
      cases hbeginning
      simp only [InfixTree.text, enclosed_eq, List.append_assoc, List.append_cancel_left_eq] at h
      obtain ⟨rfl, hsymbol⟩ := ihleft ht.1 ht'.1 (op.endsCode_symbol _) (op'.endsCode_symbol _) h
      obtain ⟨rfl, hright⟩ := BinaryOp.eq_of_symbol_append hsymbol
      obtain ⟨rfl, hclose⟩ := ihright ht.2 ht'.2 (endsCode_close rest) (endsCode_close rest') hright
      exact ⟨rfl, (List.cons.inj hclose).2⟩

end Reading

end LogoLang
