import LogoLang.Proofs.Syntax.Statement
import LogoLang.Proofs.Syntax.Written

set_option autoImplicit false

/-! # Written words are read back

What is read where a written term or name stands and then the line ends or a space follows: the tree
of what was written, up to its places, with the cursor behind it. The tables of keywords are
searched in order, which finds the right entry because no keyword is the beginning of a later one.
-/

namespace LogoLang

/-! ## Words -/

theorem takeWhile_append_stop {p : Char → Bool} {word tail : Text} (hword : ∀ x ∈ word, p x = true)
    (htail : ∀ x ∈ tail.head?, p x = false) : (word ++ tail).takeWhile p = word := by
  rw [List.takeWhile_append_of_pos hword, takeWhile_of_head htail, List.append_nil]

/-- A text that starts with something other than a space, so that skipping spaces leaves it alone.
    -/
def IsWord (word : Text) : Prop := ∃ x rest, word = x :: rest ∧ isSpace x = false

theorem IsWord.dropWhile {word : Text} (h : IsWord word) (tail : Text) :
    (word ++ tail).dropWhile isSpace = word ++ tail := by
  obtain ⟨x, rest, rfl, hx⟩ := h
  rw [List.cons_append, List.dropWhile_cons, hx]
  rfl

/-- The space before a word is skipped and nothing else. -/
theorem IsWord.dropWhile_space {word : Text} (h : IsWord word) (tail : Text) :
    (' ' :: (word ++ tail)).dropWhile isSpace = word ++ tail := by
  rw [List.dropWhile_cons, if_pos (by decide), h.dropWhile]

theorem isWord_of_nameChars {word : Text} (hne : word ≠ [])
    (hword : ∀ x ∈ word, isNameChar x = true) : IsWord word := by
  obtain ⟨x, rest, rfl⟩ := List.exists_cons_of_ne_nil hne
  exact ⟨x, rest, rfl, isSpace_of_isNameChar (hword x (List.mem_cons_self ..))⟩

/-- A word ends before a text that is empty or starts with a space. -/
def EndsWord (tail : Text) : Prop := ∀ x ∈ tail.head?, isSpace x = true

theorem endsWord_nil : EndsWord [] := by
  intro x hx
  exact absurd hx (by simp)

theorem endsWord_space (rest : Text) : EndsWord (' ' :: rest) := by
  intro x hx
  cases hx
  decide

/-- A keyword has no space in it, so it does not reach beyond the end of a word. -/
theorem prefix_append_endsWord {keyword word tail : Text} (hkeyword : keyword.any isSpace = false)
    (htail : EndsWord tail) : keyword <+: word ++ tail ↔ keyword <+: word := by
  refine ⟨?_, fun h => h.trans (List.prefix_append word tail)⟩
  rintro ⟨rest, hrest⟩
  rcases List.append_eq_append_iff.1 hrest with ⟨extra, hlong, _⟩ | ⟨extra, hshort, htail'⟩
  · exact ⟨extra, hlong.symm⟩
  · cases extra with
    | nil => exact ⟨[], by simpa using hshort⟩
    | cons x xs =>
      -- the space after the word would be a part of the keyword
      have hany : keyword.any isSpace = true :=
        List.any_eq_true.2 ⟨x, by simp [hshort], htail x (by simp [htail'])⟩
      rw [hkeyword] at hany
      exact absurd hany (by simp)

theorem Cursor.after_word_rest {c : Cursor} {word tail : Text}
    (hrest : c.rest.dropWhile isSpace = word ++ tail) :
    (c.skipSpaces.after word.length).rest = tail.dropWhile isSpace := by
  rw [Cursor.after_rest, Cursor.skipSpaces_rest, hrest, List.drop_left]

/-! ## Keywords -/

section Keywords

variable {α : Type} {c : Cursor} {word tail : Text}

theorem Cursor.keyword?_self (hrest : c.rest.dropWhile isSpace = word ++ tail)
    (htail : EndsWord tail) :
    c.keyword? word = some (c.skipSpaces.spanOf word.length, c.skipSpaces.after word.length) := by
  have hruns : runsOn word tail = false :=
    runsOn_eq_false fun x hx => isNameChar_of_isSpace (htail x hx)
  exact Cursor.keyword?_eq_some_iff.2 ⟨⟨tail, hrest, hruns⟩, rfl, rfl⟩

/-- A keyword that is not the beginning of a word is not read there. -/
theorem Cursor.keyword?_eq_none_of_word {keyword : Text}
    (hrest : c.rest.dropWhile isSpace = word ++ tail) (htail : EndsWord tail)
    (hkeyword : keyword.any isSpace = false) (hbegins : ¬keyword <+: word) :
    c.keyword? keyword = none := by
  rw [Cursor.keyword?_eq_none_iff]
  intro rest hrest'
  rw [hrest] at hrest'
  exact absurd ((prefix_append_endsWord hkeyword htail).1 ⟨rest, hrest'.symm⟩) hbegins

/-- The keywords of a table have no spaces in them, and none is the beginning of a later one. -/
structure KeywordTable (keywords : List (Text × α)) : Prop where
  spaces : ∀ entry ∈ keywords, entry.1.any isSpace = false
  order : keywords.Pairwise fun entry later => ¬entry.1 <+: later.1

theorem Cursor.oneOf?_eq_none_of_word {keywords : List (Text × α)} (htable : KeywordTable keywords)
    (hrest : c.rest.dropWhile isSpace = word ++ tail) (htail : EndsWord tail)
    (hbegins : ∀ entry ∈ keywords, ¬entry.1 <+: word) : c.oneOf? keywords = none := by
  rw [Cursor.oneOf?_eq_none_iff]
  intro entry hentry
  exact Cursor.keyword?_eq_none_of_word hrest htail (htable.spaces entry hentry)
    (hbegins entry hentry)

theorem Cursor.oneOf?_of_mem {keywords : List (Text × α)} {a : α} (htable : KeywordTable keywords)
    (hmem : (word, a) ∈ keywords) (hrest : c.rest.dropWhile isSpace = word ++ tail)
    (htail : EndsWord tail) :
    c.oneOf? keywords =
      some (a, c.skipSpaces.spanOf word.length, c.skipSpaces.after word.length) := by
  obtain ⟨hspaces, horder⟩ := htable
  induction keywords with
  | nil => exact absurd hmem (by simp)
  | cons entry rest ih =>
    obtain ⟨keyword, value⟩ := entry
    rw [List.pairwise_cons] at horder
    rw [List.forall_mem_cons] at hspaces
    rw [Cursor.oneOf?]
    rcases List.mem_cons.1 hmem with heq | hlater
    · cases heq
      rw [Cursor.keyword?_self hrest htail]
    · rw [Cursor.keyword?_eq_none_of_word hrest htail hspaces.1 (horder.1 _ hlater)]
      exact ih hlater hspaces.2 horder.2

end Keywords

theorem truthKeywords_table : KeywordTable truthKeywords := ⟨by decide, by decide⟩

theorem operatorKeywords_table : KeywordTable operatorKeywords := ⟨by decide, by decide⟩

theorem queryKeywords_table : KeywordTable queryKeywords := ⟨by decide, by decide⟩

theorem stmtKeywords_table : KeywordTable stmtKeywords := ⟨by decide, by decide⟩

/-! ## Terms -/

theorem truthKeyword_mem (value : Bool) : (truthKeyword value, value) ∈ truthKeywords := by
  cases value <;> decide

theorem BinaryOp.keyword_mem (op : BinaryOp) : (op.keyword, op) ∈ operatorKeywords := by
  cases op <;> decide

theorem Query.keyword_mem (q : Query) : (q.keyword, q) ∈ queryKeywords := by
  cases q <;> decide

theorem head?_of_mem_truthKeywords : ∀ entry ∈ truthKeywords, entry.1.head? = some '"' := by
  decide

/-- The words of operators and questions start neither as a literal nor as a variable does. -/
theorem BinaryOp.head_keyword (op : BinaryOp) :
    op.keyword ≠ [] ∧ op.keyword.head? ≠ some '"' ∧ op.keyword.head? ≠ some ':' := by
  cases op <;> decide

theorem Query.head_keyword (q : Query) :
    q.keyword ≠ [] ∧ q.keyword.head? ≠ some '"' ∧ q.keyword.head? ≠ some ':' := by
  cases q <;> decide

theorem Term.isWord_print (t : Term) : IsWord t.print := by
  cases t with
  | truth value => cases value <;> exact ⟨_, _, rfl, by decide⟩
  | number literal => exact ⟨_, _, rfl, by decide⟩
  | var name => exact ⟨_, _, rfl, by decide⟩
  | query q => cases q <;> exact ⟨_, _, rfl, by decide⟩
  | binary op left right => cases op <;> exact ⟨_, _, rfl, by decide⟩

theorem Term.exists_fuel {t : Term} {fuel : Nat} (hfuel : t.print.length ≤ fuel) :
    ∃ n, fuel = n + 1 := by
  obtain ⟨x, rest, hprint, _⟩ := t.isWord_print
  rw [hprint, List.length_cons] at hfuel
  exact ⟨fuel - 1, by omega⟩

/-- A term was read: its tree up to the places, and the cursor after it and the spaces that follow.
    -/
def Term.ReadAs (t : Term) (tail : Text) (result : Option (Expr × Cursor)) : Prop :=
  ∃ e c, result = some (e, c) ∧ e.bare = t.expr ∧ c.rest = tail.dropWhile isSpace

section Terms

variable {c : Cursor} {tail : Text}

theorem readTruth?_print {value : Bool}
    (hrest : c.rest.dropWhile isSpace = truthKeyword value ++ tail)
    (htail : EndsWord tail) :
    Term.ReadAs (.truth value) tail (readTruth? c) := by
  rw [readTruth?, Cursor.oneOf?_of_mem truthKeywords_table (truthKeyword_mem value) hrest htail]
  exact ⟨_, _, rfl, rfl, Cursor.after_word_rest hrest⟩

theorem NumberLiteral.ne_nil (literal : NumberLiteral) : literal.text ≠ [] := by
  intro hnil
  have haccepted := literal.accepted
  rw [hnil] at haccepted
  exact absurd haccepted (by decide)

theorem isNumberChar_of_isSpace {x : Char} (h : isSpace x = true) : isNumberChar x = false := by
  simp only [isSpace, Bool.or_eq_true, beq_iff_eq] at h
  rcases h with rfl | rfl <;> decide

theorem readNumberLiteral?_print {literal : NumberLiteral}
    (hrest : c.rest.dropWhile isSpace = '"' :: literal.text ++ tail)
    (htail : EndsWord tail) :
    Term.ReadAs (.number literal) tail (readNumberLiteral? c) := by
  have htake : (literal.text ++ tail).takeWhile isNumberChar = literal.text :=
    takeWhile_append_stop literal.chars fun x hx => isNumberChar_of_isSpace (htail x hx)
  have hvalue : singleOfLiteral? literal.text = some literal.value :=
    (Option.some_get literal.accepted).symm
  have hlength : literal.text.length + 1 = ('"' :: literal.text).length := rfl
  rw [← Cursor.skipSpaces_rest] at hrest
  simp only [readNumberLiteral?, hrest, List.cons_append, htake, hvalue, List.isEmpty_iff,
    if_neg literal.ne_nil, hlength]
  rw [Cursor.skipSpaces_rest] at hrest
  exact ⟨_, _, rfl, rfl, Cursor.after_word_rest hrest⟩

theorem Name.ne_nil (name : Name) : name.text ≠ [] := (isNameChar_of_isValidName name.valid).1

theorem Name.chars (name : Name) : ∀ x ∈ name.text, isNameChar x = true :=
  (isNameChar_of_isValidName name.valid).2

theorem Name.isWord_text (name : Name) : IsWord name.text :=
  isWord_of_nameChars name.ne_nil name.chars

/-- A name is read up to the stop after it, whichever stops there are besides spaces. -/
theorem Name.takeWhile_text (name : Name) (stops : Text)
    (hstops : stops.any isNameChar = false) (hspaces : ' ' ∈ stops ∧ '\t' ∈ stops)
    (htail : EndsWord tail) :
    (name.text ++ tail).takeWhile (!stops.contains ·) = name.text := by
  apply takeWhile_append_stop
  · intro x hx
    rw [Bool.not_eq_true', ← Bool.not_eq_true, List.contains_iff_mem]
    intro hmem
    have hany : stops.any isNameChar = true := List.any_eq_true.2 ⟨x, hmem, name.chars x hx⟩
    rw [hstops] at hany
    exact absurd hany (by simp)
  · intro x hx
    rw [Bool.not_eq_false', List.contains_iff_mem]
    have hspace := htail x hx
    simp only [isSpace, Bool.or_eq_true, beq_iff_eq] at hspace
    rcases hspace with rfl | rfl
    · exact hspaces.1
    · exact hspaces.2

theorem readVariable?_print {name : Name}
    (hrest : c.rest.dropWhile isSpace = ':' :: name.text ++ tail)
    (htail : EndsWord tail) :
    Term.ReadAs (.var name) tail (readVariable? c) := by
  have htake := name.takeWhile_text variableStops (by decide) (by decide) htail
  have hlength : name.text.length + 1 = (':' :: name.text).length := rfl
  rw [← Cursor.skipSpaces_rest] at hrest
  simp only [readVariable?, hrest, List.cons_append, htake, List.isEmpty_iff,
    if_neg name.ne_nil, name.valid, hlength]
  rw [Cursor.skipSpaces_rest] at hrest
  exact ⟨_, _, rfl, rfl, Cursor.after_word_rest hrest⟩

theorem readQuery?_print {q : Query} (hrest : c.rest.dropWhile isSpace = q.keyword ++ tail)
    (htail : EndsWord tail) :
    Term.ReadAs (.query q) tail (readQuery? c) := by
  rw [readQuery?, Cursor.oneOf?_of_mem queryKeywords_table q.keyword_mem hrest htail]
  exact ⟨_, _, rfl, rfl, Cursor.after_word_rest hrest⟩

theorem readTruth?_eq_none {word : Text} (hrest : c.rest.dropWhile isSpace = word ++ tail)
    (htail : EndsWord tail)
    (hbegins : ∀ entry ∈ truthKeywords, ¬entry.1 <+: word) : readTruth? c = none := by
  rw [readTruth?, Option.map_eq_none_iff]
  exact Cursor.oneOf?_eq_none_of_word truthKeywords_table hrest htail hbegins

theorem readNumberLiteral?_eq_none {x : Char} {rest : Text}
    (hrest : c.rest.dropWhile isSpace = x :: rest) (hx : x ≠ '"') :
    readNumberLiteral? c = none := by
  rw [← Cursor.skipSpaces_rest] at hrest
  unfold readNumberLiteral?
  simp only [hrest]
  split
  · next heq => exact absurd (List.cons.inj heq).1 hx
  · rfl

theorem readVariable?_eq_none {x : Char} {rest : Text}
    (hrest : c.rest.dropWhile isSpace = x :: rest) (hx : x ≠ ':') : readVariable? c = none := by
  rw [← Cursor.skipSpaces_rest] at hrest
  unfold readVariable?
  simp only [hrest]
  split
  · next heq => exact absurd (List.cons.inj heq).1 hx
  · rfl

/-- The words of the other leaves start with a quote. -/
theorem not_truthKeyword_of_head {word : Text} (hhead : word.head? ≠ some '"') :
    ∀ entry ∈ truthKeywords, ¬entry.1 <+: word := by
  intro entry hentry hbegins
  obtain ⟨rest, hkeyword⟩ := List.head?_eq_some_iff.1 (head?_of_mem_truthKeywords entry hentry)
  obtain ⟨after, rfl⟩ := hbegins
  rw [hkeyword] at hhead
  exact hhead rfl

/-- A number has no letter in it, as the truth values do. -/
theorem NumberLiteral.not_truthKeyword (literal : NumberLiteral) :
    ∀ entry ∈ truthKeywords, ¬entry.1 <+: '"' :: literal.text := by
  intro entry hentry hbegins
  have hletter : ∀ entry ∈ truthKeywords, 'E' ∈ entry.1 := by decide
  -- the letter would be one of the digits, points and minus signs
  rcases List.mem_cons.1 (hbegins.subset (hletter entry hentry)) with hquote | hmem
  · exact absurd hquote (by decide)
  · exact absurd (literal.chars 'E' hmem) (by decide)

/-- Truth values, numbers and variables are told by their first character. -/
theorem readLeafBefore?_eq_none {word : Text} (hrest : c.rest.dropWhile isSpace = word ++ tail)
    (htail : EndsWord tail) (hne : word ≠ [])
    (hquote : word.head? ≠ some '"') (hcolon : word.head? ≠ some ':') :
    readLeafBefore? c = none := by
  obtain ⟨x, xs, rfl⟩ := List.exists_cons_of_ne_nil hne
  have htruth := readTruth?_eq_none hrest htail (not_truthKeyword_of_head hquote)
  rw [readLeafBefore?, htruth, readNumberLiteral?_eq_none hrest (by simpa using hquote),
    readVariable?_eq_none hrest (by simpa using hcolon)]
  rfl

/-- The leaves that are tried before the operators. -/
def Term.isEarlyLeaf : Term → Bool
  | .truth _ | .number _ | .var _ => true
  | .query _ | .binary .. => false

theorem readLeafBefore?_print {t : Term} (hleaf : t.isEarlyLeaf = true)
    (hrest : c.rest.dropWhile isSpace = t.print ++ tail)
    (htail : EndsWord tail) : t.ReadAs tail (readLeafBefore? c) := by
  cases t with
  | truth value =>
    obtain ⟨e, c', hread, he, hc⟩ := readTruth?_print hrest htail
    rw [readLeafBefore?, hread]
    exact ⟨e, c', rfl, he, hc⟩
  | number literal =>
    obtain ⟨e, c', hread, he, hc⟩ := readNumberLiteral?_print hrest htail
    rw [readLeafBefore?, readTruth?_eq_none hrest htail literal.not_truthKeyword, hread]
    exact ⟨e, c', rfl, he, hc⟩
  | var name =>
    have hhead : (':' :: name.text).head? ≠ some '"' := by simp
    obtain ⟨e, c', hread, he, hc⟩ := readVariable?_print hrest htail
    rw [readLeafBefore?, readTruth?_eq_none hrest htail (not_truthKeyword_of_head hhead),
      readNumberLiteral?_eq_none hrest (by decide), hread]
    exact ⟨e, c', rfl, he, hc⟩
  | query q => exact absurd hleaf (by simp [Term.isEarlyLeaf])
  | binary op left right => exact absurd hleaf (by simp [Term.isEarlyLeaf])

/-- An operator is read before its operands are. -/
theorem oneOf?_operator {op : BinaryOp} (hrest : c.rest.dropWhile isSpace = op.keyword ++ tail)
    (htail : EndsWord tail) :
    readLeafBefore? c = none ∧ ∃ span c₁, c.oneOf? operatorKeywords = some (op, span, c₁) ∧
      c₁.rest = tail.dropWhile isSpace := by
  obtain ⟨hne, hquote, hcolon⟩ := op.head_keyword
  refine ⟨readLeafBefore?_eq_none hrest htail hne hquote hcolon, _, _,
    Cursor.oneOf?_of_mem operatorKeywords_table op.keyword_mem hrest htail,
    Cursor.after_word_rest hrest⟩

theorem readExprWith?_of_earlyLeaf {t : Term} {fuel : Nat} (hleaf : t.isEarlyLeaf = true)
    (hrest : c.rest.dropWhile isSpace = t.print ++ tail)
    (htail : EndsWord tail) :
    t.ReadAs tail (readExprWith? (fuel + 1) c) := by
  obtain ⟨e, c', hread, he, hc⟩ := readLeafBefore?_print hleaf hrest htail
  rw [readExprWith?, hread]
  exact ⟨e, c', rfl, he, hc⟩

theorem readExprWith?_query {q : Query} {fuel : Nat}
    (hrest : c.rest.dropWhile isSpace = q.keyword ++ tail)
    (htail : EndsWord tail) :
    Term.ReadAs (.query q) tail (readExprWith? (fuel + 1) c) := by
  obtain ⟨hne, hquote, hcolon⟩ := q.head_keyword
  have hoperator : ∀ entry ∈ operatorKeywords, ¬entry.1 <+: q.keyword := by cases q <;> decide
  have hbefore := readLeafBefore?_eq_none hrest htail hne hquote hcolon
  obtain ⟨e, c', hread, he, hc⟩ := readQuery?_print hrest htail
  rw [readExprWith?, hbefore,
    Cursor.oneOf?_eq_none_of_word operatorKeywords_table hrest htail hoperator]
  simp only [readLeafAfter?, hread]
  exact ⟨e, c', rfl, he, hc⟩

end Terms

/-- **A term is read back**, whatever follows it after a space. Every operator takes up a character,
    so fuel for each character is enough. -/
theorem readExprWith?_print (t : Term) {fuel : Nat} {c : Cursor} {tail : Text}
    (hrest : c.rest.dropWhile isSpace = t.print ++ tail)
    (htail : EndsWord tail) (hfuel : t.print.length ≤ fuel) :
    t.ReadAs tail (readExprWith? fuel c) := by
  induction t generalizing fuel c tail with
  | truth value =>
    obtain ⟨fuel, rfl⟩ := Term.exists_fuel hfuel
    exact readExprWith?_of_earlyLeaf rfl hrest htail
  | number literal =>
    obtain ⟨fuel, rfl⟩ := Term.exists_fuel hfuel
    exact readExprWith?_of_earlyLeaf rfl hrest htail
  | var name =>
    obtain ⟨fuel, rfl⟩ := Term.exists_fuel hfuel
    exact readExprWith?_of_earlyLeaf rfl hrest htail
  | query q =>
    obtain ⟨fuel, rfl⟩ := Term.exists_fuel hfuel
    exact readExprWith?_query hrest htail
  | binary op left right ihl ihr =>
    obtain ⟨fuel, rfl⟩ := Term.exists_fuel hfuel
    have hlength : left.print.length ≤ fuel ∧ right.print.length ≤ fuel := by
      simp only [Term.print, List.length_append, List.length_cons] at hfuel
      omega
    have hline : Term.print (.binary op left right) ++ tail =
        op.keyword ++ ' ' :: (left.print ++ ' ' :: (right.print ++ tail)) := by
      simp [Term.print]
    rw [hline] at hrest
    -- each operand is read up to the space that ends it, where the next one starts
    obtain ⟨hbefore, span, c₁, hop, hc₁⟩ := oneOf?_operator hrest (endsWord_space _)
    rw [left.isWord_print.dropWhile_space] at hc₁
    have hrest₁ : c₁.rest.dropWhile isSpace = left.print ++ ' ' :: (right.print ++ tail) := by
      rw [hc₁, left.isWord_print.dropWhile]
    obtain ⟨e₁, c₂, hleft, he₁, hc₂⟩ := ihl hrest₁ (endsWord_space _) hlength.1
    rw [right.isWord_print.dropWhile_space] at hc₂
    have hrest₂ : c₂.rest.dropWhile isSpace = right.print ++ tail := by
      rw [hc₂, right.isWord_print.dropWhile]
    obtain ⟨e₂, c₃, hright, he₂, hc₃⟩ := ihr hrest₂ htail hlength.2
    rw [readExprWith?, hbefore, hop]
    simp only [hleft, hright, orMissing, Option.getD_some]
    refine ⟨_, c₃, rfl, ?_, hc₃⟩
    rw [Expr.bare, he₁, he₂, Term.expr]

/-- The rest of a line is long enough to serve as fuel. -/
theorem readExpr?_print (t : Term) {c : Cursor} {tail : Text}
    (hrest : c.rest.dropWhile isSpace = t.print ++ tail)
    (htail : EndsWord tail) : t.ReadAs tail (readExpr? c) := by
  have hlength : t.print.length ≤ c.rest.length + 1 := by
    have hdrop := (List.dropWhile_suffix isSpace (l := c.rest)).length_le
    rw [hrest, List.length_append] at hdrop
    omega
  exact readExprWith?_print t hrest htail hlength

/-! ## Rows of terms and names -/

/-- Nothing is read at the end of a line. -/
theorem readExpr?_nil {c : Cursor} (hrest : c.rest = []) : readExpr? c = none := by
  obtain ⟨pos, rest⟩ := c
  cases hrest
  rfl

theorem spaced_cons (word : Text) (words : List Text) :
    spaced (word :: words) = ' ' :: (word ++ spaced words) := by
  simp [spaced]

theorem endsWord_spaced (words : List Text) : EndsWord (spaced words) := by
  cases words with
  | nil => exact endsWord_nil
  | cons word rest =>
    rw [spaced_cons]
    exact endsWord_space _

theorem length_le_length_spaced (words : List Text) : words.length ≤ (spaced words).length := by
  induction words with
  | nil => exact Nat.le_refl _
  | cons word rest ih =>
    rw [spaced_cons]
    simp only [List.length_cons, List.length_append]
    omega

/-- A row of words is at least as long as there are words, also without the space before it. -/
theorem length_le_length_row {words : List Text}
    (hwords : ∀ word ∈ words, IsWord word) :
    words.length ≤ ((spaced words).dropWhile isSpace).length := by
  cases words with
  | nil => exact Nat.zero_le _
  | cons word rest =>
    obtain ⟨x, xs, rfl, hx⟩ := hwords word (List.mem_cons_self ..)
    have hrest := length_le_length_spaced rest
    rw [spaced_cons, List.dropWhile_cons, if_pos (by decide), List.cons_append, List.dropWhile_cons,
      hx]
    simp only [Bool.false_eq_true, if_false, List.length_cons, List.length_append]
    omega

theorem readExprsWith_print (ts : List Term) {fuel : Nat} {c : Cursor}
    (hrest : c.rest = (spaced (ts.map Term.print)).dropWhile isSpace) (hfuel : ts.length ≤ fuel) :
    ∃ es c', readExprsWith fuel c = (es, c') ∧ es.map Expr.bare = ts.map Term.expr ∧
      c'.rest = [] := by
  induction ts generalizing fuel c with
  | nil =>
    refine ⟨[], c, ?_, rfl, hrest⟩
    cases fuel with
    | zero => rfl
    | succ fuel => rw [readExprsWith, readExpr?_nil hrest]
  | cons t rest ih =>
    cases fuel with
    | zero => exact absurd hfuel (by simp)
    | succ fuel =>
      rw [List.map_cons, spaced_cons, t.isWord_print.dropWhile_space] at hrest
      have hprint : c.rest.dropWhile isSpace = t.print ++ spaced (rest.map Term.print) := by
        rw [hrest, t.isWord_print.dropWhile]
      obtain ⟨e, c₁, hread, he, hc₁⟩ := readExpr?_print t hprint (endsWord_spaced _)
      obtain ⟨es, c₂, hreads, hes, hc₂⟩ := ih hc₁ (Nat.le_of_succ_le_succ hfuel)
      refine ⟨e :: es, c₂, ?_, ?_, hc₂⟩
      · rw [readExprsWith, hread]
        simp only [hreads]
      · rw [List.map_cons, List.map_cons, he, hes]

/-- **A row of terms is read back.** -/
theorem readExprs_print (ts : List Term) {c : Cursor}
    (hrest : c.rest = (spaced (ts.map Term.print)).dropWhile isSpace) :
    ∃ es c', readExprs c = (es, c') ∧ es.map Expr.bare = ts.map Term.expr ∧ c'.rest = [] := by
  have hwords : ∀ word ∈ ts.map Term.print, IsWord word := by
    intro word hword
    obtain ⟨t, _, rfl⟩ := List.mem_map.1 hword
    exact t.isWord_print
  have hlength := length_le_length_row hwords
  rw [List.length_map, ← hrest] at hlength
  exact readExprsWith_print ts hrest hlength

theorem readTarget?_print (name : Name) {c : Cursor} {tail : Text}
    (hrest : c.rest.dropWhile isSpace = name.quoted ++ tail)
    (htail : EndsWord tail) :
    ∃ span c', readTarget? c = some (.named name.text span, c') ∧
      c'.rest = tail.dropWhile isSpace := by
  have htake := name.takeWhile_text quotedStops (by decide) (by decide) htail
  have hlength : name.text.length + 1 = name.quoted.length := rfl
  have hskip : c.skipSpaces.rest = '"' :: (name.text ++ tail) := by
    rw [Cursor.skipSpaces_rest, hrest]
    rfl
  unfold readTarget?
  simp only [hskip, htake, List.isEmpty_iff, if_neg name.ne_nil, Label.ofName, name.valid, if_true,
    hlength]
  exact ⟨_, _, rfl, Cursor.after_word_rest hrest⟩

/-- No parameter is read at the end of a line. -/
theorem readTarget?_nil {c : Cursor} (hrest : c.rest = []) : readTarget? c = none := by
  obtain ⟨pos, rest⟩ := c
  cases hrest
  rfl

theorem Name.isWord_quoted (name : Name) : IsWord name.quoted := ⟨'"', name.text, rfl, by decide⟩

theorem readParamsWith_print (names : List Name) {fuel : Nat} {c : Cursor}
    (hrest : c.rest = (spaced (names.map Name.quoted)).dropWhile isSpace)
    (hfuel : names.length ≤ fuel) :
    ∃ params c', readParamsWith fuel c = (params, c') ∧
      params.map Label.bare = names.map Name.label ∧ c'.rest = [] := by
  induction names generalizing fuel c with
  | nil =>
    refine ⟨[], c, ?_, rfl, hrest⟩
    cases fuel with
    | zero => rfl
    | succ fuel => rw [readParamsWith, readTarget?_nil hrest]
  | cons name rest ih =>
    cases fuel with
    | zero => exact absurd hfuel (by simp)
    | succ fuel =>
      rw [List.map_cons, spaced_cons, name.isWord_quoted.dropWhile_space] at hrest
      have hprint : c.rest.dropWhile isSpace = name.quoted ++ spaced (rest.map Name.quoted) := by
        rw [hrest, name.isWord_quoted.dropWhile]
      obtain ⟨span, c₁, hread, hc₁⟩ := readTarget?_print name hprint (endsWord_spaced _)
      obtain ⟨params, c₂, hreads, hparams, hc₂⟩ := ih hc₁ (Nat.le_of_succ_le_succ hfuel)
      refine ⟨.named name.text span :: params, c₂, ?_, ?_, hc₂⟩
      · rw [readParamsWith, hread]
        simp only [hreads]
      · rw [List.map_cons, List.map_cons, hparams]
        rfl

/-- **A row of parameters is read back.** -/
theorem readParams_print (names : List Name) {c : Cursor}
    (hrest : c.rest = (spaced (names.map Name.quoted)).dropWhile isSpace) :
    ∃ params c', readParams c = (params, c') ∧ params.map Label.bare = names.map Name.label ∧
      c'.rest = [] := by
  have hwords : ∀ word ∈ names.map Name.quoted, IsWord word := by
    intro word hword
    obtain ⟨name, _, rfl⟩ := List.mem_map.1 hword
    exact name.isWord_quoted
  have hlength := length_le_length_row hwords
  rw [List.length_map, ← hrest] at hlength
  exact readParamsWith_print names hrest hlength

end LogoLang
