import LogoLang.Proofs.Syntax.Operands

set_option autoImplicit false

/-! # Expressions cut out of a line

An expression without a flaw can be cut out of its line: the text that it covers is read as the same
expression, whatever follows it there (`Cursor.Parses.excerpt`). That is more than that it can be put into
a longer line. What follows an expression need not be a space, and a word of the line that is no keyword
can begin with one, so it has to be told from the text before its end that nothing else is read there:
no keyword of an expression begins with another one, nor with a number or a variable (`Apart`). -/

namespace LogoLang

/-! ## Words that are told apart -/

/-- Neither of two texts begins with the other. -/
def Apart (word word' : Text) : Prop := ¬word <+: word' ∧ ¬word' <+: word

instance (word word' : Text) : Decidable (Apart word word') :=
  inferInstanceAs (Decidable (_ ∧ _))

theorem apart_of_cons_ne {x y : Char} {word word' : Text} (h : x ≠ y) :
    Apart (x :: word) (y :: word') := by
  constructor
  · exact fun hprefix => h (List.cons_prefix_cons.1 hprefix).1
  · exact fun hprefix => h (List.cons_prefix_cons.1 hprefix).1.symm

/-- Only one of two texts that are apart stands at a cursor. -/
theorem Cursor.keyword?_eq_none_of_apart {c : Cursor} {keyword word : Text}
    (h : Apart keyword word) (hword : word <+: c.skipSpaces.rest) : c.keyword? keyword = none := by
  rw [Cursor.keyword?_eq_none_iff, ← Cursor.skipSpaces_rest]
  intro rest hrest
  rcases List.prefix_or_prefix_of_prefix ⟨rest, hrest.symm⟩ hword with hbegins | hbegins
  · exact absurd hbegins h.1
  · exact absurd hbegins h.2

theorem Cursor.oneOf?_eq_none_of_apart {α : Type} {c : Cursor} {keywords : List (Text × α)}
    {word : Text} (h : ∀ entry ∈ keywords, Apart entry.1 word) (hword : word <+: c.skipSpaces.rest) :
    c.oneOf? keywords = none :=
  Cursor.oneOf?_eq_none_iff.2 fun entry hentry =>
    Cursor.keyword?_eq_none_of_apart (h entry hentry) hword

theorem Cursor.prefix_of_keyword? {c after : Cursor} {keyword : Text} {span : Span}
    (h : c.keyword? keyword = some (span, after)) : keyword <+: c.skipSpaces.rest := by
  obtain ⟨⟨rest, hrest, _⟩, _, _⟩ := Cursor.keyword?_eq_some_iff.1 h
  exact ⟨rest, by rw [Cursor.skipSpaces_rest, hrest]⟩

/-! ## Keywords cut out of a line -/

section Keywords

variable {distance : Nat} {tail : Text} {c after : Cursor} {span : Span}

theorem runsOn_of_append {keyword text : Text} (h : runsOn keyword (text ++ tail) = false) :
    runsOn keyword text = false := by
  cases text with
  | nil => exact runsOn_eq_false (by simp)
  | cons x rest => exact h

/-- What is read where the excerpt stands in its line, and ends by its end, fits into the excerpt. -/
theorem Cursor.length_le_of_stop_le
    (hstart : span.start = (c.embed distance tail).skipSpaces.pos)
    (hstop : span.stop ≤ c.stop + distance) : span.length ≤ c.skipSpaces.rest.length := by
  have hskip := (Cursor.movesTo_skipSpaces (c.skipSpaces.embed distance tail)).pos_le
  rw [Cursor.skipSpaces_embed, ← hstart] at hskip
  have hend := (Cursor.movesTo_skipSpaces c).stop_eq
  simp only [Cursor.embed, Cursor.stop, Span.stop] at hskip hend hstop
  omega

/-- **A keyword inside the excerpt is read there, too.** -/
theorem Cursor.keyword?_excerpt {keyword : Text} (hne : keyword ≠ [])
    (h : (c.embed distance tail).keyword? keyword = some (span, after))
    (hstop : span.stop ≤ c.stop + distance) :
    ∃ span' after', c.keyword? keyword = some (span', after') ∧ span = span'.shift distance ∧
      after = (after'.embed distance tail).skipSpaces := by
  obtain ⟨⟨rest, hrest, hruns⟩, rfl, rfl⟩ := Cursor.keyword?_eq_some_iff.1 h
  have hlength : keyword.length ≤ c.skipSpaces.rest.length :=
    Cursor.length_le_of_stop_le rfl hstop
  have hspaces : c.skipSpaces.rest ≠ [] := by
    refine List.length_pos_iff.1 (Nat.lt_of_lt_of_le ?_ hlength)
    exact List.length_pos_iff.2 hne
  rw [← Cursor.skipSpaces_rest] at hrest
  rw [Cursor.embed_skipSpaces hspaces] at hrest ⊢
  -- the keyword stands in what the excerpt has of the line
  have hlong : keyword <+: c.skipSpaces.rest ++ tail := ⟨rest, hrest.symm⟩
  obtain ⟨more, hmore⟩ :=
    List.prefix_of_prefix_length_le hlong (List.prefix_append _ _) hlength
  rw [Cursor.embed, ← hmore, List.append_assoc, List.append_cancel_left_eq] at hrest
  rw [← hrest] at hruns
  refine ⟨_, _, Cursor.keyword?_eq_some_iff.2 ⟨⟨more, ?_, runsOn_of_append hruns⟩, rfl, rfl⟩, rfl, ?_⟩
  · rw [← Cursor.skipSpaces_rest, hmore]
  · exact Cursor.embed_after hlength

/-- A table in which no keyword begins with another one. -/
structure ApartTable {α : Type} (keywords : List (Text × α)) : Prop where
  ne_nil : ∀ entry ∈ keywords, entry.1 ≠ []
  apart : keywords.Pairwise fun entry later => Apart entry.1 later.1

/-- **The same keyword of a table is found in the excerpt.** -/
theorem Cursor.oneOf?_excerpt {α : Type} {keywords : List (Text × α)} {a : α}
    (htable : ApartTable keywords)
    (h : (c.embed distance tail).oneOf? keywords = some (a, span, after))
    (hstop : span.stop ≤ c.stop + distance) :
    ∃ span' after', c.oneOf? keywords = some (a, span', after') ∧ span = span'.shift distance ∧
      after = (after'.embed distance tail).skipSpaces := by
  obtain ⟨hne, hapart⟩ := htable
  induction keywords with
  | nil => exact absurd h (by simp [Cursor.oneOf?])
  | cons entry rest ih =>
    obtain ⟨keyword, value⟩ := entry
    rw [List.forall_mem_cons] at hne
    rw [List.pairwise_cons] at hapart
    rw [Cursor.oneOf?] at h ⊢
    split at h
    · next span₀ after₀ hkey =>
      cases h
      obtain ⟨span', after', hkey', hspan, hafter⟩ := Cursor.keyword?_excerpt hne.1 hkey hstop
      exact ⟨span', after', by rw [hkey'], hspan, hafter⟩
    · -- a later keyword is read in the excerpt, so that this one is not
      obtain ⟨later, hmem, hkey⟩ := Cursor.oneOf?_eq_some h
      obtain ⟨_, _, hkey', _⟩ := Cursor.keyword?_excerpt (hne.2 _ hmem) hkey hstop
      rw [Cursor.keyword?_eq_none_of_apart (hapart.1 _ hmem) (Cursor.prefix_of_keyword? hkey')]
      exact ih h hne.2 hapart.2

end Keywords

theorem truthKeywords_apart : ApartTable truthKeywords := ⟨by decide, by decide⟩

theorem operatorKeywords_apart : ApartTable operatorKeywords := ⟨by decide, by decide⟩

theorem queryKeywords_apart : ApartTable queryKeywords := ⟨by decide, by decide⟩

/-! ## Leaves cut out of a line -/

section Leaves

variable {distance : Nat} {tail : Text} {c after : Cursor} {e : Expr}

theorem readTruth?_eq_none_of_apart {word : Text}
    (h : ∀ entry ∈ truthKeywords, Apart entry.1 word) (hword : word <+: c.skipSpaces.rest) :
    readTruth? c = none := by
  rw [readTruth?, Cursor.oneOf?_eq_none_of_apart h hword]
  rfl

theorem readTruth?_eq_none_of_head {x : Char} {word : Text} (hquote : x ≠ '"')
    (hword : x :: word <+: c.skipSpaces.rest) : readTruth? c = none := by
  refine readTruth?_eq_none_of_apart (fun entry hentry => ?_) hword
  obtain ⟨rest, hkeyword⟩ := List.head?_eq_some_iff.1 (head?_of_mem_truthKeywords entry hentry)
  rw [hkeyword]
  exact apart_of_cons_ne hquote.symm

/-- A word that starts with neither a quote nor a colon is none of the leaves that are tried first. -/
theorem readLeafBefore?_eq_none_of_head {x : Char} {word : Text} (hquote : x ≠ '"') (hcolon : x ≠ ':')
    (hword : x :: word <+: c.skipSpaces.rest) : readLeafBefore? c = none := by
  have htruth := readTruth?_eq_none_of_head hquote hword
  obtain ⟨rest, hrest⟩ := hword
  rw [Cursor.skipSpaces_rest] at hrest
  rw [readLeafBefore?, htruth, readNumberLiteral?_eq_none hrest.symm hquote,
    readVariable?_eq_none hrest.symm hcolon]
  rfl

/-- Where a number is read there are a quote and characters of a number. -/
theorem word_of_readNumberLiteral? (h : readNumberLiteral? c = some (e, after)) :
    ∃ rest, c.skipSpaces.rest = '"' :: rest ∧ rest.takeWhile isNumberChar ≠ [] ∧
      e.span = c.skipSpaces.spanOf ((rest.takeWhile isNumberChar).length + 1) := by
  simp only [readNumberLiteral?, List.isEmpty_iff] at h
  split at h
  · next rest hrest =>
    split at h
    · exact absurd h (by simp)
    · next hne =>
      cases h
      refine ⟨rest, hrest, hne, ?_⟩
      split <;> rfl
  · exact absurd h (by simp)

/-- Where a variable is read there are a colon and further characters. -/
theorem word_of_readVariable? (h : readVariable? c = some (e, after)) :
    ∃ rest, c.skipSpaces.rest = ':' :: rest ∧
      e.span = c.skipSpaces.spanOf ((rest.takeWhile (!variableStops.contains ·)).length + 1) := by
  simp only [readVariable?] at h
  split at h
  · next rest hrest =>
    split at h
    · exact absurd h (by simp)
    · cases h
      refine ⟨rest, hrest, ?_⟩
      split <;> rfl
  · exact absurd h (by simp)

/-- No truth value begins with a number, nor the other way round. -/
theorem truthKeywords_apart_number {word : Text} (hne : word ≠ [])
    (hword : ∀ x ∈ word, isNumberChar x = true) :
    ∀ entry ∈ truthKeywords, Apart entry.1 ('"' :: word) := by
  obtain ⟨x, rest, rfl⟩ := List.exists_cons_of_ne_nil hne
  have hletter : ∀ entry ∈ truthKeywords, ∃ y more, entry.1 = '"' :: y :: more ∧
      isNumberChar y = false := by
    simp only [truthKeywords, List.forall_mem_cons]
    exact ⟨⟨_, _, rfl, by decide⟩, ⟨_, _, rfl, by decide⟩, by simp⟩
  intro entry hentry
  obtain ⟨y, more, hkeyword, hy⟩ := hletter entry hentry
  have hdiff : y ≠ x := by
    rintro rfl
    exact absurd (hword y List.mem_cons_self) (by simp [hy])
  have hapart : Apart (y :: more) (x :: rest) := apart_of_cons_ne hdiff
  rw [hkeyword]
  exact ⟨fun h => hapart.1 (List.cons_prefix_cons.1 h).2,
    fun h => hapart.2 (List.cons_prefix_cons.1 h).2⟩

/-- A word that ends inside a text ends there whatever follows the text. -/
theorem takeWhile_append_of_length_le {p : Char → Bool} {text tail : Text}
    (h : ((text ++ tail).takeWhile p).length ≤ text.length) :
    (text ++ tail).takeWhile p = text.takeWhile p := by
  induction text with
  | nil => exact List.length_eq_zero_iff.1 (Nat.le_zero.1 h)
  | cons x rest ih =>
    rw [List.cons_append, List.takeWhile_cons] at h ⊢
    rw [List.takeWhile_cons]
    split
    · next hx =>
      rw [if_pos hx, List.length_cons, List.length_cons] at h
      rw [ih (Nat.le_of_succ_le_succ h)]
    · rfl

/-- The word after a sign, if it ends inside the excerpt, ends where it ends in the line. -/
theorem Cursor.takeWhile_excerpt {p : Char → Bool} {sign : Char} {rest : Text} {span : Span}
    (hrest : (c.embed distance tail).skipSpaces.rest = sign :: rest)
    (hspan : span =
      (c.embed distance tail).skipSpaces.spanOf ((rest.takeWhile p).length + 1))
    (hstop : span.stop ≤ c.stop + distance) :
    ∃ more, c.skipSpaces.rest = sign :: more ∧ rest = more ++ tail ∧
      (more ++ tail).takeWhile p = more.takeWhile p := by
  subst hspan
  have hlength := Cursor.length_le_of_stop_le rfl hstop
  have hspaces : c.skipSpaces.rest ≠ [] :=
    List.length_pos_iff.1 (Nat.lt_of_lt_of_le (Nat.succ_pos _) hlength)
  obtain ⟨x, more, hmore⟩ := List.exists_cons_of_ne_nil hspaces
  rw [Cursor.embed_cons hmore] at hrest
  obtain ⟨rfl, rfl⟩ := List.cons.inj hrest
  rw [hmore, List.length_cons] at hlength
  exact ⟨more, hmore, rfl, takeWhile_append_of_length_le (Nat.le_of_succ_le_succ hlength)⟩

/-- **A literal or a variable inside the excerpt is read there, too.** -/
theorem readLeafBefore?_excerpt (h : readLeafBefore? (c.embed distance tail) = some (e, after))
    (hstop : e.span.stop ≤ c.stop + distance) :
    ∃ result, readLeafBefore? c = some result ∧ (e, after) = embedResult distance tail result := by
  simp only [readLeafBefore?, Option.or_eq_some_iff] at h
  rcases h with h | ⟨_, h | ⟨_, h⟩⟩
  · simp only [readTruth?, Option.map_eq_some_iff, Prod.exists] at h
    obtain ⟨value, span, after', hkey, hexpr⟩ := h
    cases hexpr
    obtain ⟨span', after', hkey', rfl, rfl⟩ := Cursor.oneOf?_excerpt truthKeywords_apart hkey hstop
    refine ⟨(.truth value span', after'), ?_, rfl⟩
    rw [readLeafBefore?, readTruth?, hkey']
    rfl
  · obtain ⟨rest, hrest, hne, hspan⟩ := word_of_readNumberLiteral? h
    obtain ⟨more, hmore, rfl, htake⟩ := Cursor.takeWhile_excerpt hrest hspan hstop
    have hembed : readNumberLiteral? (c.embed distance tail) =
        (readNumberLiteral? c).map (embedResult distance tail) :=
      readNumberLiteral?_embed (by rw [hmore]; exact List.cons_ne_nil _ _)
        (by rw [hmore, List.tail_cons, htake])
    obtain ⟨result, hresult, heq⟩ := Option.map_eq_some_iff.1 (hembed.symm.trans h)
    rw [htake] at hne
    have htruth : readTruth? c = none := by
      refine readTruth?_eq_none_of_apart
        (truthKeywords_apart_number hne fun _ => List.mem_takeWhile_imp) ?_
      rw [hmore]
      exact List.cons_prefix_cons.2 ⟨rfl, List.takeWhile_prefix _⟩
    refine ⟨result, ?_, heq.symm⟩
    rw [readLeafBefore?, htruth, hresult]
    rfl
  · obtain ⟨rest, hrest, hspan⟩ := word_of_readVariable? h
    obtain ⟨more, hmore, rfl, htake⟩ := Cursor.takeWhile_excerpt hrest hspan hstop
    have hembed : readVariable? (c.embed distance tail) =
        (readVariable? c).map (embedResult distance tail) :=
      readVariable?_embed (by rw [hmore]; exact List.cons_ne_nil _ _)
        (by rw [hmore, List.tail_cons, htake])
    obtain ⟨result, hresult, heq⟩ := Option.map_eq_some_iff.1 (hembed.symm.trans h)
    have hquote : ':' ≠ '"' := by decide
    have htruth : readTruth? c = none :=
      readTruth?_eq_none_of_head hquote ⟨[], by rw [List.append_nil, hmore]⟩
    rw [Cursor.skipSpaces_rest] at hmore
    refine ⟨result, ?_, heq.symm⟩
    rw [readLeafBefore?, htruth, readNumberLiteral?_eq_none hmore hquote, hresult]
    rfl

/-- Where a keyword is read that starts with neither a quote nor a colon, none of the leaves that are
    tried first is. -/
theorem readLeafBefore?_eq_none_of_oneOf? {α : Type} {keywords : List (Text × α)} {a : α}
    {span : Span} (hkeywords : ∀ entry ∈ keywords,
      entry.1 ≠ [] ∧ entry.1.head? ≠ some '"' ∧ entry.1.head? ≠ some ':')
    (h : c.oneOf? keywords = some (a, span, after)) : readLeafBefore? c = none := by
  obtain ⟨keyword, hmem, hkey⟩ := Cursor.oneOf?_eq_some h
  obtain ⟨hne, hquote, hcolon⟩ := hkeywords _ hmem
  have hword := Cursor.prefix_of_keyword? hkey
  obtain ⟨x, rest, rfl⟩ := List.exists_cons_of_ne_nil hne
  exact readLeafBefore?_eq_none_of_head (fun hx => hquote (congrArg some hx))
    (fun hx => hcolon (congrArg some hx)) hword

/-- Where there is a question to the turtle nothing else is read. -/
theorem readExpr?_of_readQuery? {result : Expr × Cursor} (h : readQuery? c = some result) :
    readExpr? c = some result := by
  have hquery := h
  rw [readQuery?, Option.map_eq_some_iff] at h
  obtain ⟨⟨query, span, after⟩, hkey, _⟩ := h
  obtain ⟨keyword, hmem, hword⟩ := Cursor.oneOf?_eq_some hkey
  have hoperators : ∀ entry ∈ queryKeywords, ∀ operator ∈ operatorKeywords,
      Apart operator.1 entry.1 := by decide
  have hop : c.oneOf? operatorKeywords = none :=
    Cursor.oneOf?_eq_none_of_apart (hoperators _ hmem) (Cursor.prefix_of_keyword? hword)
  have hbefore : readLeafBefore? c = none := readLeafBefore?_eq_none_of_oneOf? (by decide) hkey
  rw [readExpr?_eq, hbefore, hop, readLeafAfter?, hquery]
  rfl

/-- **A question to the turtle inside the excerpt is read there, too.** -/
theorem readQuery?_excerpt (h : readQuery? (c.embed distance tail) = some (e, after))
    (hstop : e.span.stop ≤ c.stop + distance) :
    ∃ result, readExpr? c = some result ∧ (e, after) = embedResult distance tail result := by
  simp only [readQuery?, Option.map_eq_some_iff, Prod.exists] at h
  obtain ⟨query, span, after', hkey, hexpr⟩ := h
  cases hexpr
  obtain ⟨span', after', hkey', rfl, rfl⟩ := Cursor.oneOf?_excerpt queryKeywords_apart hkey hstop
  refine ⟨(.query query span', after'), readExpr?_of_readQuery? ?_, rfl⟩
  rw [readQuery?, hkey', Option.map_some]

end Leaves

/-! ## Expressions cut out of a line -/

section Expressions

variable {distance : Nat} {tail : Text} {c c' after : Cursor} {e : Expr}

theorem readLeafBefore?_skipSpaces (c : Cursor) :
    readLeafBefore? c.skipSpaces = readLeafBefore? c := by
  simp only [readLeafBefore?, readTruth?, readNumberLiteral?, readVariable?, Cursor.oneOf?_skipSpaces,
    Cursor.skipSpaces_idem]

/-- An operand without a flaw is one that was read. -/
theorem Cursor.Parses.readExpr?_eq_some (h : c.Parses e after) (hflaw : e.firstFlaw? = none) :
    readExpr? c = some (e, after) :=
  eq_some_of_orMissing h.orMissing_eq hflaw

/-- **An expression without a flaw is read in its excerpt as in the line**, if the excerpt does not end
    before it. -/
theorem Cursor.Parses.excerpt (h : c'.Parses e after) (hflaw : e.firstFlaw? = none)
    (hc : c'.skipSpaces = (c.embed distance tail).skipSpaces)
    (hstop : e.span.stop ≤ c.stop + distance) :
    ∃ result, readExpr? c = some result ∧ (e, after) = embedResult distance tail result := by
  induction h generalizing c with
  | before hleaf =>
    rw [← readLeafBefore?_skipSpaces, hc, readLeafBefore?_skipSpaces] at hleaf
    obtain ⟨result, hresult, heq⟩ := readLeafBefore?_excerpt hleaf hstop
    exact ⟨result, by rw [readExpr?_eq, hresult], heq⟩
  | @binary c' c₁ c₂ c₃ op span left right hbefore hop hleft hright ihleft ihright =>
    rw [Expr.firstFlaw?, Option.or_eq_none_iff] at hflaw
    rw [← Cursor.oneOf?_skipSpaces, hc, Cursor.oneOf?_skipSpaces] at hop
    obtain ⟨span', c₁', hop', rfl, rfl⟩ := Cursor.oneOf?_excerpt operatorKeywords_apart hop
      (Nat.le_trans (Span.stop_le_cover_first _ _) hstop)
    have hmove := (Cursor.takes_of_oneOf? (by decide) hop').moves
    -- neither operand is missing, so that the place of the whole goes on to its end
    have hreadLeft := hleft.readExpr?_eq_some hflaw.1
    have hreadRight := hright.readExpr?_eq_some hflaw.2
    have hstopLeft := Nat.le_trans (Span.stop_le_cover List.mem_cons_self
      (reads_of_readExprWith? hreadLeft).takes.length_pos) hstop
    have hstopRight := Nat.le_trans (Span.stop_le_cover (List.mem_cons_of_mem _ List.mem_cons_self)
      (reads_of_readExprWith? hreadRight).takes.length_pos) hstop
    rw [← hmove.stop_eq] at hstopLeft hstopRight
    obtain ⟨⟨left', c₂'⟩, hleft', heqLeft⟩ :=
      ihleft hflaw.1 (Cursor.skipSpaces_idem _) hstopLeft
    cases heqLeft
    have hmoveLeft := (reads_of_readExprWith? hleft').takes.moves
    rw [← hmoveLeft.stop_eq] at hstopRight
    obtain ⟨⟨right', c₃'⟩, hright', heqRight⟩ :=
      ihright hflaw.2 (Cursor.skipSpaces_idem _) hstopRight
    cases heqRight
    have hbefore' : readLeafBefore? c = none :=
      readLeafBefore?_eq_none_of_oneOf? (by decide) hop'
    refine ⟨readOperands op span' c₁', by rw [readExpr?_eq, hbefore', hop'], ?_⟩
    simp only [readOperands, hleft', hright', orMissing, Option.getD_some, embedResult,
      Expr.span_shift, Expr.shift, ← Span.shift_cover]
    rfl
  | after hbefore hop hleaf =>
    have hquery := readLeafAfter?_eq_some_of_flawless hleaf hflaw
    rw [readQuery?, ← Cursor.oneOf?_skipSpaces, hc, Cursor.oneOf?_skipSpaces] at hquery
    exact readQuery?_excerpt hquery hstop
  | missing hnone => exact absurd hflaw (by simp [missingOperand, Expr.firstFlaw?])

end Expressions

end LogoLang
