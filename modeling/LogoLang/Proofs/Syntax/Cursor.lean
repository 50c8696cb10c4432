import LogoLang.Proofs.Text.Blank
import LogoLang.Syntax.Expression

set_option autoImplicit false

/-! # Moving along a line

What the cursor functions do to the rest of the line. `Cursor.keyword?_eq_some_iff` says when a
keyword is read, and `Cursor.keyword?_of_word` that a whole word of name characters is read as a
keyword only if it is that keyword. -/

namespace LogoLang

/-! ## Spaces -/

theorem drop_length_takeWhile (p : Char → Bool) (t : Text) :
    t.drop (t.takeWhile p).length = t.dropWhile p := by
  have h : (t.takeWhile p ++ t.dropWhile p).drop (t.takeWhile p).length = t.dropWhile p :=
    List.drop_left
  rwa [List.takeWhile_append_dropWhile] at h

@[simp]
theorem Cursor.skipSpaces_rest (c : Cursor) : c.skipSpaces.rest = c.rest.dropWhile isSpace :=
  drop_length_takeWhile isSpace c.rest

@[simp]
theorem Cursor.after_rest (c : Cursor) (length : Nat) :
    (c.after length).rest = (c.rest.drop length).dropWhile isSpace := by
  rw [Cursor.after, Cursor.skipSpaces_rest, Cursor.advance]

@[simp]
theorem Cursor.start_rest (line : Text) : (Cursor.start line).rest = line := rfl

/-- A text that starts with no space is left as it is. -/
theorem dropWhile_isSpace_of_head {t : Text} (h : ∀ c ∈ t.head?, isSpace c = false) :
    t.dropWhile isSpace = t := by
  cases t with
  | nil => rfl
  | cons c rest => rw [List.dropWhile_cons, h c rfl]; rfl

theorem head_dropWhile_isSpace (t : Text) :
    ∀ c ∈ (t.dropWhile isSpace).head?, isSpace c = false := by
  intro c hc
  have h := List.head?_dropWhile_not isSpace t
  rw [Option.mem_def.1 hc] at h
  exact h

/-! ## Words -/

theorem wordUntil_wordStops (c : Cursor) :
    c.wordUntil wordStops = c.rest.takeWhile (!isSpace ·) := by
  simp only [Cursor.wordUntil, wordStops_contains]

theorem firstWord_eq_takeWhile (line : Text) :
    firstWord line = (line.dropWhile isSpace).takeWhile (!isSpace ·) := by
  rw [firstWord, wordUntil_wordStops, Cursor.skipSpaces_rest, Cursor.start_rest]

/-- A text without spaces is one word up to the space after it. -/
theorem takeWhile_word {word rest : Text} (hword : ∀ c ∈ word, isSpace c = false) :
    (word ++ rest).takeWhile (!isSpace ·) = word ++ rest.takeWhile (!isSpace ·) := by
  apply List.takeWhile_append_of_pos
  intro c hc
  rw [hword c hc]
  rfl

/-- Nothing is taken of a text that starts with a stop. -/
theorem takeWhile_of_head {p : Char → Bool} {t : Text} (h : ∀ c ∈ t.head?, p c = false) :
    t.takeWhile p = [] := by
  cases t with
  | nil => rfl
  | cons c rest => rw [List.takeWhile_cons, h c rfl]; rfl

theorem takeWhile_of_head_isSpace {rest : Text} (h : ∀ c ∈ rest.head?, isSpace c = true) :
    rest.takeWhile (!isSpace ·) = [] :=
  takeWhile_of_head fun c hc => by rw [h c hc]; rfl

/-- What follows the first word of a text is nothing or starts with a space. -/
theorem exists_after_word (t : Text) :
    ∃ rest, t = t.takeWhile (!isSpace ·) ++ rest ∧ ∀ c ∈ rest.head?, isSpace c = true := by
  refine ⟨t.dropWhile (!isSpace ·), List.takeWhile_append_dropWhile.symm, fun c hc => ?_⟩
  have hstop := List.head?_dropWhile_not (!isSpace ·) t
  rw [Option.mem_def.1 hc] at hstop
  simpa using hstop

/-! ## Keywords -/

theorem Cursor.keyword?_eq_some_iff {c after : Cursor} {keyword : Text} {span : Span} :
    c.keyword? keyword = some (span, after) ↔
      (∃ rest, c.rest.dropWhile isSpace = keyword ++ rest ∧ runsOn keyword rest = false) ∧
        span = c.skipSpaces.spanOf keyword.length ∧ after = c.skipSpaces.after keyword.length := by
  simp only [Cursor.keyword?, Cursor.skipSpaces_rest, Bool.and_eq_true, Bool.not_eq_true',
    List.isPrefixOf_iff_prefix]
  constructor
  · intro h
    split at h
    · next hcond =>
      obtain ⟨⟨rest, hrest⟩, hruns⟩ := hcond
      rw [← hrest, List.drop_left] at hruns
      simp only [Option.some.injEq, Prod.mk.injEq] at h
      exact ⟨⟨rest, hrest.symm, hruns⟩, h.1.symm, h.2.symm⟩
    · exact absurd h (by simp)
  · rintro ⟨⟨rest, hrest, hruns⟩, rfl, rfl⟩
    rw [hrest, List.drop_left, if_pos ⟨⟨rest, rfl⟩, hruns⟩]

theorem Cursor.keyword?_eq_none_iff {c : Cursor} {keyword : Text} :
    c.keyword? keyword = none ↔
      ∀ rest, c.rest.dropWhile isSpace = keyword ++ rest → runsOn keyword rest = true := by
  constructor
  · intro h rest hrest
    cases hruns : runsOn keyword rest with
    | true => rfl
    | false =>
      have hsome := Cursor.keyword?_eq_some_iff.2 ⟨⟨rest, hrest, hruns⟩, rfl, rfl⟩
      rw [h] at hsome
      exact absurd hsome (by simp)
  · intro h
    cases hkey : c.keyword? keyword with
    | none => rfl
    | some result =>
      obtain ⟨rest, hrest, hruns⟩ := (Cursor.keyword?_eq_some_iff.1 hkey).1
      rw [h rest hrest] at hruns
      exact absurd hruns (by simp)

theorem runsOn_eq_false {keyword rest : Text} (h : ∀ c ∈ rest.head?, isNameChar c = false) :
    runsOn keyword rest = false := by
  unfold runsOn
  split
  · next hnext => rw [h _ hnext, Bool.and_false]
  · rfl

theorem runsOn_cons {keyword : Text} {next : Char} {rest : Text} (hne : keyword ≠ [])
    (hkeyword : ∀ c ∈ keyword, isNameChar c = true) (hnext : isNameChar next = true) :
    runsOn keyword (next :: rest) = true := by
  have hlast : keyword.getLast? = some (keyword.getLast hne) := List.getLast?_eq_some_getLast hne
  simp only [runsOn, hlast, List.head?_cons, hkeyword _ (List.getLast_mem hne), hnext,
    Bool.and_self]

/-- A word of name characters is read as a keyword exactly if it is that keyword: the keyword is
    neither a part of the word nor longer than it. -/
theorem Cursor.keyword?_of_word {c : Cursor} {word rest keyword : Text}
    (hrest : c.rest.dropWhile isSpace = word ++ rest)
    (hword : ∀ x ∈ word, isNameChar x = true) (hafter : ∀ x ∈ rest.head?, isNameChar x = false)
    (hne : keyword ≠ []) (hkeyword : ∀ x ∈ keyword, isNameChar x = true) :
    c.keyword? keyword =
      if keyword = word then
        some (c.skipSpaces.spanOf word.length, c.skipSpaces.after word.length)
      else none := by
  split
  · next heq =>
    subst heq
    exact Cursor.keyword?_eq_some_iff.2 ⟨⟨rest, hrest, runsOn_eq_false hafter⟩, rfl, rfl⟩
  · next hdiff =>
    rw [Cursor.keyword?_eq_none_iff]
    intro rest' hrest'
    rw [hrest] at hrest'
    rcases List.append_eq_append_iff.1 hrest' with ⟨extra, hlong, htail⟩ | ⟨extra, hshort, htail⟩
    · -- the keyword would be longer than the word
      cases extra with
      | nil => exact absurd (by simpa using hlong) hdiff
      | cons x xs =>
        have hx : isNameChar x = true := hkeyword x (by simp [hlong])
        rw [hafter x (by simp [htail])] at hx
        exact absurd hx (by simp)
    · cases extra with
      | nil => exact absurd (by simpa using hshort.symm) hdiff
      | cons x xs =>
        rw [htail, List.cons_append]
        exact runsOn_cons hne hkeyword (hword x (by simp [hshort]))

/-! ## Choice among keywords -/

theorem Cursor.oneOf?_eq_some {α : Type} {c after : Cursor} {keywords : List (Text × α)} {a : α}
    {span : Span} (h : c.oneOf? keywords = some (a, span, after)) :
    ∃ keyword, (keyword, a) ∈ keywords ∧ c.keyword? keyword = some (span, after) := by
  induction keywords with
  | nil => simp [Cursor.oneOf?] at h
  | cons entry rest ih =>
    obtain ⟨keyword, value⟩ := entry
    rw [Cursor.oneOf?] at h
    split at h
    · next span' after' hkey =>
      simp only [Option.some.injEq, Prod.mk.injEq] at h
      obtain ⟨rfl, rfl, rfl⟩ := h
      exact ⟨keyword, List.mem_cons_self .., hkey⟩
    · obtain ⟨keyword', hmem, hkey'⟩ := ih h
      exact ⟨keyword', List.mem_cons_of_mem _ hmem, hkey'⟩

theorem Cursor.oneOf?_eq_none_iff {α : Type} {c : Cursor} {keywords : List (Text × α)} :
    c.oneOf? keywords = none ↔ ∀ entry ∈ keywords, c.keyword? entry.1 = none := by
  induction keywords with
  | nil => simp [Cursor.oneOf?]
  | cons entry rest ih =>
    obtain ⟨keyword, value⟩ := entry
    rw [Cursor.oneOf?, List.forall_mem_cons, ← ih]
    cases c.keyword? keyword with
    | none => simp
    | some result => simp

/-- For a word of name characters the choice among keywords is a look-up of the word. -/
theorem Cursor.oneOf?_of_word {α : Type} {c : Cursor} {word rest : Text}
    {keywords : List (Text × α)} (hrest : c.rest.dropWhile isSpace = word ++ rest)
    (hword : ∀ x ∈ word, isNameChar x = true) (hafter : ∀ x ∈ rest.head?, isNameChar x = false)
    (hkeywords : ∀ entry ∈ keywords, entry.1 ≠ [] ∧ ∀ x ∈ entry.1, isNameChar x = true) :
    c.oneOf? keywords = (keywords.lookup word).map fun a =>
      (a, c.skipSpaces.spanOf word.length, c.skipSpaces.after word.length) := by
  induction keywords with
  | nil => rfl
  | cons entry entries ih =>
    obtain ⟨keyword, value⟩ := entry
    obtain ⟨⟨hne, hkeyword⟩, hentries⟩ := List.forall_mem_cons.1 hkeywords
    rw [Cursor.oneOf?, Cursor.keyword?_of_word hrest hword hafter hne hkeyword, List.lookup_cons]
    by_cases heq : keyword = word
    · simp [heq]
    · have hbeq : (word == keyword) = false := by simpa using fun h => heq h.symm
      rw [if_neg heq, hbeq]
      exact ih hentries

end LogoLang
