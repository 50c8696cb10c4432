import LogoLang.Syntax.Cursor
import LogoLang.Text.Blank
import Mathlib.Data.List.DropRight

set_option autoImplicit false

/-! # Trimming and first words

`Text.trim` works on both ends of a line and knows every blank of Unicode, while the grammar skips
spaces and tabs only. The two views meet where a line starts with a word of name characters:
`Text.trim_of_word` gives the trimmed line. -/

namespace LogoLang

/-! ## Blanks, spaces and name characters -/

theorem isBlank_of_isSpace {c : Char} (h : isSpace c = true) : isBlank c = true := by
  simp only [isSpace, Bool.or_eq_true, beq_iff_eq] at h
  rcases h with rfl | rfl <;> decide

theorem isSpace_eq_false_of_isBlank {c : Char} (h : isBlank c = false) : isSpace c = false := by
  cases hs : isSpace c with
  | false => rfl
  | true => rw [isBlank_of_isSpace hs] at h; exact absurd h (by simp)

/-- A name character is an ASCII letter, a digit or an underscore, none of which is blank. -/
theorem isBlank_of_isNameChar {c : Char} (h : isNameChar c = true) : isBlank c = false := by
  have hrange : 48 ≤ c.toNat ∧ c.toNat ≤ 122 := by
    have hkinds : (c.isUpper || c.isLower || c.isDigit || c == '_') = true := h
    simp only [Bool.or_eq_true, beq_iff_eq] at hkinds
    rcases hkinds with ((hupper | hlower) | hdigit) | rfl
    · have hval : 'A'.val ≤ c.val ∧ c.val ≤ 'Z'.val := of_decide_eq_true hupper
      rw [UInt32.le_iff_toNat_le, UInt32.le_iff_toNat_le] at hval
      have hbounds : 65 ≤ c.toNat ∧ c.toNat ≤ 90 := hval
      omega
    · have hval := (Bool.and_eq_true _ _).mp hlower
      rw [decide_eq_true_eq, decide_eq_true_eq, ge_iff_le, UInt32.le_iff_toNat_le,
        UInt32.le_iff_toNat_le] at hval
      have hbounds : 97 ≤ c.toNat ∧ c.toNat ≤ 122 := hval
      omega
    · have hbounds : 48 ≤ c.toNat ∧ c.toNat ≤ 57 := Char.isDigit_iff_toNat.1 hdigit
      omega
    · decide
  simp only [isBlank, Bool.or_eq_false_iff, Bool.and_eq_false_iff, decide_eq_false_iff_not,
    beq_eq_false_iff_ne]
  omega

theorem isSpace_of_isNameChar {c : Char} (h : isNameChar c = true) : isSpace c = false :=
  isSpace_eq_false_of_isBlank (isBlank_of_isNameChar h)

theorem isNameChar_of_isSpace {c : Char} (h : isSpace c = true) : isNameChar c = false := by
  cases hc : isNameChar c with
  | false => rfl
  | true => rw [isSpace_of_isNameChar hc] at h; exact absurd h (by simp)

/-- The stops of a word are the spaces of the grammar. -/
theorem wordStops_contains (c : Char) : wordStops.contains c = isSpace c := by
  simp [wordStops, isSpace, Bool.beq_eq_decide_eq]

/-! ## Trimming at the end -/

@[simp]
theorem Text.trimRight_nil : Text.trimRight [] = [] := rfl

theorem Text.trimRight_append (t u : Text) :
    Text.trimRight (t ++ u) = if Text.trimRight u = [] then Text.trimRight t
      else t ++ Text.trimRight u := by
  simp only [Text.trimRight, List.reverse_append, List.dropWhile_append, List.reverse_eq_nil_iff,
    List.isEmpty_iff]
  split
  · rfl
  · simp

theorem Text.trimRight_singleton (c : Char) :
    Text.trimRight [c] = if isBlank c then [] else [c] := by
  simp only [Text.trimRight, List.reverse_singleton, List.dropWhile_cons, List.dropWhile_nil]
  split <;> simp

theorem Text.trimRight_cons (c : Char) (t : Text) :
    Text.trimRight (c :: t) = if Text.trimRight t = [] then Text.trimRight [c]
      else c :: Text.trimRight t :=
  Text.trimRight_append [c] t

/-- What ends in a character that is not blank keeps it, whatever follows. -/
theorem Text.trimRight_append_of_last {t : Text} {c : Char} (hc : isBlank c = false) (u : Text) :
    Text.trimRight (t ++ c :: u) = t ++ c :: Text.trimRight u := by
  have hcons : Text.trimRight (c :: u) = c :: Text.trimRight u := by
    rw [Text.trimRight_cons, Text.trimRight_singleton, hc]
    split
    · next h => simp [h]
    · rfl
  rw [Text.trimRight_append, hcons, if_neg (by simp)]

theorem Text.trimRight_prefix (t : Text) : Text.trimRight t <+: t := by
  have h : t.reverse.dropWhile isBlank <:+ t.reverse := List.dropWhile_suffix isBlank
  simpa [Text.trimRight] using List.reverse_prefix.2 h

@[simp]
theorem Text.trimRight_trimRight (t : Text) :
    Text.trimRight (Text.trimRight t) = Text.trimRight t := by
  simp [Text.trimRight, List.dropWhile_idempotent]

/-! ## Trimming at both ends -/

theorem Text.trimLeft_cons (c : Char) (t : Text) :
    Text.trimLeft (c :: t) = if isBlank c then Text.trimLeft t else c :: t := by
  simp only [Text.trimLeft, List.dropWhile_cons]

/-- Blanks are removed from the two ends in either order. -/
theorem Text.trimLeft_trimRight (t : Text) :
    Text.trimLeft (Text.trimRight t) = Text.trimRight (Text.trimLeft t) := by
  induction t with
  | nil => rfl
  | cons c rest ih =>
    cases hc : isBlank c with
    | false =>
      have hkeep : Text.trimRight (c :: rest) = c :: Text.trimRight rest :=
        Text.trimRight_append_of_last (t := []) hc rest
      rw [hkeep, Text.trimLeft_cons, Text.trimLeft_cons, hc]
      simpa using hkeep.symm
    | true =>
      rw [Text.trimLeft_cons, hc, if_pos rfl, ← ih, Text.trimRight_cons, Text.trimRight_singleton,
        hc]
      split
      · next h => rw [h]; rfl
      · rw [Text.trimLeft_cons, hc, if_pos rfl]

@[simp]
theorem Text.trim_trimRight (t : Text) : Text.trim (Text.trimRight t) = Text.trim t := by
  rw [Text.trim, Text.trim, Text.trimLeft_trimRight, Text.trimRight_trimRight]

theorem Text.trim_cons_of_isBlank {c : Char} (hc : isBlank c = true) (t : Text) :
    Text.trim (c :: t) = Text.trim t := by
  rw [Text.trim, Text.trimLeft_cons, hc, if_pos rfl, Text.trim]

theorem Text.trim_cons {c : Char} (hc : isBlank c = false) (t : Text) :
    Text.trim (c :: t) = c :: Text.trimRight t := by
  rw [Text.trim, Text.trimLeft_cons, hc]
  exact Text.trimRight_append_of_last (t := []) hc t

/-- Spaces at the start of a line are trimmed with its other blanks. -/
theorem Text.trim_dropWhile_isSpace (t : Text) : Text.trim (t.dropWhile isSpace) = Text.trim t := by
  induction t with
  | nil => rfl
  | cons c rest ih =>
    rw [List.dropWhile_cons]
    split
    · next hc => rw [ih, Text.trim_cons_of_isBlank (isBlank_of_isSpace hc)]
    · rfl

/-- Trimming adds nothing. -/
theorem Text.mem_of_mem_trim {t : Text} {c : Char} (hc : c ∈ t.trim) : c ∈ t :=
  (List.dropWhile_sublist isBlank).mem ((Text.trimRight_prefix _).subset hc)

/-! ## Lines that start with a word -/

/-- A line that starts with a word of name characters, whatever stands before and after it. -/
theorem Text.trim_of_word {line word rest : Text} (hline : line.dropWhile isSpace = word ++ rest)
    (hne : word ≠ []) (hword : ∀ c ∈ word, isNameChar c = true) :
    Text.trim line = word ++ Text.trimRight rest := by
  obtain ⟨init, last, rfl⟩ := word.eq_nil_or_concat'.resolve_left hne
  have hlast : isBlank last = false := isBlank_of_isNameChar (hword last (by simp))
  have hright : Text.trimRight (init ++ [last] ++ rest) =
      init ++ [last] ++ Text.trimRight rest := by
    simpa using Text.trimRight_append_of_last (t := init) hlast rest
  rw [← Text.trim_dropWhile_isSpace, hline, Text.trim]
  cases hinit : init ++ [last] with
  | nil => simp at hinit
  | cons c tail =>
    have hc : isBlank c = false := isBlank_of_isNameChar (hword c (by simp [hinit]))
    rw [List.cons_append, Text.trimLeft_cons, hc, ← List.cons_append, ← hinit]
    exact hright

end LogoLang
