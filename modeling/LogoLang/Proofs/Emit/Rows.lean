import LogoLang.Proofs.Emit.Growth
import LogoLang.Proofs.Text.Rows

set_option autoImplicit false

/-! # The physical lines of a module

The code of a comment begins with a number sign, but a text with a line feed or a carriage return in it
goes on in further physical lines (`furtherRows`), which are whatever the text says. A module of
functions that have grown by some comments has just these physical lines more, apart from comments
(`moduleText_gains`). -/

namespace LogoLang

/-! ## Lists that gain elements -/

/-- The second list has so many elements more than the first one, anywhere. -/
structure Gains {α : Type} (count : Nat) (l l' : List α) : Prop where
  sublist : l.Sublist l'
  length : l'.length = l.length + count

section Gains

variable {α : Type} {l l' more more' : List α} {count count' : Nat}

theorem Gains.refl (l : List α) : Gains 0 l l := ⟨.refl l, rfl⟩

theorem gains_nil (l : List α) : Gains l.length [] l := ⟨List.nil_sublist l, by simp⟩

theorem Gains.append (h : Gains count l l') (hmore : Gains count' more more') :
    Gains (count + count') (l ++ more) (l' ++ more') := by
  refine ⟨h.sublist.append hmore.sublist, ?_⟩
  rw [List.length_append, List.length_append, h.length, hmore.length]
  omega

/-- A list that gains nothing is the same, and the other way round. -/
theorem Gains.eq_iff (h : Gains count l l') : l' = l ↔ count = 0 := by
  constructor
  · intro heq
    have hlength := h.length
    rw [heq] at hlength
    omega
  · rintro rfl
    exact (h.sublist.eq_of_length h.length.symm).symm

end Gains

/-! ## Further physical lines -/

/-- The physical lines of a comment after the first one. -/
def furtherRows (text : Text) : List Text := (Text.rows (text ++ ['\n'])).tail

/-- The physical lines that a comment is emitted as, at a depth of indentation. -/
def commentRows (depth : Nat) (text : Text) : List Text :=
  Text.rows (CodeLine.toText ⟨depth, commentCode text⟩)

/-- The first physical line of a comment is a comment. -/
theorem commentRows_eq (depth : Nat) (text : Text) :
    ∃ row, isCommentRow row = true ∧ commentRows depth text = row :: furtherRows text := by
  obtain ⟨first, rest, hrows⟩ := List.exists_cons_of_ne_nil
    (Text.rows_ne_nil (List.append_ne_nil_of_right_ne_nil text (by simp : ['\n'] ≠ [])))
  by_cases hempty : text.isEmpty = true
  · obtain rfl := List.isEmpty_iff.1 hempty
    refine ⟨Text.spaces (4 * depth) ++ ['#', '\n'], isCommentRow_of_sign _ _, ?_⟩
    rw [commentRows, CodeLine.toText, commentCode, if_pos hempty, List.append_assoc]
    exact (Text.oneRow_spaces _).rows_append rfl
  · refine ⟨Text.spaces (4 * depth) ++ '#' :: ' ' :: first, isCommentRow_of_sign _ _, ?_⟩
    rw [commentRows, CodeLine.toText, commentCode, if_neg hempty, furtherRows, hrows, List.append_assoc]
    refine (Text.oneRow_spaces _).rows_append ?_
    rw [List.cons_append, List.cons_append, Text.rows_cons (by decide) (by decide),
      Text.rows_cons (by decide) (by decide), hrows]
    rfl

/-- Whether a comment is emitted without a line of code: each of its physical lines is blank or a
    comment. -/
def StaysComment (text : Text) : Prop :=
  ∀ depth, ∀ row ∈ commentRows depth text, isCodeRow row = false

theorem staysComment_iff {text : Text} :
    StaysComment text ↔ ∀ row ∈ furtherRows text, isCodeRow row = false := by
  constructor
  · intro h row hrow
    obtain ⟨first, _, hrows⟩ := commentRows_eq 0 text
    exact h 0 row (hrows ▸ List.mem_cons_of_mem first hrow)
  · intro h depth
    obtain ⟨first, hfirst, hrows⟩ := commentRows_eq depth text
    rw [hrows, List.forall_mem_cons]
    exact ⟨isCodeRow_of_isCommentRow hfirst, h⟩

/-- The text of one physical line stays a comment. -/
theorem staysComment_of_oneRow {text : Text} (h : text.OneRow) : StaysComment text := by
  rw [staysComment_iff, furtherRows, h.rows_line []]
  simp [Text.rows]

section Kept

variable {keep : Text → Bool}

/-- The physical lines of a text that are kept. -/
def keptRows (keep : Text → Bool) (t : Text) : List Text := t.rows.filter keep

/-- How many of the further physical lines of some comments are kept. -/
def keptFurther (keep : Text → Bool) (texts : List Text) : Nat :=
  ((texts.flatMap furtherRows).filter keep).length

theorem keptFurther_append (texts texts' : List Text) :
    keptFurther keep (texts ++ texts') = keptFurther keep texts + keptFurther keep texts' := by
  simp [keptFurther]

theorem Text.Closed.keptRows_append {t : Text} (h : t.Closed) (u : Text) :
    keptRows keep (t ++ u) = keptRows keep t ++ keptRows keep u := by
  rw [keptRows, h, List.filter_append]
  rfl

theorem CodeLine.closed_toText (line : CodeLine) : line.toText.Closed := Text.closed_newline _

/-- The first line of a function without its end. -/
def heading (name : Text) (f : Function) : Text :=
  "def ".toList ++ functionName name
    ++ parenthesized (Text.join ", ".toList ("draw".toList :: f.paramNames.map variableName)) ++ [':']

theorem signature_eq (name : Text) (f : Function) : signature name f = heading name f ++ ['\n'] := by
  rw [signature, heading, List.append_assoc _ [':'] ['\n']]
  rfl

theorem closed_signature (name : Text) (f : Function) : (signature name f).Closed := by
  rw [signature_eq]
  exact Text.closed_newline _

theorem closed_functionText (name : Text) (f : Function) (lines : List CodeLine) :
    (functionText name f lines).Closed :=
  (closed_signature name f).append (Text.closed_flatMap CodeLine.closed_toText lines)

/-- Lines of code gain the further lines of their comments. -/
theorem CodeGrows.gains (hkeep : ∀ row, isCommentRow row = true → keep row = false)
    {texts : List Text} {lines lines' : List CodeLine} (h : CodeGrows texts lines lines') :
    Gains (keptFurther keep texts) (keptRows keep (lines.flatMap CodeLine.toText))
      (keptRows keep (lines'.flatMap CodeLine.toText)) := by
  induction h with
  | nil => exact .refl _
  | line line _ ih =>
    rw [List.flatMap_cons, List.flatMap_cons, line.closed_toText.keptRows_append,
      line.closed_toText.keptRows_append]
    have hboth := (Gains.refl (keptRows keep line.toText)).append ih
    rwa [Nat.zero_add] at hboth
  | @comment texts rest rest' depth text _ ih =>
    have hcomment : keptRows keep (CodeLine.toText ⟨depth, commentCode text⟩) =
        (furtherRows text).filter keep := by
      obtain ⟨row, hrow, hrows⟩ := commentRows_eq depth text
      rw [keptRows, ← commentRows, hrows, List.filter_cons_of_neg (by simp [hkeep row hrow])]
    have hboth := (gains_nil ((furtherRows text).filter keep)).append ih
    rw [List.flatMap_cons, (CodeLine.closed_toText _).keptRows_append, hcomment,
      ← List.singleton_append, keptFurther_append]
    simpa [keptFurther] using hboth

theorem Text.join_cons (sep part : Text) {rest : List Text} (h : rest ≠ []) :
    Text.join sep (part :: rest) = part ++ (sep ++ Text.join sep rest) := by
  rw [Text.join, List.append_assoc]
  exact h

theorem CodesGrow.gains (hkeep : ∀ row, isCommentRow row = true → keep row = false)
    {texts codes codes' : List Text} (h : CodesGrow texts codes codes') {parts : List Text}
    (hparts : parts ≠ []) :
    Gains (keptFurther keep texts) (keptRows keep (Text.join "\n\n".toList (codes ++ parts)))
      (keptRows keep (Text.join "\n\n".toList (codes' ++ parts))) := by
  have hclosed : Text.Closed "\n\n".toList := Text.closed_newline ['\n']
  induction h with
  | nil => exact .refl _
  | @cons inner texts lines lines' rest rest' name f hlines _ ih =>
    rw [List.cons_append, List.cons_append, Text.join_cons _ _ (by simp [hparts]),
      Text.join_cons _ _ (by simp [hparts]), (closed_functionText name f lines).keptRows_append,
      (closed_functionText name f lines').keptRows_append, hclosed.keptRows_append,
      hclosed.keptRows_append, functionText, functionText,
      (closed_signature name f).keptRows_append, (closed_signature name f).keptRows_append,
      keptFurther_append]
    have hcode := (Gains.refl (keptRows keep (signature name f))).append (hlines.gains hkeep)
    have hrest := (Gains.refl (keptRows keep "\n\n".toList)).append ih
    rw [Nat.zero_add] at hcode hrest
    exact hcode.append hrest

/-- **A module of functions that have grown** gains the further lines of the new comments. -/
theorem moduleText_gains (hkeep : ∀ row, isCommentRow row = true → keep row = false)
    {texts codes codes' : List Text} (h : CodesGrow texts codes codes') (methods : List Method)
    (width height : Measure) :
    Gains (keptFurther keep texts) (keptRows keep (moduleText codes methods width height))
      (keptRows keep (moduleText codes' methods width height)) := by
  rw [moduleText, moduleText, List.cons_append, List.cons_append, Text.join_cons _ _ (by simp),
    Text.join_cons _ _ (by simp), ← List.append_assoc, ← List.append_assoc]
  have hclosed : Text.Closed (moduleHeader.toList ++ "\n\n".toList) := by
    have hend : moduleHeader.toList ++ "\n\n".toList = (moduleHeader.toList ++ ['\n']) ++ ['\n'] := by
      rw [List.append_assoc]
      rfl
    rw [hend]
    exact Text.closed_newline _
  rw [hclosed.keptRows_append, hclosed.keptRows_append]
  have hboth := (Gains.refl (keptRows keep (moduleHeader.toList ++ "\n\n".toList))).append
    (h.gains hkeep (by simp : [turtleClass methods, moduleFooter width height] ≠ []))
  rwa [Nat.zero_add] at hboth

end Kept

end LogoLang
