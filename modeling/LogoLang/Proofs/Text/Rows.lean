import LogoLang.Proofs.Text.Blank
import LogoLang.Text.Lines

set_option autoImplicit false

/-! # Physical lines

`Text.rows` cuts a text into its physical lines, each with the line feed, the carriage return or both
that end it, which is how the text of a program is read by others. The line boundaries of
`Text.splitLines` that are neither are characters of a physical line. -/

namespace LogoLang

/-- The physical lines of a text with their ends. A carriage return and the line feed after it are one
    end. -/
def Text.rows : Text → List Text
  | [] => []
  | '\r' :: '\n' :: rest => ['\r', '\n'] :: Text.rows rest
  | c :: rest =>
    if c = '\n' ∨ c = '\r' then [c] :: Text.rows rest else consToHead c (Text.rows rest)

/-- Whether a physical line is a comment: its first character that is not blank is a number sign. -/
def isCommentRow (row : Text) : Bool := row.trimLeft.head? == some '#'

/-- Whether a physical line is code: it is neither blank nor a comment. -/
def isCodeRow (row : Text) : Bool := row.trimLeft != [] && !isCommentRow row

/-! ## Cutting -/

theorem flatten_consToHead (c : Char) (rows : List Text) :
    (consToHead c rows).flatten = c :: rows.flatten := by
  cases rows <;> rfl

/-- The physical lines are the whole text. -/
theorem Text.flatten_rows (t : Text) : t.rows.flatten = t := by
  fun_induction Text.rows t with
  | case1 => rfl
  | case2 rest ih => rw [List.flatten_cons, ih]; rfl
  | case3 c rest _ hend ih => rw [List.flatten_cons, ih]; rfl
  | case4 c rest _ hend ih => rw [flatten_consToHead, ih]

theorem Text.rows_newline (t : Text) : Text.rows ('\n' :: t) = ['\n'] :: Text.rows t := by
  rw [Text.rows]
  · exact if_pos (Or.inl rfl)
  · simp

theorem Text.rows_cons {c : Char} (hline : c ≠ '\n') (hreturn : c ≠ '\r') (t : Text) :
    Text.rows (c :: t) = consToHead c (Text.rows t) := by
  rw [Text.rows]
  · exact if_neg (by simp [hline, hreturn])
  · intro rest hc
    exact absurd hc hreturn

theorem Text.rows_return {t : Text} (h : ∀ rest, t ≠ '\n' :: rest) :
    Text.rows ('\r' :: t) = ['\r'] :: Text.rows t := by
  rw [Text.rows]
  · exact if_pos (Or.inr rfl)
  · intro rest _
    exact h rest

theorem consToHead_append {c : Char} {rows : List Text} (h : rows ≠ []) (more : List Text) :
    consToHead c rows ++ more = consToHead c (rows ++ more) := by
  cases rows with
  | nil => exact absurd rfl h
  | cons row rest => rfl

theorem Text.rows_ne_nil {t : Text} (h : t ≠ []) : t.rows ≠ [] := by
  intro hrows
  have hflat := t.flatten_rows
  rw [hrows] at hflat
  exact h hflat.symm

/-- A line feed ends a physical line, whatever is around it. -/
theorem Text.rows_append (t u : Text) :
    Text.rows (t ++ '\n' :: u) = Text.rows (t ++ ['\n']) ++ Text.rows u := by
  fun_induction Text.rows t with
  | case1 => rw [List.nil_append, List.nil_append, Text.rows_newline, Text.rows_newline]; rfl
  | case2 rest ih =>
    show ['\r', '\n'] :: Text.rows (rest ++ '\n' :: u) = _
    rw [ih]
    rfl
  | case3 c rest hpair hend ih =>
    rcases hend with rfl | rfl
    · rw [List.cons_append, List.cons_append, Text.rows_newline, Text.rows_newline, ih]
      rfl
    · cases rest with
      | nil => rfl
      | cons d rest =>
        have hother : ∀ more others, d :: (rest ++ more) ≠ '\n' :: others := by
          intro more others heq
          obtain ⟨rfl, _⟩ := List.cons.inj heq
          exact hpair rest rfl rfl
        rw [List.cons_append, List.cons_append, List.cons_append, List.cons_append,
          Text.rows_return (hother _), Text.rows_return (hother _), ← List.cons_append,
          ← List.cons_append, ih]
        rfl
  | case4 c rest hpair hend ih =>
    obtain ⟨hline, hreturn⟩ := not_or.1 hend
    rw [List.cons_append, List.cons_append, Text.rows_cons hline hreturn,
      Text.rows_cons hline hreturn, ih, consToHead_append (Text.rows_ne_nil (by simp))]

/-- Whether a text ends with its last physical line, so that nothing behind it changes its lines. -/
def Text.Closed (t : Text) : Prop := ∀ u, Text.rows (t ++ u) = t.rows ++ u.rows

theorem Text.closed_nil : Text.Closed [] := fun _ => rfl

theorem Text.closed_newline (t : Text) : Text.Closed (t ++ ['\n']) := by
  intro u
  rw [List.append_assoc]
  exact t.rows_append u

theorem Text.Closed.append {t u : Text} (ht : t.Closed) (hu : u.Closed) : Text.Closed (t ++ u) := by
  intro v
  rw [List.append_assoc, ht, hu, ht, List.append_assoc]

theorem Text.closed_flatMap {α : Type} {f : α → Text} (hf : ∀ a, (f a).Closed) (l : List α) :
    Text.Closed (l.flatMap f) := by
  induction l with
  | nil => exact Text.closed_nil
  | cons a rest ih => exact (hf a).append ih

/-! ## Lines without an end inside -/

/-- Whether a text has no end of a physical line in it. -/
def Text.OneRow (t : Text) : Prop := ∀ c ∈ t, c ≠ '\n' ∧ c ≠ '\r'

instance (t : Text) : Decidable t.OneRow :=
  List.decidableBAll (fun c => c ≠ '\n' ∧ c ≠ '\r') t

theorem Text.oneRow_nil : Text.OneRow [] := fun _ hc => absurd hc List.not_mem_nil

theorem Text.OneRow.append {t u : Text} (ht : t.OneRow) (hu : u.OneRow) : Text.OneRow (t ++ u) :=
  List.forall_mem_append.2 ⟨ht, hu⟩

/-- Characters that do not end a line belong to the physical line after them. -/
theorem Text.OneRow.rows_append {line : Text} (h : line.OneRow) {t row : Text} {rest : List Text}
    (ht : t.rows = row :: rest) : Text.rows (line ++ t) = (line ++ row) :: rest := by
  induction line with
  | nil => exact ht
  | cons c line ih =>
    obtain ⟨⟨hline, hreturn⟩, hrest⟩ := List.forall_mem_cons.1 h
    rw [List.cons_append, Text.rows_cons hline hreturn, ih hrest]
    rfl

/-- A line that is ended by a line feed is one physical line. -/
theorem Text.OneRow.rows_line {line : Text} (h : line.OneRow) (rest : Text) :
    Text.rows (line ++ '\n' :: rest) = (line ++ ['\n']) :: Text.rows rest :=
  h.rows_append (Text.rows_newline rest)

theorem Text.oneRow_spaces (count : Nat) : (Text.spaces count).OneRow := by
  intro c hc
  obtain rfl := List.eq_of_mem_replicate hc
  decide

theorem Text.OneRow.trim {t : Text} (h : t.OneRow) : t.trim.OneRow :=
  fun c hc => h c (Text.mem_of_mem_trim hc)

/-- No line of a text has a line boundary in it. -/
theorem Text.isLineBreak_of_mem_splitLines {t line : Text} (h : line ∈ t.splitLines) :
    ∀ c ∈ line, isLineBreak c = false := by
  fun_induction Text.splitLines t generalizing line with
  | case1 => exact absurd h (by simp)
  | case2 rest ih =>
    rcases List.mem_cons.1 h with rfl | h
    · simp
    · exact ih h
  | case3 c rest _ hbreak ih =>
    rcases List.mem_cons.1 h with rfl | h
    · simp
    · exact ih h
  | case4 c rest _ hbreak ih =>
    have hc : isLineBreak c = false := Bool.eq_false_iff.2 hbreak
    cases hrest : Text.splitLines rest with
    | nil =>
      rw [hrest] at h
      obtain rfl := List.mem_singleton.1 h
      exact List.forall_mem_singleton.2 hc
    | cons first others =>
      rw [hrest] at h ih
      rcases List.mem_cons.1 h with rfl | h
      · exact List.forall_mem_cons.2 ⟨hc, ih List.mem_cons_self⟩
      · exact ih (List.mem_cons_of_mem _ h)

theorem Text.oneRow_of_mem_splitLines {t line : Text} (h : line ∈ t.splitLines) : line.OneRow := by
  intro c hc
  have hbreak := Text.isLineBreak_of_mem_splitLines h c hc
  constructor
  · rintro rfl
    exact absurd hbreak (by decide)
  · rintro rfl
    exact absurd hbreak (by decide)

/-! ## Comments -/

theorem Text.trimLeft_spaces_append (count : Nat) (t : Text) :
    (Text.spaces count ++ t).trimLeft = t.trimLeft := by
  rw [Text.trimLeft, Text.trimLeft, Text.spaces]
  induction count with
  | zero => rfl
  | succ count ih =>
    rw [List.replicate_succ, List.cons_append, List.dropWhile_cons_of_pos (by decide), ih]

/-- A number sign after spaces makes a physical line a comment. -/
theorem isCommentRow_of_sign (count : Nat) (t : Text) :
    isCommentRow (Text.spaces count ++ '#' :: t) = true := by
  rw [isCommentRow, Text.trimLeft_spaces_append]
  rfl

theorem isCodeRow_of_isCommentRow {row : Text} (h : isCommentRow row = true) :
    isCodeRow row = false := by
  rw [isCodeRow, h]
  simp

end LogoLang
