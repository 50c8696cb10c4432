import LogoLang.Diagnostic.Basic

set_option autoImplicit false

/-! # The marked source

The text that a diagnostic shows is its source with one more line, which underlines the place
(`Diagnostic.context_at`). The search for the line keeps the position at which each line starts; a
position at a line feed belongs to the line that it ends. -/

namespace LogoLang

/-! ## Pieces between separators -/

theorem Text.join_cons_of_ne_nil {sep part : Text} {rest : List Text} (h : rest ≠ []) :
    Text.join sep (part :: rest) = part ++ sep ++ Text.join sep rest := by
  cases rest with
  | nil => exact absurd rfl h
  | cons first others => rfl

/-- Putting a character in front of the first piece puts it in front of the whole text. -/
theorem Text.join_consToHead {sep : Text} {c : Char} {parts : List Text} (h : parts ≠ []) :
    Text.join sep (consToHead c parts) = c :: Text.join sep parts := by
  cases parts with
  | nil => exact absurd rfl h
  | cons first others => cases others <;> rfl

theorem consToHead_ne_nil (c : Char) (parts : List Text) : consToHead c parts ≠ [] := by
  cases parts <;> exact List.cons_ne_nil _ _

theorem Text.splitOn_ne_nil (sep : Char) (t : Text) : Text.splitOn sep t ≠ [] := by
  cases t with
  | nil => exact List.cons_ne_nil _ _
  | cons c rest =>
    rw [Text.splitOn]
    split
    · exact List.cons_ne_nil _ _
    · exact consToHead_ne_nil _ _

/-- The pieces of a text, put together again, are the text. -/
theorem Text.join_splitOn (sep : Char) (t : Text) : Text.join [sep] (Text.splitOn sep t) = t := by
  induction t with
  | nil => rfl
  | cons c rest ih =>
    rw [Text.splitOn]
    split
    · next hsep =>
      rw [Text.join_cons_of_ne_nil (Text.splitOn_ne_nil sep rest), ih, hsep]
      rfl
    · rw [Text.join_consToHead (Text.splitOn_ne_nil sep rest), ih]

theorem Text.not_mem_of_mem_splitOn {sep : Char} {t : Text} :
    ∀ part ∈ Text.splitOn sep t, sep ∉ part := by
  induction t with
  | nil => exact List.forall_mem_singleton.2 List.not_mem_nil
  | cons c rest ih =>
    rw [Text.splitOn]
    split
    · exact List.forall_mem_cons.2 ⟨List.not_mem_nil, ih⟩
    · next hsep =>
      obtain ⟨first, others, hrest⟩ := List.exists_cons_of_ne_nil (Text.splitOn_ne_nil sep rest)
      rw [hrest, List.forall_mem_cons] at ih
      rw [hrest]
      refine List.forall_mem_cons.2 ⟨fun hmem => ?_, ih.2⟩
      exact (List.mem_cons.1 hmem).elim (fun heq => hsep heq.symm) ih.1

/-- Between pieces without separators there is one separator less than there are pieces. -/
theorem Text.count_join {sep : Char} {parts : List Text} {last : Text}
    (h : ∀ part ∈ parts ++ [last], sep ∉ part) :
    (Text.join [sep] (parts ++ [last])).count sep = parts.length := by
  induction parts with
  | nil => exact List.count_eq_zero_of_not_mem (h last List.mem_cons_self)
  | cons part rest ih =>
    obtain ⟨hpart, hrest⟩ := List.forall_mem_cons.1 h
    rw [List.cons_append, Text.join_cons_of_ne_nil (by simp), List.count_append, List.count_append,
      ih hrest, List.count_eq_zero_of_not_mem hpart, List.count_singleton_self, List.length_cons,
      Nat.zero_add, Nat.add_comm]

/-! ## The underlined line -/

/-- A position of the text that the lines make stands in one of them, with `before` in front of it and
    `after` behind it: it has the lines `above` and `before` in front of it, and nothing else. -/
structure CutLines (lines : List Text) (position : Nat) (above : List Text) (before after : Text)
    (below : List Text) : Prop where
  lines_eq : lines = above ++ (before ++ after) :: below
  take_eq : (Text.join ['\n'] lines).take position = Text.join ['\n'] (above ++ [before])

/-- A position inside the first line. -/
theorem CutLines.first {line : Text} {rest : List Text} {position : Nat}
    (h : position ≤ line.length) :
    CutLines (line :: rest) position [] (line.take position) (line.drop position) rest := by
  refine ⟨by rw [List.take_append_drop, List.nil_append], ?_⟩
  cases rest with
  | nil => rfl
  | cons next others =>
    rw [Text.join_cons_of_ne_nil (List.cons_ne_nil _ _), List.append_assoc,
      List.take_append_of_le_length h]
    rfl

/-- A position behind the first line and the line feed after it. -/
theorem CutLines.later {line : Text} {rest above below : List Text} {before after : Text}
    {position : Nat} (hrest : rest ≠ []) (h : CutLines rest position above before after below) :
    CutLines (line :: rest) (line.length + 1 + position) (line :: above) before after below := by
  refine ⟨by rw [h.lines_eq, List.cons_append], ?_⟩
  have hlength : line.length + 1 = (line ++ ['\n']).length := by
    rw [List.length_append, List.length_singleton]
  rw [Text.join_cons_of_ne_nil hrest, hlength, List.take_length_add_append, h.take_eq,
    List.cons_append, Text.join_cons_of_ne_nil (by simp)]

/-- **The line that holds the position is underlined, and no other one.** -/
theorem markLines_eq {lines : List Text} {offset start : Nat} (length : Int) (hne : lines ≠ [])
    (hlow : offset ≤ start) (hhigh : start ≤ offset + (Text.join ['\n'] lines).length) :
    ∃ above before after below, CutLines lines (start - offset) above before after below ∧
      markLines start length offset lines =
        above ++ (before ++ after) :: underline before length :: below := by
  induction lines generalizing offset with
  | nil => exact absurd rfl hne
  | cons line rest ih =>
    rw [markLines]
    by_cases hhere : start ≤ offset + line.length
    · refine ⟨[], _, _, rest, CutLines.first (by omega), ?_⟩
      rw [if_pos ⟨hlow, hhere⟩, List.take_append_drop, List.nil_append]
    · -- the position is behind the line feed, so that there is a further line
      have hrest : rest ≠ [] := by
        rintro rfl
        exact hhere hhigh
      rw [Text.join_cons_of_ne_nil hrest, List.length_append, List.length_append,
        List.length_singleton] at hhigh
      obtain ⟨above, before, after, below, hcut, hmark⟩ :=
        @ih (offset + line.length + 1) hrest (by omega) (by omega)
      have hposition : start - offset = line.length + 1 + (start - (offset + line.length + 1)) := by
        omega
      refine ⟨line :: above, before, after, below, ?_, ?_⟩
      · rw [hposition]
        exact hcut.later hrest
      · rw [if_neg fun h => hhere h.2, hmark, List.cons_append]

/-- **The context of a diagnostic is its source with one line more**: right after the line with as many
    line feeds before it as there are before the start, which is moved into the source, spaces up to the
    start and a caret for each character of the place, at least one. -/
theorem Diagnostic.context_at (stage : Stage) (kind : ErrorKind) (source : Text)
    (line start length : Int) :
    let position := (min (max start 0) source.length).toNat
    ∃ above before after below,
      Text.splitOn '\n' source = above ++ (before ++ after) :: below ∧
      source.take position = Text.join ['\n'] (above ++ [before]) ∧
      above.length = (source.take position).count '\n' ∧
      (Diagnostic.at stage kind source line start length).context =
        Text.join ['\n'] (above ++ (before ++ after) ::
          (Text.spaces before.expandTabs.length ++ List.replicate (max length 1).toNat '^') ::
            below) ++ ['\n'] := by
  intro position
  have hposition : position ≤ source.length := by omega
  obtain ⟨above, before, after, below, hcut, hmark⟩ :=
    markLines_eq length (Text.splitOn_ne_nil '\n' source) (Nat.zero_le position)
      (by rwa [Text.join_splitOn, Nat.zero_add])
  have htake := hcut.take_eq
  rw [Text.join_splitOn, Nat.sub_zero] at htake
  refine ⟨above, before, after, below, hcut.lines_eq, htake, ?_, ?_⟩
  · have hparts : ∀ part ∈ above ++ [before], '\n' ∉ part := by
      have hlines : ∀ line ∈ Text.splitOn '\n' source, '\n' ∉ line := Text.not_mem_of_mem_splitOn
      rw [hcut.lines_eq, List.forall_mem_append, List.forall_mem_cons] at hlines
      refine List.forall_mem_append.2 ⟨hlines.1, List.forall_mem_singleton.2 ?_⟩
      exact fun hmem => hlines.2.1 (List.mem_append_left after hmem)
    rw [htake, Text.count_join hparts]
  · exact congrArg (Text.join ['\n'] · ++ ['\n']) hmark

end LogoLang
