import LogoLang.Proofs.Program.Assembly
import Mathlib.Tactic.SplitIfs

set_option autoImplicit false

/-! # One line in two views

The balance check sees the class of a line, assembly its shape and, for a statement, the tree that
is read from it. The two views agree on blank lines, comments, brackets and on the lines that start
and end a declaration. A line that assembly takes in as a statement is of the class `other`; one
that it takes in as the header of a block is an opener or, if the command word touches the
condition, `other`. -/

namespace LogoLang

/-! ## First words of trimmed lines -/

theorem Text.head_trim (line : Text) : ∀ c ∈ line.trim.head?, isBlank c = false := by
  intro c hc
  rw [Text.trim] at hc
  cases hleft : line.trimLeft with
  | nil => simp [hleft] at hc
  | cons x rest =>
    have hx : isBlank x = false := by
      have hhead := List.head?_dropWhile_not isBlank line
      rw [show line.dropWhile isBlank = x :: rest from hleft] at hhead
      exact hhead
    have hkeep : Text.trimRight (x :: rest) = x :: Text.trimRight rest :=
      Text.trimRight_append_of_last (t := []) hx rest
    rw [hleft, hkeep] at hc
    rw [← Option.some.inj hc]
    exact hx

theorem firstWord_trim (line : Text) : firstWord line.trim = line.trim.takeWhile (!isSpace ·) := by
  rw [firstWord_eq_takeWhile, dropWhile_isSpace_of_head]
  intro c hc
  exact isSpace_eq_false_of_isBlank (Text.head_trim line c hc)

/-- The first word of a trimmed line starts as the line does. -/
theorem head?_firstWord_trim (line : Text) : (firstWord line.trim).head? = line.trim.head? := by
  rw [firstWord_trim]
  cases htrim : line.trim with
  | nil => rfl
  | cons c rest =>
    have hc : isSpace c = false :=
      isSpace_eq_false_of_isBlank (Text.head_trim line c (by simp [htrim]))
    simp [hc]

/-- The first word of a line that starts with a word of name characters. -/
theorem firstWord_of_word {line word rest : Text} (hline : line.dropWhile isSpace = word ++ rest)
    (hne : word ≠ []) (hword : ∀ c ∈ word, isNameChar c = true) :
    firstWord line.trim = word ++ (Text.trimRight rest).takeWhile (!isSpace ·) := by
  rw [firstWord_trim, Text.trim_of_word hline hne hword]
  exact takeWhile_word fun c hc => isSpace_of_isNameChar (hword c hc)

/-! ## Classes -/

theorem LineClass.of_eq_opener_iff {line : Text} :
    LineClass.of line = .opener ↔ firstWord line.trim ∈ blockKeywords := by
  have hmem : firstWord line.trim ∈ blockKeywords ↔
      firstWord line.trim = "IF".toList ∨ firstWord line.trim = "WHILE".toList := by
    simp only [blockKeywords, List.mem_cons, List.not_mem_nil, or_false]
  simp only [LineClass.of, hmem]
  constructor
  · intro h
    split_ifs at h with hword
    exact hword
  · intro hword
    rw [if_pos hword]

theorem head?_of_mem_blockKeywords {word : Text} (h : word ∈ blockKeywords) :
    word.head? = some 'I' ∨ word.head? = some 'W' := by
  simp only [blockKeywords, List.mem_cons, List.not_mem_nil, or_false] at h
  rcases h with rfl | rfl
  · exact Or.inl rfl
  · exact Or.inr rfl

theorem LineClass.of_eq_closer_iff {line : Text} :
    LineClass.of line = .closer ↔ line.trim.head? = some ']' := by
  constructor
  · intro h
    simp only [LineClass.of] at h
    split_ifs at h with hword hbracket
    exact hbracket
  · intro hbracket
    have hhead := head?_firstWord_trim line
    rw [hbracket] at hhead
    have hword : ¬(firstWord line.trim = "IF".toList ∨ firstWord line.trim = "WHILE".toList) := by
      rintro (h | h) <;> rw [h] at hhead <;> exact absurd hhead (by decide)
    simp only [LineClass.of, if_neg hword, if_pos hbracket]

/-- Classes that are told by the first word of a line, which does not start a block. -/
theorem LineClass.of_firstWord {line : Text} (hword : firstWord line.trim ∉ blockKeywords)
    (hbracket : line.trim.head? ≠ some ']') :
    LineClass.of line = if firstWord line.trim = toKeyword then .heading
      else if firstWord line.trim = endKeyword then .ending else .other := by
  simp only [blockKeywords, List.mem_cons, List.not_mem_nil, or_false] at hword
  simp only [LineClass.of, if_neg hword, if_neg hbracket]

theorem LineClass.of_eq_heading_iff {line : Text} :
    LineClass.of line = .heading ↔ firstWord line.trim = toKeyword := by
  constructor
  · intro h
    simp only [LineClass.of] at h
    split_ifs at h with hword hbracket hto
    exact hto
  · intro hto
    have hhead : line.trim.head? = some 'T' := by
      rw [← head?_firstWord_trim, hto]
      rfl
    rw [LineClass.of_firstWord (by rw [hto]; decide) (by rw [hhead]; decide), if_pos hto]

theorem LineClass.of_eq_ending_iff {line : Text} :
    LineClass.of line = .ending ↔ firstWord line.trim = endKeyword := by
  constructor
  · intro h
    simp only [LineClass.of] at h
    split_ifs at h with hword hbracket hto hend
    exact hend
  · intro hend
    have hhead : line.trim.head? = some 'E' := by
      rw [← head?_firstWord_trim, hend]
      rfl
    have hto : firstWord line.trim ≠ toKeyword := by rw [hend]; decide
    rw [LineClass.of_firstWord (by rw [hend]; decide) (by rw [hhead]; decide), if_neg hto,
      if_pos hend]

/-! ## Shapes -/

/-- How the shape of a line is told. -/
inductive LineShape.Told (line : Text) : LineShape → Prop where
  | blank (htrim : line.trim = []) : LineShape.Told line .blank
  | comment {rest : Text} (htrim : line.trim = '/' :: '/' :: rest) :
      LineShape.Told line (.comment (Text.trim rest))
  | close (htrim : line.trim = [']']) : LineShape.Told line .close
  | heading (hword : firstWord line.trim = toKeyword) : LineShape.Told line .heading
  | ending (hword : firstWord line.trim = endKeyword) : LineShape.Told line .ending
  | statement (hblank : line.trim ≠ []) (hcomment : ¬"//".toList <+: line.trim)
      (hclose : line.trim ≠ [']']) (hto : firstWord line.trim ≠ toKeyword)
      (hend : firstWord line.trim ≠ endKeyword) : LineShape.Told line .statement

theorem LineShape.told (line : Text) : LineShape.Told line (LineShape.of line) := by
  simp only [LineShape.of, List.isEmpty_iff, List.isPrefixOf_iff_prefix]
  split_ifs with hblank hcomment hclose hto hend
  · exact .blank hblank
  · obtain ⟨rest, hrest⟩ := hcomment
    rw [← hrest]
    exact .comment hrest.symm
  · exact .close hclose
  · exact .heading hto
  · exact .ending hend
  · exact .statement hblank hcomment hclose hto hend

theorem LineShape.Told.of_eq {line : Text} {shape : LineShape} (h : LineShape.of line = shape) :
    LineShape.Told line shape :=
  h ▸ LineShape.told line

/-- The text of a comment is a part of its line. -/
theorem LineShape.mem_of_comment {line text : Text} (h : LineShape.of line = .comment text) {c : Char}
    (hc : c ∈ text) : c ∈ line := by
  cases LineShape.Told.of_eq h with
  | @comment rest htrim =>
    refine Text.mem_of_mem_trim ?_
    rw [htrim]
    exact List.mem_cons_of_mem _ (List.mem_cons_of_mem _ (Text.mem_of_mem_trim hc))

theorem LineShape.of_eq_comment {line rest : Text} (htrim : line.trim = '/' :: '/' :: rest) :
    LineShape.of line = .comment (Text.trim rest) := by
  simp only [LineShape.of, htrim]
  rfl

theorem LineShape.of_eq_heading {line : Text} (hword : firstWord line.trim = toKeyword) :
    LineShape.of line = .heading := by
  have hhead : line.trim.head? = some 'T' := by
    rw [← head?_firstWord_trim, hword]
    rfl
  obtain ⟨rest, htrim⟩ := List.head?_eq_some_iff.1 hhead
  rw [htrim] at hword
  simp only [LineShape.of, htrim, hword]
  rfl

/-- What is told neither by its first character nor by its first word is a statement. -/
theorem LineShape.of_eq_statement {line : Text} (hblank : line.trim ≠ [])
    (hslash : line.trim.head? ≠ some '/') (hbracket : line.trim.head? ≠ some ']')
    (hto : firstWord line.trim ≠ toKeyword) (hend : firstWord line.trim ≠ endKeyword) :
    LineShape.of line = .statement := by
  cases hshape : LineShape.of line with
  | statement => rfl
  | blank =>
    cases LineShape.Told.of_eq hshape with
    | blank htrim => exact absurd htrim hblank
  | comment text =>
    cases LineShape.Told.of_eq hshape with
    | comment htrim => exact absurd (by rw [htrim]; rfl) hslash
  | close =>
    cases LineShape.Told.of_eq hshape with
    | close htrim => exact absurd (by rw [htrim]; rfl) hbracket
  | heading =>
    cases LineShape.Told.of_eq hshape with
    | heading hword => exact absurd hword hto
  | ending =>
    cases LineShape.Told.of_eq hshape with
    | ending hword => exact absurd hword hend

/-! ## Classes by shape -/

theorem LineClass.of_blank {line : Text} (h : LineShape.of line = .blank) :
    LineClass.of line = .other := by
  cases LineShape.Told.of_eq h with
  | blank htrim =>
    have hword : firstWord line.trim = [] := by rw [htrim]; rfl
    rw [LineClass.of_firstWord (by rw [hword]; decide) (by simp [htrim]), hword]
    rfl

theorem LineClass.of_comment {line text : Text} (h : LineShape.of line = .comment text) :
    LineClass.of line = .other := by
  cases LineShape.Told.of_eq h with
  | comment htrim =>
    have hhead : (firstWord line.trim).head? = some '/' := by
      rw [head?_firstWord_trim, htrim]
      rfl
    have hne : ∀ word : Text, word.head? ≠ some '/' → firstWord line.trim ≠ word :=
      fun word hword heq => hword (heq ▸ hhead)
    have hword : firstWord line.trim ∉ blockKeywords := by
      intro hmem
      rcases head?_of_mem_blockKeywords hmem with hc | hc <;> rw [hc] at hhead <;>
        exact absurd hhead (by decide)
    rw [LineClass.of_firstWord hword (by simp [htrim]), if_neg (hne _ (by decide)),
      if_neg (hne _ (by decide))]

theorem LineClass.of_close {line : Text} (h : LineShape.of line = .close) :
    LineClass.of line = .closer := by
  cases LineShape.Told.of_eq h with
  | close htrim => exact LineClass.of_eq_closer_iff.2 (by rw [htrim]; rfl)

theorem LineClass.of_heading {line : Text} (h : LineShape.of line = .heading) :
    LineClass.of line = .heading := by
  cases LineShape.Told.of_eq h with
  | heading hword => exact LineClass.of_eq_heading_iff.2 hword

theorem LineClass.of_ending {line : Text} (h : LineShape.of line = .ending) :
    LineClass.of line = .ending := by
  cases LineShape.Told.of_eq h with
  | ending hword => exact LineClass.of_eq_ending_iff.2 hword

/-- A line that is read as a block looks to the check like an opener or like nothing special. -/
theorem LineClass.of_block {line : Text} {index : Nat} {stmt : Stmt} {c : Cursor}
    (hread : readStmt? line index = some (stmt, c)) (hblock : stmt.isBlock = true) :
    LineShape.of line = .statement ∧
      (LineClass.of line = .opener ∨ LineClass.of line = .other) := by
  obtain ⟨word, rest, hline, hmem, _⟩ := exists_word_of_block hread hblock
  obtain ⟨hne, hchars⟩ := blockKeywords_nameChars word hmem
  have htrim : line.trim = word ++ Text.trimRight rest := Text.trim_of_word hline hne hchars
  have hfirst := firstWord_of_word hline hne hchars
  have hhead : (firstWord line.trim).head? = some 'I' ∨ (firstWord line.trim).head? = some 'W' := by
    rw [hfirst]
    rcases head?_of_mem_blockKeywords hmem with hc | hc
    · exact Or.inl (by simp [hc])
    · exact Or.inr (by simp [hc])
  have hne' : ∀ other : Text, other.head? ≠ some 'I' → other.head? ≠ some 'W' →
      firstWord line.trim ≠ other := by
    rintro other hI hW rfl
    exact hhead.elim hI hW
  have hto := hne' toKeyword (by decide) (by decide)
  have hend := hne' endKeyword (by decide) (by decide)
  rw [head?_firstWord_trim] at hhead
  have hbracket : line.trim.head? ≠ some ']' := by
    rcases hhead with hc | hc <;> rw [hc] <;> decide
  have hslash : line.trim.head? ≠ some '/' := by
    rcases hhead with hc | hc <;> rw [hc] <;> decide
  have hblank : line.trim ≠ [] := by
    intro hnil
    rw [hnil] at hhead
    exact absurd hhead (by decide)
  constructor
  · exact LineShape.of_eq_statement hblank hslash hbracket hto hend
  · by_cases hopener : firstWord line.trim ∈ blockKeywords
    · exact Or.inl (LineClass.of_eq_opener_iff.2 hopener)
    · rw [LineClass.of_firstWord hopener hbracket, if_neg hto, if_neg hend]
      exact Or.inr rfl

/-- A line that is taken in as a statement of its own looks like nothing special to the check. -/
theorem LineClass.of_leaf {line : Text} {index : Nat} {stmt : Stmt} {c : Cursor}
    (hshape : LineShape.of line = .statement) (hread : readStmt? line index = some (stmt, c))
    (hleaf : stmt.isBlock = false) (hflaw : stmt.firstFlaw? = none) :
    LineClass.of line = .other := by
  obtain ⟨word, rest, hline, hne, hchars, hlook⟩ := exists_word_of_leaf hread hleaf hflaw
  have hfirst := firstWord_of_word hline hne hchars
  -- the line starts with a name character, which is no bracket
  have hbracket : line.trim.head? ≠ some ']' := by
    rw [Text.trim_of_word hline hne hchars]
    cases word with
    | nil => exact absurd rfl hne
    | cons c tail =>
      rintro h
      have hc : isNameChar ']' = true := by
        have hc' := hchars c (List.mem_cons_self ..)
        rwa [Option.some.inj h] at hc'
      exact absurd hc (by decide)
  have hword : firstWord line.trim ∉ blockKeywords := by
    rw [hfirst]
    intro hmem
    -- a command word may run on into the first word, the name of a function is all of it
    rcases hlook with hshort | ⟨hother, hspace⟩
    · have hprefix := hshort _ hmem
      rw [← Bool.not_eq_true, List.isPrefixOf_iff_prefix] at hprefix
      exact hprefix (List.prefix_append _ _)
    · obtain ⟨tail, htail⟩ := Text.trimRight_prefix rest
      have hstop : (Text.trimRight rest).takeWhile (!isSpace ·) = [] := by
        apply takeWhile_of_head_isSpace
        intro x hx
        apply hspace
        rw [← htail, List.head?_append, Option.mem_def.1 hx]
        rfl
      rw [hstop, List.append_nil] at hmem
      exact hother hmem
  cases LineShape.Told.of_eq hshape with
  | statement _ _ _ hto hend => rw [LineClass.of_firstWord hword hbracket, if_neg hto, if_neg hend]

end LogoLang
