import LogoLang.Proofs.Syntax.Cursor
import LogoLang.Syntax.Statement

set_option autoImplicit false

/-! # How a line becomes a statement

A line is read as a statement either by its command word or as a call. In both cases the line
starts, after spaces, with a word of name characters, unless the statement has a flaw
(`exists_word_of_leaf`). -/

namespace LogoLang

/-! ## Names -/

theorem isNameChar_of_isValidName {name : Text} (h : isValidName name = true) :
    name ≠ [] ∧ ∀ c ∈ name, isNameChar c = true := by
  cases name with
  | nil => simp [isValidName] at h
  | cons c rest =>
    simp only [isValidName, Bool.and_eq_true, Bool.or_eq_true, List.all_eq_true] at h
    refine ⟨by simp, List.forall_mem_cons.2 ⟨?_, h.2⟩⟩
    simp only [isNameChar, Char.isAlphanum, Bool.or_eq_true]
    exact h.1.imp_left Or.inl

theorem Label.ofName_flaw?_eq_none_iff {name : Text} {span : Span} :
    (Label.ofName name span).flaw? = none ↔ isValidName name = true := by
  rw [Label.ofName]
  split
  · next h => simp [Label.flaw?, h]
  · next h => simp [Label.flaw?, h]

/-! ## Command words -/

theorem stmtKeywords_nameChars :
    ∀ entry ∈ stmtKeywords, entry.1 ≠ [] ∧ ∀ c ∈ entry.1, isNameChar c = true := by
  have hall : ∀ entry ∈ stmtKeywords, entry.1 ≠ [] ∧ entry.1.all isNameChar = true := by decide
  intro entry hentry
  exact ⟨(hall entry hentry).1, List.all_eq_true.1 (hall entry hentry).2⟩

/-- The words that start a block. -/
def blockKeywords : List Text := ["IF".toList, "WHILE".toList]

/-- Whether statements of a form have a body. -/
def StmtForm.isBlock : StmtForm → Bool
  | .block _ => true
  | .assign _ | .pen _ | .command _ => false

/-- Whether a statement has a body. -/
def Stmt.isBlock : Stmt → Bool
  | .block .. => true
  | .assign .. | .pen .. | .command .. | .call .. | .comment .. => false

theorem StmtForm.isBlock_read (form : StmtForm) (c : Cursor) (line : Nat) :
    (form.read c line).1.isBlock = form.isBlock := by
  cases form <;> rfl

theorem isBlock_of_mem :
    ∀ entry ∈ stmtKeywords, entry.2.isBlock = decide (entry.1 ∈ blockKeywords) := by
  decide

theorem blockKeywords_nameChars :
    ∀ word ∈ blockKeywords, word ≠ [] ∧ ∀ c ∈ word, isNameChar c = true := by
  have hall : ∀ word ∈ blockKeywords, word ≠ [] ∧ word.all isNameChar = true := by decide
  intro word hword
  exact ⟨(hall word hword).1, List.all_eq_true.1 (hall word hword).2⟩

theorem toKeyword_nameChars : ∀ x ∈ toKeyword, isNameChar x = true :=
  List.all_eq_true.1 (by decide)

/-- No other command word is the beginning of a word that starts a block. -/
theorem isPrefixOf_blockKeyword :
    ∀ entry ∈ stmtKeywords, entry.1 ∈ blockKeywords ∨
      ∀ word ∈ blockKeywords, entry.1.isPrefixOf word = false := by
  decide

theorem lookup_blockKeyword :
    ∀ word ∈ blockKeywords, (stmtKeywords.lookup word).isSome = true := by
  decide

/-! ## The first word of a statement -/

theorem Cursor.start_skipSpaces (line : Text) :
    ((Cursor.start line).skipSpaces).rest = line.dropWhile isSpace := by
  rw [Cursor.skipSpaces_rest, Cursor.start_rest]

/-- A block is read only after a word that starts one. -/
theorem exists_word_of_block {line : Text} {index : Nat} {stmt : Stmt} {c : Cursor}
    (h : readStmt? line index = some (stmt, c)) (hblock : stmt.isBlock = true) :
    ∃ word rest, line.dropWhile isSpace = word ++ rest ∧ word ∈ blockKeywords ∧
      runsOn word rest = false := by
  simp only [readStmt?] at h
  split at h
  · next form span c₁ hform =>
    obtain ⟨keyword, hmem, hkey⟩ := Cursor.oneOf?_eq_some hform
    obtain ⟨⟨rest, hrest, hruns⟩, _⟩ := Cursor.keyword?_eq_some_iff.1 hkey
    refine ⟨keyword, rest, hrest, ?_, hruns⟩
    have hstmt : form.isBlock = true := by
      rw [← StmtForm.isBlock_read form c₁ index, Option.some.inj h]
      exact hblock
    rw [isBlock_of_mem _ hmem] at hstmt
    exact of_decide_eq_true hstmt
  · simp only [readCall?, Option.map_eq_some_iff, Prod.exists] at h
    obtain ⟨name, c₁, _, hstmt⟩ := h
    cases hstmt
    simp [Stmt.isBlock] at hblock

theorem readFunctionName?_eq_some_iff {c after : Cursor} {label : Label} :
    readFunctionName? c = some (label, after) ↔
      ∃ word, word ≠ [] ∧ word = (c.rest.dropWhile isSpace).takeWhile (!isSpace ·) ∧
        label = .ofName word (c.skipSpaces.spanOf word.length) ∧
        after = c.skipSpaces.after word.length := by
  simp only [readFunctionName?, wordUntil_wordStops, Cursor.skipSpaces_rest, List.isEmpty_iff]
  split
  · next h => simp [h]
  · next h =>
    simp only [Option.some.injEq, Prod.mk.injEq]
    constructor
    · rintro ⟨rfl, rfl⟩
      exact ⟨_, h, rfl, rfl, rfl⟩
    · rintro ⟨word, _, rfl, rfl, rfl⟩
      exact ⟨rfl, rfl⟩

/-- A statement without a body and without a flaw starts with a command word or with the name of the
    function that it calls, and neither makes it look like the start of a block. -/
theorem exists_word_of_leaf {line : Text} {index : Nat} {stmt : Stmt} {c : Cursor}
    (h : readStmt? line index = some (stmt, c)) (hleaf : stmt.isBlock = false)
    (hflaw : stmt.firstFlaw? = none) :
    ∃ word rest, line.dropWhile isSpace = word ++ rest ∧ word ≠ [] ∧
      (∀ x ∈ word, isNameChar x = true) ∧
      ((∀ keyword ∈ blockKeywords, word.isPrefixOf keyword = false) ∨
        (word ∉ blockKeywords ∧ ∀ x ∈ rest.head?, isSpace x = true)) := by
  simp only [readStmt?] at h
  split at h
  · next form span c₁ hform =>
    obtain ⟨keyword, hmem, hkey⟩ := Cursor.oneOf?_eq_some hform
    obtain ⟨⟨rest, hrest, _⟩, _⟩ := Cursor.keyword?_eq_some_iff.1 hkey
    obtain ⟨hne, hchars⟩ := stmtKeywords_nameChars _ hmem
    refine ⟨keyword, rest, hrest, hne, hchars, Or.inl ?_⟩
    have hform' : form.isBlock = false := by
      rw [← StmtForm.isBlock_read form c₁ index, Option.some.inj h]
      exact hleaf
    rw [isBlock_of_mem _ hmem] at hform'
    exact (isPrefixOf_blockKeyword _ hmem).resolve_left (of_decide_eq_false hform')
  · next hnone =>
    simp only [readCall?, Option.map_eq_some_iff, Prod.exists] at h
    obtain ⟨label, c₁, hname, hstmt⟩ := h
    cases hstmt
    obtain ⟨word, hne, hword, rfl, _⟩ := readFunctionName?_eq_some_iff.1 hname
    simp only [Stmt.firstFlaw?, Option.or_eq_none_iff] at hflaw
    obtain ⟨_, hchars⟩ := isNameChar_of_isValidName (Label.ofName_flaw?_eq_none_iff.1 hflaw.1)
    obtain ⟨rest, hrest, hspace⟩ := exists_after_word (line.dropWhile isSpace)
    rw [← Cursor.start_rest line, ← hword, Cursor.start_rest] at hrest
    refine ⟨word, rest, hrest, hne, hchars, Or.inr ⟨fun hblock => ?_, hspace⟩⟩
    -- a word that starts a block would have been read as a command word
    rw [Cursor.oneOf?_of_word hrest hchars (fun x hx => isNameChar_of_isSpace (hspace x hx))
      stmtKeywords_nameChars] at hnone
    simp only [Option.map_eq_none_iff] at hnone
    have hsome := lookup_blockKeyword word hblock
    rw [hnone] at hsome
    exact absurd hsome (by simp)

end LogoLang
