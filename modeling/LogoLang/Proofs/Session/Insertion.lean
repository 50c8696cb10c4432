import LogoLang.Proofs.Program.Insertion
import LogoLang.Proofs.Session.Emission

set_option autoImplicit false

/-! # Programs with a blank line or a comment more

A blank line or a comment never changes what a program does, wherever it is inserted
(`silent_lines_change_nothing`). The emitted module is the same but for comments, unless the text of the
comment goes on in physical lines that are none: only the lines of a list can hold such a text
(`comment_with_line_feed_emitted`). -/

namespace LogoLang

/-- The physical lines of a text that are no comments. -/
def uncommented (t : Text) : List Text := keptRows (fun row => !isCommentRow row) t

/-- What a blank line or a comment, inserted as line number `k`, makes of an accepted program. -/
structure SilentlyGrown (lines : List Text) (k : Nat) (line : Text) (texts : List Text)
    (table table' : FunctionTable) : Prop where
  /-- The comment is the only new statement. It stands in the body that is open at its place. -/
  inserted : ∃ opened functions main functions' main',
    Balance.start.run 0 (lines.take k) = .ok opened ∧
    (table.renumber (shiftFrom k)).entries = functions ++ [(mainName, ⟨[], main⟩)] ∧
    table' = ⟨functions' ++ [(mainName, ⟨[], main'⟩)]⟩ ∧
    ProgramInsert (commentsAt k texts) k ((opened.blocks.map OpenLine.index).reverse) opened.decl
      functions main functions' main'
  /-- A blank line only changes the numbers of the lines. -/
  blank : texts = [] → table' = table.renumber (shiftFrom k)
  runs : ∀ privateVariables t, SameRuns (shiftFrom k) lines (insertLine lines k line)
    ⟨table, privateVariables⟩ ⟨table', privateVariables⟩ t
  /-- The module is the same without its comments, exactly if all of the comment is a comment there. -/
  code : ∀ options name,
    Agree (fun module module' => uncommented module' = uncommented module ↔
        ∀ row ∈ texts.flatMap furtherRows, isCommentRow row = true)
      (fun failure failure' => failure' = failure.renumber (shiftFrom k))
      (Session.emit ⟨options, name, lines, table⟩).result
      (Session.emit ⟨options, name, insertLine lines k line, table'⟩).result

/-- A text that gains comments is the same without comments if all their further lines are comments. -/
theorem TextGains.uncommented_eq_iff {texts : List Text} {t t' : Text} (h : TextGains texts t t') :
    uncommented t' = uncommented t ↔ ∀ row ∈ texts.flatMap furtherRows, isCommentRow row = true := by
  rw [uncommented, uncommented, h.keptRows_eq_iff fun row hrow => by rw [hrow]; rfl]
  simp

section Inserted

variable {lines : List Text} {k : Nat} {line : Text} {texts : List Text}

theorem silentlyGrown_of_parseProgram {table : FunctionTable} (hk : k ≤ lines.length)
    (hline : SilentLine line texts) (h : parseProgram lines = .ok table) :
    ∃ table', parseProgram (insertLine lines k line) = .ok table' ∧
      SilentlyGrown lines k line texts table table' := by
  obtain ⟨opened, functions, main, functions', main', hopened, hentries, hinsert, h'⟩ :=
    parseProgram_insert h hk (hline.read k)
  have hlines := getElem?_insertLine hk line
  have hgrow : EntriesGrow (shiftFrom k) texts table.entries
      (functions' ++ [(mainName, ⟨[], main'⟩)]) := by
    have hafter := hinsert.grows
    rw [← hentries] at hafter
    exact hafter.of_renumber rfl
  have hdistinct := nodup_names_of_parseProgram h
  refine ⟨_, h', ⟨⟨opened, functions, main, functions', main', hopened, hentries, rfl, hinsert⟩,
    ?_, fun privateVariables t => ?_, fun options name => ?_⟩⟩
  · rintro rfl
    obtain ⟨rfl, rfl⟩ := hinsert.eq_of_nil
    rw [← hentries]
  · have hgrows : Program.Grows (shiftFrom k) ⟨table, privateVariables⟩
        ⟨⟨functions' ++ [(mainName, ⟨[], main'⟩)]⟩, privateVariables⟩ :=
      ⟨⟨⟨texts, _, hgrow, .refl _⟩, hdistinct⟩, rfl⟩
    exact hgrows.sameRuns hlines t
  · have hagree := Session.emit_grows hgrow hdistinct hlines options name
    exact hagree.imp fun module module' hgains => hgains.uncommented_eq_iff

/-- **Blank lines and comments never change a program**, wherever they are inserted: it is refused as
    before, or accepted with the comment as the only new statement, and it runs as before. It is also
    emitted as before, but for comments, unless the comment has further physical lines that are none. -/
theorem silent_lines_change_nothing (hk : k ≤ lines.length) (hline : SilentLine line texts) :
    Agree (SilentlyGrown lines k line texts)
      (fun failure failure' => failure' = failure.renumber (shiftFrom k))
      (parseProgram lines) (parseProgram (insertLine lines k line)) := by
  cases h : parseProgram lines with
  | ok table =>
    obtain ⟨table', h', hgrown⟩ := silentlyGrown_of_parseProgram hk hline h
    rw [h']
    exact .ok hgrown
  | error failure =>
    have hagree := parseProgram_insert_agree hk (hline.read k)
    rw [h] at hagree
    obtain ⟨failure', h', hrenumber⟩ := hagree.exists_error
    rw [h']
    exact .error hrenumber

end Inserted

/-- A comment in a block of a declaration. -/
theorem silent_lines_change_nothing_in_block :
    ∃ table table', parseProgram ["TO f".toList, "IF \"TRUE [".toList, "PENUP".toList,
        "]".toList, "END".toList] = .ok table ∧
      parseProgram ["TO f".toList, "IF \"TRUE [".toList, " // up".toList, "PENUP".toList,
        "]".toList, "END".toList] = .ok table' ∧
      SilentlyGrown ["TO f".toList, "IF \"TRUE [".toList, "PENUP".toList, "]".toList,
        "END".toList] 2 " // up".toList ["up".toList] table table' := by
  obtain ⟨table, htable⟩ := Except.exists_of_isOk (m := parseProgram ["TO f".toList,
    "IF \"TRUE [".toList, "PENUP".toList, "]".toList, "END".toList]) (by decide +kernel)
  have hline : SilentLine " // up".toList ["up".toList] :=
    .comment (by decide : Text.trim " // up".toList = '/' :: '/' :: " up".toList)
  have hagree := silent_lines_change_nothing (by decide : 2 ≤ ["TO f".toList, "IF \"TRUE [".toList,
    "PENUP".toList, "]".toList, "END".toList].length) hline
  rw [htable] at hagree
  obtain ⟨table', htable', hgrown⟩ := hagree.exists_ok
  exact ⟨table, table', htable, htable', hgrown⟩

/-- The comment of this one line with a line feed in it is emitted as a comment and a line of code. -/
theorem comment_with_line_feed_emitted :
    ∃ table table', parseProgram [] = .ok table ∧
      parseProgram (insertLine [] 0 "// a\nb".toList) = .ok table' ∧
      ∀ options name, ∃ module module',
        (Session.emit ⟨options, name, [], table⟩).result = .ok module ∧
        (Session.emit ⟨options, name, insertLine [] 0 "// a\nb".toList, table'⟩).result =
          .ok module' ∧
        uncommented module' ≠ uncommented module := by
  have htable : parseProgram [] = .ok ⟨[(mainName, ⟨[], []⟩)]⟩ := rfl
  have hline : SilentLine "// a\nb".toList ["a\nb".toList] :=
    .comment (by decide : Text.trim "// a\nb".toList = '/' :: '/' :: " a\nb".toList)
  obtain ⟨table', htable', hgrown⟩ := silentlyGrown_of_parseProgram (Nat.zero_le _) hline htable
  refine ⟨_, table', htable, htable', fun options name => ?_⟩
  have hcode := hgrown.code options name
  have hcodes : (FunctionTable.emit ⟨[(mainName, ⟨[], []⟩)]⟩).result =
      .ok [functionText mainName ⟨[], []⟩ [passLine 1]] := rfl
  obtain ⟨module, hmodule⟩ : ∃ module, (Session.emit ⟨options, name, [],
      ⟨[(mainName, ⟨[], []⟩)]⟩⟩).result = .ok module := ⟨_, Session.emit_of_ok hcodes⟩
  rw [hmodule] at hcode
  obtain ⟨module', hmodule', hsame⟩ := hcode.exists_ok
  refine ⟨module, module', hmodule, hmodule', fun heq => ?_⟩
  exact absurd (hsame.1 heq) (by decide)

end LogoLang
