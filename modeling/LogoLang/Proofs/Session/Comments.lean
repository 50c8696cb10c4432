import LogoLang.Proofs.Program.CommentLines
import LogoLang.Proofs.Session.Emission

set_option autoImplicit false

/-! # Comments in emitted modules

The text of a comment reaches the module only in the lines that the comment is emitted as. They are no
code, and so what comments say makes no difference to the code of the module, if the text of each
comment stays a comment there (`comments_stay_comments`). That is so whenever the program is cut into
lines by its line boundaries; the lines of a list can hold a line feed or a carriage return
(`comment_in_list_becomes_code`). -/

namespace LogoLang

/-- The physical lines of a text that are code. -/
def codeRows (t : Text) : List Text := keptRows isCodeRow t

/-- A text that gains comments has the same code if all of them stay comments. -/
theorem TextGains.codeRows_eq_iff {texts : List Text} {t t' : Text} (h : TextGains texts t t') :
    codeRows t' = codeRows t ↔ ∀ text ∈ texts, StaysComment text := by
  rw [codeRows, codeRows, h.keptRows_eq_iff fun row => isCodeRow_of_isCommentRow]
  simp only [List.mem_flatMap, staysComment_iff, forall_exists_index, and_imp]
  exact ⟨fun h text htext row hrow => h row text htext hrow,
    fun h row text htext hrow => h text htext row hrow⟩

/-! ## Sources -/

theorem LineShape.oneRow_of_comment {line text : Text} (hline : line.OneRow)
    (h : LineShape.of line = .comment text) : text.OneRow :=
  fun c hc => hline c (LineShape.mem_of_comment h hc)

/-- Whether the lines of a source are cut at all line boundaries. -/
def Source.IsCut : Source → Prop
  | .text _ | .stream _ _ => True
  | .lines _ => False

/-- The comments of a source that is cut into lines have no line end in them. -/
theorem oneRow_of_isCut {source : Source} {table : FunctionTable} (hcut : source.IsCut)
    (h : parseProgram source.toLines = .ok table) : ∀ text ∈ table.comments, Text.OneRow text := by
  intro text htext
  obtain ⟨line, hline, hshape⟩ := (mem_comments_of_parseProgram h).1 htext
  refine LineShape.oneRow_of_comment ?_ hshape
  cases source with
  | text content => exact Text.oneRow_of_mem_splitLines hline
  | stream name content => exact Text.oneRow_of_mem_splitLines hline
  | lines given => exact hcut.elim

/-- So they stay comments. -/
theorem staysComment_of_isCut {source : Source} {table : FunctionTable} (hcut : source.IsCut)
    (h : parseProgram source.toLines = .ok table) : ∀ text ∈ table.comments, StaysComment text :=
  fun text htext => staysComment_of_oneRow (oneRow_of_isCut hcut h text htext)

/-! ## Modules -/

/-- The module of a program is that of the program without comments, with a line more for each of its
    comments. Both have the same code, exactly if all comments stay comments. -/
def CommentsApart (s : Session) (module : Text) : Prop :=
  ∃ bare codes, s.table.withoutComments.emit.result = .ok bare ∧
    CodesGrow s.table.comments bare codes ∧
    module = moduleText codes s.emit.methods s.options.canvas.1 s.options.canvas.2 ∧
    (codeRows module =
        codeRows (moduleText bare s.emit.methods s.options.canvas.1 s.options.canvas.2) ↔
      ∀ text ∈ s.table.comments, StaysComment text)

section Emitted

variable {options : Options} {name : Setting} {lines : List Text} {table : FunctionTable}

/-- A table without comments can be emitted if the table can, and uses the same methods. -/
theorem emit_withoutComments (hdistinct : table.names.Nodup) {codes : List Text}
    (h : table.emit.result = .ok codes) :
    ∃ bare, table.withoutComments.emit.result = .ok bare ∧ CodesGrow table.comments bare codes ∧
      usedMethods table.emit.trace = usedMethods table.withoutComments.emit.trace := by
  have hgrows : table.withoutComments.Grows id table :=
    ⟨⟨_, _, table.entriesGrow, .refl _⟩, by rwa [table.names_withoutComments]⟩
  cases hbare : table.withoutComments.emit.result with
  | ok bare =>
    obtain ⟨codes', hcodes, hgrow, hmethods⟩ := table.entriesGrow.emit_ok hgrows.arity? hbare
    have hsame : codes' = codes := Except.ok.inj (hcodes.symm.trans h)
    exact ⟨bare, rfl, hsame ▸ hgrow, hmethods⟩
  | error failure =>
    have hagree : Agree (CodesGrow table.comments) (fun f f' => f' = f.renumber id)
      table.withoutComments.emit.result table.emit.result := table.entriesGrow.emit hgrows.arity?
    rw [hbare, h] at hagree
    cases hagree

/-- Programs that are the same but for their comments can be emitted both or neither, and use the same
    methods. -/
theorem emit_of_withoutComments_eq {table' : FunctionTable} (hdistinct : table.names.Nodup)
    (hsame : table'.withoutComments = table.withoutComments) (lines' : List Text) {module : Text}
    (hemit : (Session.emit ⟨options, name, lines, table⟩).result = .ok module) :
    ∃ module', (Session.emit ⟨options, name, lines', table'⟩).result = .ok module' ∧
      (Session.emit ⟨options, name, lines', table'⟩).methods =
        (Session.emit ⟨options, name, lines, table⟩).methods := by
  obtain ⟨codes, h⟩ := Session.exists_codes_of_emit hemit
  obtain ⟨bare, hbare, _, hmethods⟩ := emit_withoutComments hdistinct h
  have hgrow' : EntriesGrow id table'.comments table.withoutComments.entries table'.entries :=
    hsame ▸ table'.entriesGrow
  have hgrows' : table.withoutComments.Grows id table' :=
    ⟨⟨_, _, hgrow', .refl _⟩, by rwa [table.names_withoutComments]⟩
  obtain ⟨codes', h', _, hmethods'⟩ := hgrow'.emit_ok hgrows'.arity? hbare
  exact ⟨_, Session.emit_of_ok h', hmethods'.trans hmethods.symm⟩

theorem commentsApart_of_emit (hdistinct : table.names.Nodup) {module : Text}
    (hemit : (Session.emit ⟨options, name, lines, table⟩).result = .ok module) :
    CommentsApart ⟨options, name, lines, table⟩ module := by
  obtain ⟨codes, h⟩ := Session.exists_codes_of_emit hemit
  rw [Session.emit_of_ok h] at hemit
  obtain rfl := Except.ok.inj hemit
  obtain ⟨bare, hbare, hgrow, _⟩ := emit_withoutComments hdistinct h
  refine ⟨bare, codes, hbare, hgrow, rfl, ?_⟩
  exact TextGains.codeRows_eq_iff fun keep hkeep => moduleText_gains hkeep hgrow _ _ _

/-- Of two programs that are the same but for their comments, either has the code of what is left
    without comments, exactly if its comments stay comments. -/
theorem exists_common_code {table' : FunctionTable} (lines' : List Text) {module : Text}
    (hdistinct : table.names.Nodup) (hsame : table'.withoutComments = table.withoutComments)
    (hemit : (Session.emit ⟨options, name, lines, table⟩).result = .ok module) :
    ∃ bare module', (Session.emit ⟨options, name, lines', table'⟩).result = .ok module' ∧
      (codeRows module = codeRows bare ↔ ∀ text ∈ table.comments, StaysComment text) ∧
      (codeRows module' = codeRows bare ↔ ∀ text ∈ table'.comments, StaysComment text) := by
  have hdistinct' : table'.names.Nodup := by
    rwa [← table'.names_withoutComments, hsame, table.names_withoutComments]
  obtain ⟨module', hemit', hmethods⟩ := emit_of_withoutComments_eq hdistinct hsame lines' hemit
  obtain ⟨bare, _, hcodes, _, _, hcode⟩ := commentsApart_of_emit hdistinct hemit
  obtain ⟨bare', _, hcodes', _, _, hcode'⟩ := commentsApart_of_emit hdistinct' hemit'
  simp only [hsame, hmethods] at hcodes' hcode'
  obtain rfl : bare' = bare := Except.ok.inj (hcodes'.symm.trans hcodes)
  exact ⟨_, module', hemit', hcode, hcode'⟩

end Emitted

/-- **What comments say never becomes code**, if each comment stays a comment in the module, as those of
    a text or of a stream do: a program with other texts in its comments is accepted and emitted as
    well, with the same code. -/
theorem comments_stay_comments {source : Source} {table : FunctionTable}
    (h : parseProgram source.toLines = .ok table) {options : Options} {name : Setting} {module : Text}
    (hemit : (Session.emit ⟨options, name, source.toLines, table⟩).result = .ok module) :
    CommentsApart ⟨options, name, source.toLines, table⟩ module ∧
      (source.IsCut → ∀ text ∈ table.comments, StaysComment text) ∧
      ∀ source' : Source, List.Forall₂ SameButComment source.toLines source'.toLines →
        ∃ table' module', parseProgram source'.toLines = .ok table' ∧
          (Session.emit ⟨options, name, source'.toLines, table'⟩).result = .ok module' ∧
          (source'.IsCut → ∀ text ∈ table'.comments, StaysComment text) ∧
          ((∀ text ∈ table.comments, StaysComment text) →
            (∀ text ∈ table'.comments, StaysComment text) →
            codeRows module' = codeRows module) := by
  have hdistinct := nodup_names_of_parseProgram h
  refine ⟨commentsApart_of_emit hdistinct hemit, fun hcut => staysComment_of_isCut hcut h, ?_⟩
  intro source' hsame
  obtain ⟨table', h', hbare⟩ := parseProgram_recomment h hsame
  obtain ⟨bare, module', hemit', hcode, hcode'⟩ :=
    exists_common_code source'.toLines hdistinct hbare hemit
  refine ⟨table', module', h', hemit', fun hcut => staysComment_of_isCut hcut h', ?_⟩
  intro hstay hstay'
  rw [hcode.2 hstay, hcode'.2 hstay']

/-- A program of two lines under another comment. -/
theorem comments_stay_comments_other_text :
    ∃ table table', parseProgram (Source.text "// up\nPENUP".toList).toLines = .ok table ∧
      parseProgram (Source.text "// # down\nPENUP".toList).toLines = .ok table' ∧
      ∀ options name, ∃ module module',
        (Session.emit ⟨options, name, (Source.text "// up\nPENUP".toList).toLines, table⟩).result =
          .ok module ∧
        (Session.emit ⟨options, name, (Source.text "// # down\nPENUP".toList).toLines,
          table'⟩).result = .ok module' ∧
        codeRows module' = codeRows module := by
  obtain ⟨table, htable, hemitted⟩ := Except.exists_of_any
    (m := parseProgram (Source.text "// up\nPENUP".toList).toLines)
    (p := fun table => table.emit.result.isOk) (by decide +kernel)
  obtain ⟨codes, hcodes⟩ := Except.exists_of_isOk hemitted
  obtain ⟨table', htable'⟩ := Except.exists_of_isOk
    (m := parseProgram (Source.text "// # down\nPENUP".toList).toLines) (by decide +kernel)
  have hsame : List.Forall₂ SameButComment (Source.text "// up\nPENUP".toList).toLines
      (Source.text "// # down\nPENUP".toList).toLines :=
    .cons (.comments (by decide : LineShape.of "// up".toList = .comment "up".toList)
      (by decide : LineShape.of "// # down".toList = .comment "# down".toList))
      (.cons (.same _) .nil)
  refine ⟨table, table', htable, htable', fun options name => ?_⟩
  have hmodule := Session.emit_of_ok (s := ⟨options, name,
    (Source.text "// up\nPENUP".toList).toLines, table⟩) hcodes
  obtain ⟨_, hstay, hother⟩ := comments_stay_comments htable hmodule
  obtain ⟨other, module', hparse, hemit, hstay', hcode⟩ := hother _ hsame
  obtain rfl : other = table' := Except.ok.inj (hparse.symm.trans htable')
  exact ⟨_, module', hmodule, hemit, hcode (hstay trivial) (hstay' trivial)⟩

/-- The comment of this one line in a list is emitted as a comment and a line of code, which the
    comment without its end is not. -/
theorem comment_in_list_becomes_code :
    ∃ table table', parseProgram (Source.lines ["// a\nb".toList]).toLines = .ok table ∧
      parseProgram (Source.lines ["// a".toList]).toLines = .ok table' ∧
      (∃ text ∈ table.comments, ¬ StaysComment text) ∧
      ∀ options name, ∃ module module',
        (Session.emit ⟨options, name, (Source.lines ["// a\nb".toList]).toLines, table⟩).result =
          .ok module ∧
        (Session.emit ⟨options, name, (Source.lines ["// a".toList]).toLines, table'⟩).result =
          .ok module' ∧
        codeRows module' ≠ codeRows module := by
  have hsame : List.Forall₂ SameButComment (Source.lines ["// a\nb".toList]).toLines
      (Source.lines ["// a".toList]).toLines :=
    .cons (.comments (by decide : LineShape.of "// a\nb".toList = .comment "a\nb".toList)
      (by decide : LineShape.of "// a".toList = .comment "a".toList)) .nil
  obtain ⟨table, htable, hcheck⟩ := Except.exists_of_any
    (m := parseProgram (Source.lines ["// a\nb".toList]).toLines)
    (p := fun table => table.emit.result.isOk) (by decide +kernel)
  obtain ⟨codes, hcodes⟩ := Except.exists_of_isOk hcheck
  obtain ⟨table', htable', hbare⟩ := parseProgram_recomment htable hsame
  have hbecomes : ∃ text ∈ table.comments, ¬ StaysComment text := by
    refine ⟨"a\nb".toList, (mem_comments_of_parseProgram htable).2
      ⟨"// a\nb".toList, List.mem_singleton_self _, by decide⟩, ?_⟩
    rw [staysComment_iff]
    decide
  have hstays : ∀ text ∈ table'.comments, StaysComment text := by
    intro text htext
    obtain ⟨line, hline, hshape⟩ := (mem_comments_of_parseProgram htable').1 htext
    obtain rfl : line = "// a".toList := List.mem_singleton.1 hline
    obtain rfl : "a".toList = text := LineShape.comment.inj hshape
    rw [staysComment_iff]
    decide
  refine ⟨table, table', htable, htable', hbecomes, fun options name => ?_⟩
  have hmodule := Session.emit_of_ok (s := ⟨options, name,
    (Source.lines ["// a\nb".toList]).toLines, table⟩) hcodes
  obtain ⟨bare, module', hmodule', hcode, hcode'⟩ := exists_common_code
    (Source.lines ["// a".toList]).toLines (nodup_names_of_parseProgram htable) hbare hmodule
  refine ⟨_, module', hmodule, hmodule', fun heq => ?_⟩
  obtain ⟨text, htext, hnot⟩ := hbecomes
  exact hnot (hcode.1 (heq.symm.trans (hcode'.2 hstays)) text htext)

end LogoLang
