import LogoLang.Proofs.Emit.Rows
import LogoLang.Proofs.Emit.Structure

set_option autoImplicit false

/-! # Emitted functions read back

An emitted function is read line by line (`readDef`): a physical line that is no comment is a depth, of
four spaces each, and code. These are the lines of code that its body was emitted as
(`readDef_functionText`), and so the trees that the statements of the body are shown as can be built
again from the depths (`exists_shown_of_emitLines`). -/

namespace LogoLang

/-- A physical line as a depth of indentation and the code behind it. -/
def readRow (row : Text) : CodeLine :=
  ⟨(row.takeWhile (· == ' ')).length / 4, Text.dropNewlines (row.dropWhile (· == ' '))⟩

/-- The lines of an emitted function after its first one, comments left out. -/
def readDef (code : Text) : List CodeLine :=
  ((code.rows.drop 1).filter fun row => !isCommentRow row).map readRow

/-! ## Lines -/

section Lines

variable {line : CodeLine} {lines : List CodeLine}

theorem CodeLine.Readable.rows (h : line.Readable) : line.toText.rows = [line.toText] :=
  ((Text.oneRow_spaces _).append h.oneRow).rows_line []

/-- A comment among the physical lines is a comment of the code. -/
theorem CodeLine.Readable.isCommentRow (h : line.Readable) :
    isCommentRow line.toText = line.isComment := by
  obtain ⟨c, rest, hcode, hc⟩ := h.first
  rw [LogoLang.isCommentRow, CodeLine.isComment, CodeLine.toText, List.append_assoc,
    Text.trimLeft_spaces_append, hcode, List.cons_append, Text.trimLeft,
    List.dropWhile_cons_of_neg (by simp [hc])]
  rfl

theorem Text.OneRow.dropNewlines {t : Text} (h : t.OneRow) :
    Text.dropNewlines (t ++ ['\n']) = t := by
  have hends : ∀ c ∈ t.reverse, ¬ (c == '\n' || c == '\r') = true := by
    intro c hc
    simp [h c (List.mem_reverse.1 hc)]
  have hkept : t.reverse.dropWhile (fun c => c == '\n' || c == '\r') = t.reverse := by
    cases hrev : t.reverse with
    | nil => rfl
    | cons c rest => exact List.dropWhile_cons_of_neg (hends c (hrev ▸ List.mem_cons_self))
  rw [Text.dropNewlines, List.reverse_append, List.reverse_singleton, List.singleton_append,
    List.dropWhile_cons_of_pos (by decide), hkept, List.reverse_reverse]

/-- **A line of code is read back.** -/
theorem CodeLine.Readable.readRow (h : line.Readable) : readRow line.toText = line := by
  obtain ⟨c, rest, hcode, hc⟩ := h.first
  have hspace : ¬ (c == ' ') = true := by
    intro heq
    rw [eq_of_beq heq] at hc
    exact absurd hc (by decide)
  have hspaces : ∀ d ∈ Text.spaces (4 * line.depth), (d == ' ') = true := by
    intro d hd
    rw [List.eq_of_mem_replicate hd]
    rfl
  have htake : (line.code ++ ['\n']).takeWhile (· == ' ') = [] := by
    rw [hcode]
    exact List.takeWhile_cons_of_neg hspace
  have hdrop : (line.code ++ ['\n']).dropWhile (· == ' ') = line.code ++ ['\n'] := by
    rw [hcode]
    exact List.dropWhile_cons_of_neg hspace
  rw [LogoLang.readRow, CodeLine.toText, List.append_assoc, List.takeWhile_append_of_pos hspaces,
    List.dropWhile_append_of_pos hspaces, htake, hdrop, h.oneRow.dropNewlines, List.append_nil,
    Text.spaces, List.length_replicate, Nat.mul_div_cancel_left _ (by decide)]

theorem rows_flatMap_toText (h : ∀ line ∈ lines, line.Readable) :
    Text.rows (lines.flatMap CodeLine.toText) = lines.map CodeLine.toText := by
  induction lines with
  | nil => rfl
  | cons line rest ih =>
    obtain ⟨hline, hrest⟩ := List.forall_mem_cons.1 h
    rw [List.flatMap_cons, line.closed_toText, hline.rows, ih hrest]
    rfl

/-- Lines of code are read back without their comments. -/
theorem map_readRow_toText (h : ∀ line ∈ lines, line.Readable) :
    ((lines.map CodeLine.toText).filter fun row => !isCommentRow row).map readRow =
      codeLines lines := by
  induction lines with
  | nil => rfl
  | cons line rest ih =>
    obtain ⟨hline, hrest⟩ := List.forall_mem_cons.1 h
    rw [codeLines] at ih ⊢
    rw [List.map_cons, List.filter_cons, List.filter_cons, hline.isCommentRow]
    split
    · rw [List.map_cons, hline.readRow, ih hrest]
    · exact ih hrest

end Lines

/-! ## Functions -/

section Functions

variable {table : FunctionTable} {name : Text} {f : Function} {lines : List CodeLine}

theorem oneRow_functionName (h : isValidName name = true ∨ name = mainName) :
    (functionName name).OneRow := by
  rcases h with hname | rfl
  · have hempty : name.isEmpty = false :=
      List.isEmpty_eq_false_iff.2 (isNameChar_of_isValidName hname).1
    have hword : Text.OneRow "fn_".toList := by decide
    rw [functionName, hempty]
    exact hword.append (oneRow_of_isValidName hname)
  · exact (by decide : Text.OneRow "process".toList)

theorem isValidName_of_mem_paramNames (h : ∀ param ∈ f.params, param.IsName) {param : Text}
    (hmem : param ∈ f.paramNames) : isValidName param = true := by
  obtain ⟨label, hlabel, hname⟩ := List.mem_filterMap.1 hmem
  obtain ⟨valid, span, rfl, hvalid⟩ := h label hlabel
  cases hname
  exact hvalid

theorem oneRow_heading (hname : isValidName name = true ∨ name = mainName)
    (hparams : ∀ param ∈ f.params, param.IsName) : (heading name f).OneRow := by
  have hdef : Text.OneRow "def ".toList := by decide
  have hdraw : Text.OneRow "draw".toList := by decide
  have hcolon : Text.OneRow [':'] := by decide
  have hvariables : ∀ code ∈ f.paramNames.map variableName, Text.OneRow code := by
    intro code hcode
    obtain ⟨param, hparam, rfl⟩ := List.mem_map.1 hcode
    exact oneRow_variableName (isValidName_of_mem_paramNames hparams hparam)
  have hjoined := oneRow_join (List.forall_mem_cons.2 ⟨hdraw, hvariables⟩)
  exact ((hdef.append (oneRow_functionName hname)).append (oneRow_parenthesized hjoined)).append
    hcolon

/-- The physical lines of a function are its first line and those of its body. -/
theorem rows_functionText (hname : isValidName name = true ∨ name = mainName)
    (hparams : ∀ param ∈ f.params, param.IsName) (h : ∀ line ∈ lines, line.Readable) :
    (functionText name f lines).rows = signature name f :: lines.map CodeLine.toText := by
  have hsignature : (signature name f).rows = [signature name f] := by
    rw [signature_eq]
    exact (oneRow_heading hname hparams).rows_line []
  rw [functionText, closed_signature, hsignature, rows_flatMap_toText h, List.singleton_append]

/-- **A function is read back as the lines of code of its body.** -/
theorem readDef_functionText (hname : isValidName name = true ∨ name = mainName)
    (hparams : ∀ param ∈ f.params, param.IsName) (h : ∀ line ∈ lines, line.Readable) :
    readDef (functionText name f lines) = codeLines lines := by
  rw [readDef, rows_functionText hname hparams h, List.drop_one, List.tail_cons,
    map_readRow_toText h]

/-- The lines of a function are the trees of its body, written out. -/
theorem exists_shown_of_emitLines (hform : ∀ stmt ∈ allStmts f.body, stmt.WellFormed)
    (hcomments : ∀ text ∈ bodyComments f.body, Text.OneRow text)
    (h : (f.emitLines table).result = .ok lines) :
    ∃ scope trees, BodyShown table passIfBare f.scope f.body scope trees ∧
      codeLines lines = writeTrees 1 (passIfBare f.body trees) ∧
      ∀ line ∈ lines, line.Readable := by
  simp only [Function.emitLines, Traced.bind_eq_ok_iff, Prod.exists] at h
  obtain ⟨scope, inner, hbody, h⟩ := h
  cases h
  obtain ⟨trees, hshown, hlines, hread⟩ := exists_shown_of_emitBody hform hcomments hbody
  exact ⟨scope, trees, hshown, hshown.codeLines_closeBody hlines, readable_closeBody hread⟩

end Functions

end LogoLang
