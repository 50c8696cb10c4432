import LogoLang.Proofs.Emit.Functions
import LogoLang.Proofs.Emit.Nesting

set_option autoImplicit false

/-! # The block structure of emitted functions

The trees that the statements of a body are shown as (`BodyShown`) have one line of code for each
statement that is no comment, with the lines of its body below it. The lines that are emitted for a
body, but for comments, are such trees written out (`exists_shown_of_emitBody`). -/

namespace LogoLang

/-! ## Statements as trees -/

/-- Whether a body has no statement that is no comment. -/
def isBare (body : List Stmt) : Bool := body.all fun stmt => stmt.comment?.isSome

/-- The trees that stand for a body with the given trees, if it needs a line that does nothing. -/
def passIfBare (body : List Stmt) (trees : List CodeTree) : List CodeTree :=
  if isBare body then [.node "pass".toList []] else trees

/-- The trees that the statements of a body are shown as, from one scope to the next: each statement
    that is no comment is one line of code, and a block has the trees of its body below it, to which
    `fill` may add. -/
inductive BodyShown (table : FunctionTable) (fill : List Stmt → List CodeTree → List CodeTree) :
    Scope → List Stmt → Scope → List CodeTree → Prop where
  | nil {scope : Scope} : BodyShown table fill scope [] scope []
  | comment {scope scope' : Scope} {text : Text} {line : Nat} {rest : List Stmt}
      {trees : List CodeTree} (hrest : BodyShown table fill scope rest scope' trees) :
      BodyShown table fill scope (.comment text line :: rest) scope' trees
  | leaf {scope scope₁ scope' : Scope} {stmt : Stmt} {rest : List Stmt} {code : Text}
      {trees : List CodeTree} (hleaf : stmt.isBlock = false) (hcomment : stmt.comment? = none)
      (hcode : ∀ depth, (stmt.emit table depth scope).result = .ok (scope₁, [⟨depth, code⟩]))
      (hrest : BodyShown table fill scope₁ rest scope' trees) :
      BodyShown table fill scope (stmt :: rest) scope' (.node code [] :: trees)
  | block {scope scope₁ scope' : Scope} {kind : BlockKind} {condition : Expr} {body rest : List Stmt}
      {line : Nat} {code : Text} {inner trees : List CodeTree}
      (hcondition : (condition.emitTruth scope).result = .ok code)
      (hbody : BodyShown table fill scope body scope₁ inner)
      (hrest : BodyShown table fill scope₁ rest scope' trees) :
      BodyShown table fill scope (.block kind condition body line :: rest) scope'
        (.node (kind.word ++ code ++ [':']) (fill body inner) :: trees)

section Shown

variable {table : FunctionTable} {fill : List Stmt → List CodeTree → List CodeTree}
  {scope scope' : Scope} {body : List Stmt} {trees : List CodeTree}

/-- Only a bare body is shown as nothing. -/
theorem BodyShown.eq_nil_iff (h : BodyShown table fill scope body scope' trees) :
    trees = [] ↔ isBare body = true := by
  induction h with
  | nil => simp [isBare]
  | comment _ ih =>
    rw [ih, isBare, isBare, List.all_cons]
    simp [Stmt.comment?]
  | leaf _ hcomment _ _ _ => simp [isBare, hcomment]
  | block _ _ _ _ _ => simp [isBare, Stmt.comment?]

theorem forall_wellFormed_cons {stmt : Stmt} {rest : List Stmt}
    (h : ∀ s ∈ allStmts (stmt :: rest), s.WellFormed) :
    stmt.WellFormed ∧ ∀ s ∈ allStmts rest, s.WellFormed := by
  rw [allStmts, List.forall_mem_append] at h
  exact ⟨h.1 stmt stmt.self_mem_all, h.2⟩

theorem forall_wellFormed_block {kind : BlockKind} {condition : Expr} {rest : List Stmt} {line : Nat}
    (h : ∀ s ∈ allStmts (.block kind condition body line :: rest), s.WellFormed) :
    condition.WellFormed ∧ (∀ s ∈ allStmts body, s.WellFormed) ∧
      ∀ s ∈ allStmts rest, s.WellFormed := by
  rw [allStmts, Stmt.all, List.forall_mem_append, List.forall_mem_cons] at h
  exact ⟨h.1.1.exprs condition (List.mem_singleton_self _), h.1.2, h.2⟩

/-- The code of a statement without a body is none of the code that stands for more. -/
theorem leafCode_of_emit {stmt : Stmt} {scope₁ : Scope} {code : Text} (hleaf : stmt.isBlock = false)
    (hcomment : stmt.comment? = none) (hform : stmt.WellFormed)
    (hcode : ∀ depth, (stmt.emit table depth scope).result = .ok (scope₁, [⟨depth, code⟩])) :
    LeafCode code := by
  obtain ⟨code', hleafCode, hlines, _⟩ := Stmt.exists_code_of_emit hleaf hcomment hform (hcode 0)
  cases hlines
  exact hleafCode

/-- The line that does nothing is nothing of the body. -/
theorem BodyShown.dropPass_passIfBare (h : BodyShown table fill scope body scope' trees) :
    dropPass (passIfBare body trees) = dropPass trees := by
  rw [passIfBare]
  by_cases hbare : isBare body = true
  · rw [if_pos hbare, h.eq_nil_iff.2 hbare]
    simp [dropPass]
  · rw [if_neg hbare]

/-- **Without the lines that do nothing**, the trees show nothing but the statements. -/
theorem BodyShown.dropPass (h : BodyShown table passIfBare scope body scope' trees)
    (hform : ∀ stmt ∈ allStmts body, stmt.WellFormed) :
    BodyShown table (fun _ trees => trees) scope body scope' (dropPass trees) := by
  induction h with
  | nil =>
    rw [LogoLang.dropPass]
    exact .nil
  | comment _ ih => exact .comment (ih (forall_wellFormed_cons hform).2)
  | leaf hleaf hcomment hcode _ ih =>
    obtain ⟨hstmt, hrest⟩ := forall_wellFormed_cons hform
    have hcode' := leafCode_of_emit hleaf hcomment hstmt hcode
    rw [LogoLang.dropPass, if_neg hcode'.ne_pass, LogoLang.dropPass]
    exact .leaf hleaf hcomment hcode (ih hrest)
  | @block _ _ _ kind _ _ _ _ _ _ _ hcondition hbody _ ihBody ih =>
    obtain ⟨hwell, hinner, hrest⟩ := forall_wellFormed_block hform
    have hheader : HeaderCode (kind.word ++ _ ++ [':']) := headerCode_of_emitTruth hwell hcondition
    rw [LogoLang.dropPass, if_neg hheader.ne_pass, hbody.dropPass_passIfBare]
    exact .block hcondition (ihBody hinner) (ih hrest)

theorem BodyShown.passIfBare_ne_nil (h : BodyShown table fill scope body scope' trees) :
    passIfBare body trees ≠ [] := by
  rw [passIfBare]
  by_cases hbare : isBare body = true
  · simp [hbare]
  · rw [if_neg hbare]
    exact mt h.eq_nil_iff.1 hbare

theorem properTrees_passIfBare (body : List Stmt) (h : ProperTrees trees) :
    ProperTrees (passIfBare body trees) := by
  rw [passIfBare]
  split
  · exact .leaf rfl .nil
  · exact h

/-- Headers have bodies, and no other line has one. -/
theorem BodyShown.proper (h : BodyShown table passIfBare scope body scope' trees)
    (hform : ∀ stmt ∈ allStmts body, stmt.WellFormed) : ProperTrees trees := by
  induction h with
  | nil => exact .nil
  | comment _ ih => exact ih (forall_wellFormed_cons hform).2
  | leaf hleaf hcomment hcode _ ih =>
    obtain ⟨hstmt, hrest⟩ := forall_wellFormed_cons hform
    exact .leaf (leafCode_of_emit hleaf hcomment hstmt hcode).not_header (ih hrest)
  | block hcondition hbody _ ihBody ih =>
    obtain ⟨hwell, hinner, hrest⟩ := forall_wellFormed_block hform
    exact .header (headerCode_of_emitTruth hwell hcondition).header
      (properTrees_passIfBare _ (ihBody hinner)) hbody.passIfBare_ne_nil (ih hrest)

end Shown

/-! ## Lines of code that can be read back -/

/-- A line of code on one physical line that does not start with a blank. -/
structure CodeLine.Readable (line : CodeLine) : Prop where
  oneRow : line.code.OneRow
  first : ∃ c rest, line.code = c :: rest ∧ isBlank c = false

theorem LeafCode.readable {code : Text} (h : LeafCode code) (depth : Nat) :
    CodeLine.Readable ⟨depth, code⟩ ∧ CodeLine.isComment ⟨depth, code⟩ = false := by
  obtain ⟨c, rest, rfl, hc⟩ := h.first
  rcases hc with rfl | rfl | rfl <;> exact ⟨⟨h.oneRow, _, _, rfl, by decide⟩, rfl⟩

theorem HeaderCode.readable {code : Text} (h : HeaderCode code) (depth : Nat) :
    CodeLine.Readable ⟨depth, code⟩ ∧ CodeLine.isComment ⟨depth, code⟩ = false := by
  obtain ⟨c, rest, rfl, hc⟩ := h.first
  rcases hc with rfl | rfl <;> exact ⟨⟨h.oneRow, _, _, rfl, by decide⟩, rfl⟩

theorem passLine_readable (depth : Nat) :
    (passLine depth).Readable ∧ (passLine depth).isComment = false :=
  ⟨⟨(by decide : Text.OneRow "pass".toList), 'p', _, rfl, by decide⟩, rfl⟩

theorem readable_commentCode {text : Text} (h : text.OneRow) (depth : Nat) :
    CodeLine.Readable ⟨depth, commentCode text⟩ := by
  by_cases hempty : text.isEmpty = true
  · refine ⟨?_, '#', [], by rw [commentCode, if_pos hempty], by decide⟩
    rw [commentCode, if_pos hempty]
    exact (by decide : Text.OneRow ['#'])
  · refine ⟨?_, '#', ' ' :: text, by rw [commentCode, if_neg hempty], by decide⟩
    rw [commentCode, if_neg hempty]
    have hsign : Text.OneRow ['#', ' '] := by decide
    exact hsign.append h

/-! ## Emission -/

section Emission

variable {table : FunctionTable} {depth : Nat} {lines : List CodeLine}

/-- The lines that are no comments. -/
def codeLines (lines : List CodeLine) : List CodeLine := lines.filter fun line => !line.isComment

theorem codeLines_append (lines more : List CodeLine) :
    codeLines (lines ++ more) = codeLines lines ++ codeLines more :=
  List.filter_append ..

theorem codeLines_singleton {line : CodeLine} (h : line.isComment = false) :
    codeLines [line] = [line] := by
  simp [codeLines, h]

theorem codeLines_eq_nil_iff : codeLines lines = [] ↔ lines.all CodeLine.isComment = true := by
  simp [codeLines, List.filter_eq_nil_iff]

/-- **A body gets a line that does nothing exactly if it is bare**, whatever lines its blocks have. -/
theorem BodyShown.codeLines_closeBody {fill : List Stmt → List CodeTree → List CodeTree}
    {scope scope' : Scope} {body : List Stmt} {trees : List CodeTree}
    (h : BodyShown table fill scope body scope' trees)
    (hlines : codeLines lines = writeTrees depth trees) :
    codeLines (closeBody depth lines) = writeTrees depth (passIfBare body trees) := by
  have hbare : lines.all CodeLine.isComment = true ↔ isBare body = true := by
    rw [← codeLines_eq_nil_iff, hlines, writeTrees_eq_nil_iff, h.eq_nil_iff]
  rw [closeBody, passIfBare]
  by_cases hall : lines.all CodeLine.isComment = true
  · rw [if_pos hall, if_pos (hbare.1 hall), codeLines_append, codeLines_eq_nil_iff.2 hall,
      codeLines_singleton (passLine_readable depth).2]
    simp [writeTrees, passLine]
  · rw [if_neg hall, if_neg (mt hbare.2 hall), hlines]

theorem readable_closeBody (h : ∀ line ∈ lines, line.Readable) :
    ∀ line ∈ closeBody depth lines, line.Readable := by
  rw [closeBody]
  split
  · exact List.forall_mem_append.2 ⟨h, List.forall_mem_singleton.2 (passLine_readable depth).1⟩
  · exact h

/-- **The lines of a body are its statements as trees, written out**, among the comments. Each of them
    can be read back. -/
theorem exists_shown_of_emitBody {body : List Stmt} {scope scope' : Scope} {depth : Nat}
    {lines : List CodeLine} (hform : ∀ stmt ∈ allStmts body, stmt.WellFormed)
    (hcomments : ∀ text ∈ bodyComments body, Text.OneRow text)
    (h : (emitBody table depth scope body).result = .ok (scope', lines)) :
    ∃ trees, BodyShown table passIfBare scope body scope' trees ∧
      codeLines lines = writeTrees depth trees ∧ ∀ line ∈ lines, line.Readable := by
  cases body with
  | nil =>
    cases h
    exact ⟨[], .nil, by simp [codeLines, writeTrees], by simp⟩
  | cons stmt rest =>
    simp only [emitBody, Traced.bind_eq_ok_iff, Prod.exists] at h
    obtain ⟨scope₁, first, hfirst, scope₂, others, hrest, h⟩ := h
    cases h
    cases stmt with
    | block kind condition body line =>
      obtain ⟨hcondition, hinner, hwell⟩ := forall_wellFormed_block hform
      rw [bodyComments_block, List.forall_mem_append] at hcomments
      simp only [Stmt.emit, Traced.bind_eq_ok_iff, Emitting.inLine_eq_ok_iff, Prod.exists] at hfirst
      obtain ⟨code, hcode, scope₂, lines, hbody, h⟩ := hfirst
      cases h
      obtain ⟨inner, hshownInner, hlinesInner, hreadInner⟩ :=
        exists_shown_of_emitBody hinner hcomments.1 hbody
      obtain ⟨trees, hshown, hlines, hread⟩ := exists_shown_of_emitBody hwell hcomments.2 hrest
      have hcode' : HeaderCode (kind.word ++ code ++ [':']) :=
        headerCode_of_emitTruth hcondition hcode
      have hheader := hcode'.readable depth
      refine ⟨_, .block hcode hshownInner hshown, ?_, ?_⟩
      · rw [codeLines_append, ← List.singleton_append, codeLines_append,
          codeLines_singleton hheader.2, hshownInner.codeLines_closeBody hlinesInner, hlines,
          writeTrees, List.append_assoc]
        rfl
      · refine List.forall_mem_append.2 ⟨List.forall_mem_cons.2 ⟨hheader.1, ?_⟩, hread⟩
        exact readable_closeBody hreadInner
    | comment text line =>
      obtain ⟨_, hwell⟩ := forall_wellFormed_cons hform
      rw [bodyComments_leaf rfl, List.forall_mem_append] at hcomments
      have htext : text.OneRow := hcomments.1 text (List.mem_singleton_self _)
      cases hfirst
      obtain ⟨trees, hshown, hlines, hread⟩ := exists_shown_of_emitBody hwell hcomments.2 hrest
      refine ⟨trees, .comment hshown, ?_, ?_⟩
      · rw [codeLines_append, hlines]
        simp [codeLines]
      · exact List.forall_mem_cons.2 ⟨readable_commentCode htext depth, hread⟩
    | assign | pen | command | call =>
      obtain ⟨hstmt, hwell⟩ := forall_wellFormed_cons hform
      rw [bodyComments_leaf rfl, List.forall_mem_append] at hcomments
      obtain ⟨code, hcode, rfl, hall⟩ := Stmt.exists_code_of_emit rfl rfl hstmt hfirst
      obtain ⟨trees, hshown, hlines, hread⟩ := exists_shown_of_emitBody hwell hcomments.2 hrest
      refine ⟨_, .leaf rfl rfl hall hshown, ?_, ?_⟩
      · rw [codeLines_append, codeLines_singleton (hcode.readable depth).2, hlines, writeTrees,
          writeTrees]
        rfl
      · exact List.forall_mem_append.2
          ⟨List.forall_mem_singleton.2 (hcode.readable depth).1, hread⟩

end Emission

end LogoLang
