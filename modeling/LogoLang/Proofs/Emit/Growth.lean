import LogoLang.Proofs.Emit.Functions
import LogoLang.Proofs.Program.Growth

set_option autoImplicit false

/-! # Emitting programs that have grown

A body that has other line numbers and comments more is emitted as before, with a line of code more for
each of these comments (`BodyGrows.emit`). An emission that fails does so for the same reason, under
the new number of the line. The code of the functions of a table grows by the same comments
(`EntriesGrow.emit`). -/

namespace LogoLang

variable {σ : Nat → Nat}

/-- A failure with the number of its line changed. -/
def EmitFailure.renumber (σ : Nat → Nat) (f : EmitFailure) : EmitFailure := ⟨f.fault, σ f.line⟩

/-! ## Lines of code -/

/-- The second list has the lines of the first one and, among them, the comments of the given texts in
    their order. -/
inductive CodeGrows : List Text → List CodeLine → List CodeLine → Prop where
  | nil : CodeGrows [] [] []
  | line {texts : List Text} {rest rest' : List CodeLine} (line : CodeLine)
      (hrest : CodeGrows texts rest rest') : CodeGrows texts (line :: rest) (line :: rest')
  | comment {texts : List Text} {rest rest' : List CodeLine} (depth : Nat) (text : Text)
      (hrest : CodeGrows texts rest rest') :
      CodeGrows (text :: texts) rest (⟨depth, commentCode text⟩ :: rest')

theorem CodeGrows.refl (lines : List CodeLine) : CodeGrows [] lines lines := by
  induction lines with
  | nil => exact .nil
  | cons line rest ih => exact .line line ih

theorem CodeGrows.append {texts texts' : List Text} {lines lines' more more' : List CodeLine}
    (h : CodeGrows texts lines lines') (hmore : CodeGrows texts' more more') :
    CodeGrows (texts ++ texts') (lines ++ more) (lines' ++ more') := by
  induction h with
  | nil => exact hmore
  | line line _ ih => exact .line line ih
  | comment depth text _ ih => exact .comment depth text ih

theorem CodeGrows.eq_of_nil {lines lines' : List CodeLine} (h : CodeGrows [] lines lines') :
    lines' = lines := by
  generalize htexts : ([] : List Text) = texts at h
  induction h with
  | nil => rfl
  | line line _ ih => rw [ih htexts]
  | comment depth text _ _ => exact absurd htexts (by simp)

theorem CodeGrows.all_isComment {texts : List Text} {lines lines' : List CodeLine}
    (h : CodeGrows texts lines lines') :
    lines'.all CodeLine.isComment = lines.all CodeLine.isComment := by
  induction h with
  | nil => rfl
  | line line _ ih => rw [List.all_cons, List.all_cons, ih]
  | comment depth text _ ih =>
    rw [List.all_cons, CodeLine.isComment_commentCode, Bool.true_and, ih]

/-- Comments do not make up for statements that a body does not have. -/
theorem CodeGrows.closeBody {texts : List Text} {lines lines' : List CodeLine}
    (h : CodeGrows texts lines lines') (depth : Nat) :
    CodeGrows texts (closeBody depth lines) (closeBody depth lines') := by
  rw [LogoLang.closeBody, LogoLang.closeBody, h.all_isComment]
  by_cases hall : lines.all CodeLine.isComment = true
  · rw [if_pos hall, if_pos hall]
    have hpass := h.append (CodeGrows.refl [passLine depth])
    rwa [List.append_nil] at hpass
  · rw [if_neg hall, if_neg hall]
    exact h

/-! ## Statements -/

section Statements

variable {table table' : FunctionTable}

/-- Emissions that agree up to the numbers of lines. -/
abbrev EmittingAt.Agrees {α β : Type} (σ : Nat → Nat) (value : α → β → Prop) (m : EmittingAt α)
    (m' : EmittingAt β) : Prop :=
  Traced.Agrees value (fun failure failure' => failure' = failure.renumber σ) m m'

theorem Emitting.inLine_agrees {α : Type} (m : Emitting α) (line : Nat) :
    EmittingAt.Agrees σ Eq (m.inLine line) (m.inLine (σ line)) := by
  refine ⟨rfl, ?_⟩
  simp only [Emitting.inLine]
  cases m.result with
  | ok a => exact .ok rfl
  | error fault => exact .error rfl

theorem emitFunctionCall_congr (harity : ∀ name, table'.arity? name = table.arity? name)
    (scope : Scope) (label : Label) (args : List Expr) :
    emitFunctionCall table' scope label args = emitFunctionCall table scope label args := by
  simp only [emitFunctionCall, harity]

/-- A statement without a body is emitted as the same line. -/
theorem Stmt.emit_renumber {stmt : Stmt} (hleaf : stmt.isBlock = false)
    (harity : ∀ name, table'.arity? name = table.arity? name) (depth : Nat) (scope : Scope) :
    EmittingAt.Agrees σ Eq (stmt.emit table depth scope)
      ((stmt.renumber σ).emit table' depth scope) := by
  cases stmt with
  | block kind condition body line => exact absurd hleaf (by simp [Stmt.isBlock])
  | assign kind target value line =>
    refine (Emitting.inLine_agrees _ line).bind ?_
    rintro result _ rfl
    exact .pure rfl
  | pen down line =>
    refine (Emitting.inLine_agrees _ line).bind ?_
    rintro code _ rfl
    exact .pure rfl
  | command cmd value line =>
    refine (Emitting.inLine_agrees _ line).bind ?_
    rintro code _ rfl
    refine (Emitting.inLine_agrees _ line).bind ?_
    rintro call _ rfl
    exact .pure rfl
  | call label args line =>
    rw [Stmt.renumber, Stmt.emit, Stmt.emit, emitFunctionCall_congr harity]
    refine (Emitting.inLine_agrees _ line).bind ?_
    rintro code _ rfl
    exact .pure rfl
  | comment text line => exact .pure rfl

/-- **A body that has grown is emitted as before**, with the comments that it has more. -/
theorem BodyGrows.emit {texts : List Text} {body body' : List Stmt} (h : BodyGrows σ texts body body')
    (harity : ∀ name, table'.arity? name = table.arity? name) (depth : Nat) (scope : Scope) :
    EmittingAt.Agrees σ (fun r r' => r'.1 = r.1 ∧ CodeGrows texts r.2 r'.2)
      (emitBody table depth scope body) (emitBody table' depth scope body') := by
  induction h generalizing depth scope with
  | nil => exact .pure ⟨rfl, .nil⟩
  | leaf hleaf _ ih =>
    rw [emitBody, emitBody]
    refine (Stmt.emit_renumber hleaf harity depth scope).bind ?_
    rintro ⟨scope₁, first⟩ _ rfl
    refine (ih depth scope₁).bind ?_
    rintro ⟨scope₂, others⟩ ⟨_, others'⟩ ⟨rfl, hothers⟩
    exact .pure ⟨rfl, (CodeGrows.refl first).append hothers⟩
  | @block inner texts kind condition body body' rest rest' line _ _ ihBody ih =>
    rw [emitBody, emitBody, Stmt.emit, Stmt.emit]
    have hblock : EmittingAt.Agrees σ (fun r r' => r'.1 = r.1 ∧ CodeGrows inner r.2 r'.2)
        ((Stmt.block kind condition body line).emit table depth scope)
        ((Stmt.block kind condition body' (σ line)).emit table' depth scope) := by
      refine (Emitting.inLine_agrees _ line).bind ?_
      rintro code _ rfl
      refine (ihBody (depth + 1) scope).bind ?_
      rintro ⟨scope₁, lines⟩ ⟨_, lines'⟩ ⟨rfl, hlines⟩
      exact .pure ⟨rfl, .line _ (hlines.closeBody (depth + 1))⟩
    refine hblock.bind ?_
    rintro ⟨_, first⟩ ⟨scope₁, first'⟩ ⟨rfl, hfirst⟩
    refine (ih depth scope₁).bind ?_
    rintro ⟨scope₂, others⟩ ⟨_, others'⟩ ⟨rfl, hothers⟩
    exact .pure ⟨rfl, hfirst.append hothers⟩
  | @comment texts text line rest rest' _ ih =>
    rw [← bind_pure (emitBody table depth scope rest), emitBody, Stmt.emit]
    refine (ih depth scope).bind ?_
    rintro ⟨scope₁, others⟩ ⟨_, others'⟩ ⟨rfl, hothers⟩
    exact .pure ⟨rfl, .comment depth text hothers⟩

end Statements

/-! ## Functions -/

/-- The second list has the code of the same functions, with the comments of the given texts among the
    lines of the bodies. -/
inductive CodesGrow : List Text → List Text → List Text → Prop where
  | nil : CodesGrow [] [] []
  | cons {inner texts : List Text} {lines lines' : List CodeLine} {rest rest' : List Text}
      (name : Text) (f : Function) (hlines : CodeGrows inner lines lines')
      (hrest : CodesGrow texts rest rest') :
      CodesGrow (inner ++ texts) (functionText name f lines :: rest)
        (functionText name f lines' :: rest')

theorem CodesGrow.eq_of_nil {codes codes' : List Text} (h : CodesGrow [] codes codes') :
    codes' = codes := by
  generalize htexts : ([] : List Text) = texts at h
  induction h with
  | nil => rfl
  | cons name f hlines _ ih =>
    obtain ⟨rfl, hrest⟩ := List.append_eq_nil_iff.1 htexts.symm
    rw [hlines.eq_of_nil, ih hrest.symm]

section Functions

variable {table table' : FunctionTable} {texts : List Text}

theorem BodyGrows.emitLines {body body' : List Stmt} (h : BodyGrows σ texts body body')
    (harity : ∀ name, table'.arity? name = table.arity? name) (params : List Label) :
    EmittingAt.Agrees σ (CodeGrows texts) (Function.emitLines ⟨params, body⟩ table)
      (Function.emitLines ⟨params, body'⟩ table') := by
  refine (h.emit harity 1 _).bind ?_
  rintro ⟨scope, lines⟩ ⟨_, lines'⟩ ⟨rfl, hlines⟩
  exact .pure (hlines.closeBody 1)

variable {entries entries' : List (Text × Function)}

/-- **Functions that have grown are emitted as before**, with the comments that they have more. -/
theorem EntriesGrow.emit (h : EntriesGrow σ texts entries entries')
    (harity : ∀ name, table'.arity? name = table.arity? name) :
    Agree (CodesGrow texts) (fun failure failure' => failure' = failure.renumber σ)
      (emitFunctions table entries).result (emitFunctions table' entries').result := by
  induction h with
  | nil => exact .ok .nil
  | @cons inner texts body body' rest rest' name params hbody _ ih =>
    have hcode : Agree (fun code code' => ∃ lines lines', CodeGrows inner lines lines' ∧
          code = functionText name ⟨params, body⟩ lines ∧
          code' = functionText name ⟨params, body⟩ lines')
        (fun failure failure' => failure' = failure.renumber σ)
        (Function.emit ⟨params, body⟩ table name).result
        (Function.emit ⟨params, body'⟩ table' name).result := by
      rw [Function.result_emit, Function.result_emit]
      have hlines := (hbody.emitLines harity params).result
      generalize (Function.emitLines ⟨params, body⟩ table).result = result at hlines
      generalize (Function.emitLines ⟨params, body'⟩ table').result = result' at hlines
      cases hlines with
      | ok h => exact .ok ⟨_, _, h, rfl, rfl⟩
      | error h => exact .error h
    simp only [emitFunctions, Traced.result_bind]
    refine hcode.bind ?_
    rintro _ _ ⟨lines, lines', hlines, rfl, rfl⟩
    refine ih.bind ?_
    intro codes codes' hcodes
    exact .ok (.cons name ⟨params, body⟩ hlines hcodes)

/-- The same methods are used. -/
theorem EntriesGrow.entriesUse (h : EntriesGrow σ texts entries entries')
    (harity : ∀ name, table'.arity? name = table.arity? name) (method : Method) :
    EntriesUse table' entries' method ↔ EntriesUse table entries method := by
  induction h with
  | nil => simp [EntriesUse]
  | cons _ params hbody _ ih =>
    simp only [EntriesUse, List.exists_mem_cons_iff] at ih ⊢
    rw [(hbody.emitLines harity params).trace, ih]

/-- The code of the functions of a table that has grown, in the order of the first table. -/
theorem EntriesGrow.emit_ok (h : EntriesGrow σ texts entries entries')
    (harity : ∀ name, table'.arity? name = table.arity? name) {codes : List Text}
    (hcodes : (emitFunctions table entries).result = .ok codes) :
    ∃ codes', (emitFunctions table' entries').result = .ok codes' ∧ CodesGrow texts codes codes' ∧
      usedMethods (emitFunctions table' entries').trace =
        usedMethods (emitFunctions table entries).trace := by
  have hagree := h.emit harity
  rw [hcodes] at hagree
  obtain ⟨codes', hcodes', hgrow⟩ := hagree.exists_ok
  refine ⟨codes', hcodes', hgrow, usedMethods_congr fun method => ?_⟩
  rw [mem_trace_emitFunctions hcodes, mem_trace_emitFunctions hcodes']
  exact h.entriesUse harity method

end Functions

end LogoLang
