import LogoLang.Proofs.Emit.Rows
import LogoLang.Proofs.Run.Growth
import LogoLang.Session.Basic

set_option autoImplicit false

/-! # Emissions of sessions

The module of a program is made of the code of its functions (`Session.emit_of_ok`). The modules of two
programs one of which has grown from the other are compared by their physical lines
(`Session.emit_grows`). -/

namespace LogoLang

variable {s : Session}

theorem Session.emit_of_ok {codes : List Text} (h : s.table.emit.result = .ok codes) :
    s.emit.result =
      .ok (moduleText codes s.emit.methods s.options.canvas.1 s.options.canvas.2) := by
  simp only [Session.emit, Emission.methods, h]

theorem Session.emit_of_error {failure : EmitFailure} (h : s.table.emit.result = .error failure) :
    s.emit.result = .error (failure.toFailure s.lines) := by
  simp only [Session.emit, h]

theorem Session.exists_codes_of_emit {module : Text} (h : s.emit.result = .ok module) :
    ∃ codes, s.table.emit.result = .ok codes := by
  cases hcodes : s.table.emit.result with
  | ok codes => exact ⟨codes, rfl⟩
  | error failure =>
    rw [Session.emit_of_error hcodes] at h
    cases h

/-! ## Programs that have grown -/

section Growth

variable {σ : Nat → Nat} {texts : List Text} {table table' : FunctionTable} {lines lines' : List Text}

theorem EmitFailure.toFailure_renumber (hlines : ∀ index, lines'[σ index]? = lines[index]?)
    (failure : EmitFailure) :
    (failure.renumber σ).toFailure lines' = (failure.toFailure lines).renumber σ := by
  obtain ⟨fault, line⟩ := failure
  cases fault with
  | flaw flaw =>
    simp only [EmitFailure.renumber, EmitFailure.toFailure, renumber_flawDiagnostic hlines]
    rfl
  | malformed => rfl

/-- Of whatever physical lines that are no comments, the second text has as many more as there are among
    the further lines of the comments. -/
def TextGains (texts : List Text) (t t' : Text) : Prop :=
  ∀ keep : Text → Bool, (∀ row, isCommentRow row = true → keep row = false) →
    Gains (keptFurther keep texts) (keptRows keep t) (keptRows keep t')

/-- What is kept of a text that gains comments is the same if nothing of their further lines is kept. -/
theorem TextGains.keptRows_eq_iff {keep : Text → Bool} {t t' : Text} (h : TextGains texts t t')
    (hkeep : ∀ row, isCommentRow row = true → keep row = false) :
    keptRows keep t' = keptRows keep t ↔ ∀ row ∈ texts.flatMap furtherRows, keep row = false := by
  rw [(h keep hkeep).eq_iff, keptFurther, List.length_eq_zero_iff, List.filter_eq_nil_iff]
  simp only [Bool.not_eq_true]

/-- **A program that has grown is emitted as before**, or fails as before: the module gains the further
    physical lines of the new comments. -/
theorem Session.emit_grows (hgrow : EntriesGrow σ texts table.entries table'.entries)
    (hdistinct : table.names.Nodup) (hlines : ∀ index, lines'[σ index]? = lines[index]?)
    (options : Options) (name : Setting) :
    Agree (TextGains texts) (fun failure failure' => failure' = failure.renumber σ)
      (Session.emit ⟨options, name, lines, table⟩).result
      (Session.emit ⟨options, name, lines', table'⟩).result := by
  have hgrows : table.Grows σ table' := ⟨⟨texts, _, hgrow, .refl _⟩, hdistinct⟩
  have hagree : Agree (CodesGrow texts) (fun failure failure' => failure' = failure.renumber σ)
    table.emit.result table'.emit.result := hgrow.emit hgrows.arity?
  cases h : table.emit.result with
  | error failure =>
    rw [h] at hagree
    obtain ⟨failure', h', hrenumber⟩ := hagree.exists_error
    rw [Session.emit_of_error h, Session.emit_of_error h', hrenumber]
    exact .error (EmitFailure.toFailure_renumber hlines failure)
  | ok codes =>
    obtain ⟨codes', hemitted, hcodes, hmethods⟩ := hgrow.emit_ok hgrows.arity? h
    have h' : table'.emit.result = .ok codes' := hemitted
    have hsame : (Session.emit ⟨options, name, lines', table'⟩).methods =
      (Session.emit ⟨options, name, lines, table⟩).methods := hmethods
    rw [Session.emit_of_ok h, Session.emit_of_ok h', hsame]
    exact .ok fun keep hkeep => moduleText_gains hkeep hcodes _ _ _

end Growth

end LogoLang
