import LogoLang.Emit.Module
import LogoLang.Proofs.Results
import Mathlib.Data.List.Perm.Basic

set_option autoImplicit false

/-! # Functions one by one

Functions are emitted independently of each other: all of them can be emitted if each of them can
(`emitFunctions_eq_ok_iff`), and the methods in use are those that one of them uses
(`mem_trace_emitFunctions`). So another order of the functions changes the order of their code only
(`emitFunctions_perm`). -/

namespace LogoLang

variable {table : FunctionTable} {entries entries' : List (Text × Function)} {codes : List Text}

@[simp]
theorem CodeLine.isComment_commentCode (depth : Nat) (text : Text) :
    CodeLine.isComment ⟨depth, commentCode text⟩ = true := by
  by_cases h : text.isEmpty = true
  · simp [CodeLine.isComment, commentCode, h]
  · simp [CodeLine.isComment, commentCode, h]

/-- The code of a function whose body is emitted as the given lines. -/
def functionText (name : Text) (f : Function) (lines : List CodeLine) : Text :=
  signature name f ++ lines.flatMap CodeLine.toText

/-- Emitting a function is emitting its body. -/
theorem Function.result_emit (f : Function) (table : FunctionTable) (name : Text) :
    (f.emit table name).result = (f.emitLines table).result.map (functionText name f) := by
  rw [Function.emit, Traced.result_bind]
  cases (f.emitLines table).result <;> rfl

theorem Function.emit_eq_ok_iff {f : Function} {name code : Text} :
    (f.emit table name).result = .ok code ↔
      ∃ lines, (f.emitLines table).result = .ok lines ∧ code = functionText name f lines := by
  rw [Function.result_emit]
  cases (f.emitLines table).result <;> simp [Except.map, eq_comm]

/-- The function of an entry is emitted as the given code. -/
def EntryEmitted (table : FunctionTable) (entry : Text × Function) (code : Text) : Prop :=
  ∃ lines, (entry.2.emitLines table).result = .ok lines ∧ code = functionText entry.1 entry.2 lines

/-- Functions can be emitted if each of them can. -/
theorem emitFunctions_eq_ok_iff :
    (emitFunctions table entries).result = .ok codes ↔
      List.Forall₂ (EntryEmitted table) entries codes := by
  induction entries generalizing codes with
  | nil => simp [emitFunctions, eq_comm]
  | cons entry rest ih =>
    obtain ⟨name, f⟩ := entry
    simp only [emitFunctions, Traced.bind_eq_ok_iff, Function.emit_eq_ok_iff, ih,
      List.forall₂_cons_left_iff, EntryEmitted]
    constructor
    · rintro ⟨code, hcode, codes, hcodes, h⟩
      cases h
      exact ⟨code, codes, hcode, hcodes, rfl⟩
    · rintro ⟨code, codes, hcode, hcodes, rfl⟩
      exact ⟨code, hcode, codes, hcodes, rfl⟩

/-- Emitting one of the functions uses the method. -/
def EntriesUse (table : FunctionTable) (entries : List (Text × Function)) (method : Method) : Prop :=
  ∃ entry ∈ entries, EmitNote.uses method ∈ (entry.2.emitLines table).trace

theorem Function.mem_trace_emit {f : Function} {name code : Text} {method : Method}
    (h : (f.emit table name).result = .ok code) :
    EmitNote.uses method ∈ (f.emit table name).trace ↔
      EmitNote.uses method ∈ (f.emitLines table).trace := by
  obtain ⟨lines, hlines, _⟩ := Function.emit_eq_ok_iff.1 h
  rw [Function.emit, Traced.trace_bind_ok hlines, Traced.trace_bind_ok rfl]
  simp [Traced.log]

theorem mem_trace_emitFunctions {method : Method}
    (h : (emitFunctions table entries).result = .ok codes) :
    EmitNote.uses method ∈ (emitFunctions table entries).trace ↔
      EntriesUse table entries method := by
  induction entries generalizing codes with
  | nil => simp [emitFunctions, EntriesUse]
  | cons entry rest ih =>
    obtain ⟨name, f⟩ := entry
    simp only [emitFunctions, Traced.bind_eq_ok_iff] at h
    obtain ⟨code, hcode, codes', hrest, _⟩ := h
    rw [emitFunctions, Traced.trace_bind_ok hcode, Traced.trace_bind_ok hrest, Traced.trace_pure,
      List.append_nil, List.mem_append, Function.mem_trace_emit hcode, ih hrest]
    simp [EntriesUse]

/-- The same methods are used when the same methods are noted. -/
theorem usedMethods_congr {notes notes' : List EmitNote}
    (h : ∀ method, EmitNote.uses method ∈ notes' ↔ EmitNote.uses method ∈ notes) :
    usedMethods notes' = usedMethods notes := by
  rw [usedMethods, usedMethods]
  refine List.filter_congr fun method _ => ?_
  rw [Bool.eq_iff_iff, List.contains_iff_mem, List.contains_iff_mem]
  exact h method

/-- **The order of the functions is the order of their code**, and of nothing else. -/
theorem emitFunctions_perm (hperm : entries.Perm entries')
    (h : (emitFunctions table entries).result = .ok codes) :
    ∃ codes', (emitFunctions table entries').result = .ok codes' ∧ codes.Perm codes' ∧
      usedMethods (emitFunctions table entries').trace =
        usedMethods (emitFunctions table entries).trace := by
  obtain ⟨codes', hemitted, hcodes⟩ :=
    List.perm_comp_forall₂ hperm.symm (emitFunctions_eq_ok_iff.1 h)
  have h' := emitFunctions_eq_ok_iff.2 hemitted
  refine ⟨codes', h', hcodes.symm, usedMethods_congr fun method => ?_⟩
  rw [mem_trace_emitFunctions h, mem_trace_emitFunctions h', EntriesUse, EntriesUse]
  simp only [hperm.mem_iff]

end LogoLang
