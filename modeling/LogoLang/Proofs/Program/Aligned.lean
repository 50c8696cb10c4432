import LogoLang.Proofs.Program.LockStep
import LogoLang.Proofs.Syntax.Spans
import Mathlib.Data.List.Nodup

set_option autoImplicit false

/-! # What assembly keeps on balanced lines

`Aligned` relates the states of the two phases after lines that both take in: what is open in the
balance check is open in assembly, and what is open has a list of statements to go to and a name to
go by. -/

namespace LogoLang

/-! ## Names in the table -/

theorem FunctionTable.contains_append {table : FunctionTable} {name other : Text} {f : Function} :
    FunctionTable.contains ⟨table.entries ++ [(name, f)]⟩ other =
      (table.contains other || decide (name = other)) := by
  obtain ⟨entries⟩ := table
  simp only [FunctionTable.contains, FunctionTable.get?]
  induction entries with
  | nil => by_cases h : name = other <;> simp [Bindings.get?, h]
  | cons entry rest ih =>
    by_cases h : entry.1 = other
    · simp [Bindings.get?, h]
    · simp only [List.cons_append, Bindings.get?, if_neg h]
      exact ih

theorem FunctionTable.contains_eq_false_iff {table : FunctionTable} {name : Text} :
    table.contains name = false ↔ name ∉ table.names := by
  obtain ⟨entries⟩ := table
  simp only [FunctionTable.contains, FunctionTable.get?, FunctionTable.names, Bindings.names]
  induction entries with
  | nil => simp [Bindings.get?]
  | cons entry rest ih =>
    by_cases h : entry.1 = name
    · simp [Bindings.get?, h]
    · rw [Bindings.get?, if_neg h, ih, List.map_cons, List.mem_cons, not_or]
      exact ⟨fun hrest => ⟨Ne.symm h, hrest⟩, And.right⟩

/-- A new name comes last. -/
theorem FunctionTable.names_append (table : FunctionTable) (name : Text) (f : Function) :
    FunctionTable.names ⟨table.entries ++ [(name, f)]⟩ = table.names ++ [name] := by
  simp [FunctionTable.names, Bindings.names]

theorem FunctionTable.nodup_append {table : FunctionTable} {name : Text} (f : Function)
    (hdistinct : table.names.Nodup) (hnew : table.contains name = false) :
    (FunctionTable.names ⟨table.entries ++ [(name, f)]⟩).Nodup := by
  rw [FunctionTable.contains_eq_false_iff] at hnew
  rw [FunctionTable.names_append, List.nodup_append_comm]
  exact List.nodup_cons.2 ⟨hnew, hdistinct⟩

/-- The function that a heading names has a valid name. -/
theorem isValidName_of_readDecl? {line name : Text} {span : Span} {params : List Label} {c : Cursor}
    (h : readDecl? line = some (⟨.named name span, params⟩, c)) : isValidName name = true :=
  ((readFrom_of_readDecl? h).placed _ List.mem_cons_self).name name span rfl

/-! ## The invariant -/

/-- What assembly keeps on lines that pass the balance check: the same declaration is open in both
    phases, assembly has at least the open blocks of the check, one list of statements for the top
    level and for each thing open, no name twice, and room in the table for the declaration and for
    the top level. -/
structure Aligned (a : Balance) (s : Assembly) : Prop where
  decl : a.decl.isSome = s.decl.isSome
  blocks : a.blocks.length ≤ s.pending.length
  scopes : s.scopes.length = s.pending.length + 1 + s.decl.toList.length
  distinct : s.table.names.Nodup
  top : s.table.contains mainName = false
  named : ∀ decl ∈ s.decl, ∃ name span, decl.name = .named name span ∧ name ≠ mainName ∧
    s.table.contains name = false

theorem aligned_start : Aligned Balance.start Assembly.start :=
  ⟨rfl, Nat.le_refl _, rfl, List.nodup_nil, rfl, by simp [Assembly.start]⟩

/-- There is a body to add statements to. -/
theorem Aligned.exists_body {a : Balance} {s : Assembly} (h : Aligned a s) :
    ∃ body outer, s.scopes = body :: outer := by
  cases hscopes : s.scopes with
  | nil =>
    have hlength := h.scopes
    rw [hscopes, List.length_nil] at hlength
    omega
  | cons body outer => exact ⟨body, outer, rfl⟩

theorem Aligned.lockStep {index : Nat} {line : Text} {a a' : Balance} {s s' : Assembly}
    (h : Aligned a s) (hstep : LockStep index line a s a' s') : Aligned a' s' := by
  cases hstep with
  | blank _ => exact h
  | leaf _ _ _ _ => exact ⟨h.decl, h.blocks, h.scopes, h.distinct, h.top, h.named⟩
  | opener _ _ _ =>
    refine ⟨h.decl, ?_, ?_, h.distinct, h.top, h.named⟩
    · have hblocks := h.blocks
      simp only [List.length_cons] at hblocks ⊢
      omega
    · have hscopes := h.scopes
      simp only [List.length_cons] at hscopes ⊢
      omega
  | close _ _ =>
    refine ⟨h.decl, ?_, ?_, h.distinct, h.top, h.named⟩
    · have hblocks := h.blocks
      simp only [List.length_cons] at hblocks ⊢
      omega
    · have hscopes := h.scopes
      simp only [List.length_cons] at hscopes ⊢
      omega
  | @heading _ _ _ _ _ _ _ decl _ _ hread hnew =>
    -- no declaration is open in the check, hence none in assembly
    have hclosed : decl.isSome = false := h.decl.symm
    rw [Option.isSome_eq_false_iff, Option.isNone_iff_eq_none] at hclosed
    refine ⟨rfl, Nat.zero_le _, ?_, h.distinct, h.top, ?_⟩
    · have hscopes := h.scopes
      simp only [hclosed, Option.toList_none, List.length_nil] at hscopes
      simp only [List.length_cons, Option.toList_some, List.length_nil]
      omega
    · intro decl hdecl
      cases hdecl
      refine ⟨_, _, rfl, ?_, hnew⟩
      rintro rfl
      exact absurd (isValidName_of_readDecl? hread) (by decide)
  | ending _ hnew =>
    obtain ⟨name, span, hname, hmain, _⟩ := h.named _ rfl
    cases hname
    refine ⟨rfl, Nat.zero_le _, ?_, FunctionTable.nodup_append _ h.distinct hnew, ?_, by simp⟩
    · have hscopes := h.scopes
      simp only [List.length_cons, Option.toList_some, List.length_nil] at hscopes
      simp only [Option.toList_none, List.length_nil]
      omega
    · rw [FunctionTable.contains_append, h.top]
      simpa using hmain

theorem Aligned.moves {index : Nat} {line : Text} {a a' : Balance} {s s' : Assembly}
    (h : Aligned a s) (ha : Balance.Moves index line a a') (hs : Assembly.Moves index line s s') :
    Aligned a' s' := by
  cases hhidden : isHiddenHeader line with
  | false => exact h.lockStep (lockStep_of_moves hhidden ha hs)
  | true =>
    obtain ⟨rfl, header, rfl⟩ := moves_of_isHiddenHeader hhidden ha hs
    refine ⟨h.decl, ?_, ?_, h.distinct, h.top, h.named⟩
    · have hblocks := h.blocks
      simp only [List.length_cons]
      omega
    · have hscopes := h.scopes
      simp only [List.length_cons]
      omega

theorem Aligned.runs {lines : List Text} {index : Nat} {a a' : Balance} {s s' : Assembly}
    (h : Aligned a s) (ha : a.run index lines = .ok a') (hs : s.run index lines = (s', none)) :
    Aligned a' s' := by
  induction lines generalizing index a s with
  | nil =>
    cases ha
    cases hs
    exact h
  | cons line rest ih =>
    obtain ⟨a₁, hmoveA, hrunA⟩ := Balance.run_cons_eq_ok_iff.1 ha
    obtain ⟨s₁, hmoveS, hrunS⟩ := Assembly.run_cons_eq_none_iff.1 hs
    exact ih (h.moves hmoveA hmoveS) hrunA hrunS

end LogoLang
