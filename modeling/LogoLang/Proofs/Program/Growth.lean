import LogoLang.Program.FunctionTable
import LogoLang.Proofs.Syntax.Renumbering

set_option autoImplicit false

/-! # Tables of functions that have grown

The functions of a table can have grown (`BodyGrows`) and stand in another order. Each name then has a
function in both tables or in neither (`FunctionTable.Grows.get?`). -/

namespace LogoLang

variable {σ : Nat → Nat}

theorem Bindings.get?_eq_some_iff {α : Type} {b : Bindings α} (h : (Bindings.names b).Nodup)
    {name : Text} {value : α} : Bindings.get? b name = some value ↔ (name, value) ∈ b := by
  refine ⟨Bindings.mem_of_get?, fun hmem => ?_⟩
  induction b with
  | nil => exact absurd hmem (by simp)
  | cons entry rest ih =>
    obtain ⟨other, value'⟩ := entry
    obtain ⟨hnew, hrest⟩ := List.nodup_cons.1 h
    rcases List.mem_cons.1 hmem with heq | hmem
    · cases heq
      rw [Bindings.get?, if_pos rfl]
    · have hne : other ≠ name := by
        rintro rfl
        exact hnew (List.mem_map.2 ⟨_, hmem, rfl⟩)
      rw [Bindings.get?, if_neg hne]
      exact ih hrest hmem

/-- The second table has the functions of the first one, in any order, with bodies that have grown. -/
structure FunctionTable.Grows (σ : Nat → Nat) (table table' : FunctionTable) : Prop where
  entries : ∃ texts entries, EntriesGrow σ texts table.entries entries ∧ entries.Perm table'.entries
  distinct : table.names.Nodup

section Entries

variable {texts : List Text} {entries entries' : List (Text × Function)}

theorem EntriesGrow.names (h : EntriesGrow σ texts entries entries') :
    entries'.map Prod.fst = entries.map Prod.fst := by
  induction h with
  | nil => rfl
  | cons _ _ _ _ ih => rw [List.map_cons, List.map_cons, ih]

/-- A function of one list stands in the other one, under the same name. -/
theorem EntriesGrow.exists_mem (h : EntriesGrow σ texts entries entries') (name : Text) :
    (∀ f, (name, f) ∈ entries → ∃ g, (name, g) ∈ entries' ∧ FunctionGrown σ f g) ∧
      ∀ g, (name, g) ∈ entries' → ∃ f, (name, f) ∈ entries ∧ FunctionGrown σ f g := by
  induction h with
  | nil => simp
  | @cons _ _ body body' rest rest' name' params hbody _ ih =>
    have hgrown : FunctionGrown σ ⟨params, body⟩ ⟨params, body'⟩ := ⟨rfl, _, hbody⟩
    constructor
    · intro f hf
      rcases List.mem_cons.1 hf with heq | hf
      · cases heq
        exact ⟨_, List.mem_cons_self, hgrown⟩
      · obtain ⟨g, hmem, hgrow⟩ := ih.1 f hf
        exact ⟨g, List.mem_cons_of_mem _ hmem, hgrow⟩
    · intro g hg
      rcases List.mem_cons.1 hg with heq | hg
      · cases heq
        exact ⟨_, List.mem_cons_self, hgrown⟩
      · obtain ⟨f, hmem, hgrow⟩ := ih.2 g hg
        exact ⟨f, List.mem_cons_of_mem _ hmem, hgrow⟩

theorem EntriesGrow.paramNames (h : EntriesGrow σ texts entries entries') :
    entries'.flatMap (fun entry => entry.2.paramNames) =
      entries.flatMap fun entry => entry.2.paramNames := by
  induction h with
  | nil => rfl
  | cons _ _ _ _ ih =>
    rw [List.flatMap_cons, List.flatMap_cons, ih]
    rfl

end Entries

theorem FunctionTable.Grows.distinct' {table table' : FunctionTable} (h : table.Grows σ table') :
    table'.names.Nodup := by
  obtain ⟨texts, entries, hgrow, hperm⟩ := h.entries
  have hnames : table.names = entries.map Prod.fst := hgrow.names.symm
  exact (hperm.map Prod.fst).nodup_iff.1 (hnames ▸ h.distinct)

/-- A name has no function in both tables, or functions one of which has grown from the other. -/
theorem FunctionTable.Grows.get? {table table' : FunctionTable} (h : table.Grows σ table')
    (name : Text) :
    (table.get? name = none ∧ table'.get? name = none) ∨
      ∃ f g, table.get? name = some f ∧ table'.get? name = some g ∧ FunctionGrown σ f g := by
  obtain ⟨texts, entries, hgrow, hperm⟩ := h.entries
  obtain ⟨hthere, hback⟩ := hgrow.exists_mem name
  cases hget : table.get? name with
  | some f =>
    obtain ⟨g, hg, hfg⟩ := hthere f (Bindings.mem_of_get? hget)
    exact Or.inr ⟨f, g, rfl, (Bindings.get?_eq_some_iff h.distinct').2 (hperm.mem_iff.1 hg), hfg⟩
  | none =>
    refine Or.inl ⟨rfl, ?_⟩
    by_contra hsome
    obtain ⟨g, hg⟩ := Option.ne_none_iff_exists'.1 hsome
    obtain ⟨f, hf, _⟩ := hback g (hperm.mem_iff.2 (Bindings.mem_of_get? hg))
    have hget' : table.get? name = some f := (Bindings.get?_eq_some_iff h.distinct).2 hf
    rw [hget'] at hget
    exact absurd hget (by simp)

/-- Functions take as many arguments as before. -/
theorem FunctionTable.Grows.arity? {table table' : FunctionTable} (h : table.Grows σ table')
    (name : Text) : table'.arity? name = table.arity? name := by
  rw [FunctionTable.arity?, FunctionTable.arity?]
  obtain ⟨hnone, hnone'⟩ | ⟨f, g, hf, hg, hgrow⟩ := h.get? name
  · rw [hnone, hnone']
  · rw [hf, hg, Option.map_some, Option.map_some, hgrow.params]

theorem FunctionGrown.paramNames {f g : Function} (h : FunctionGrown σ f g) :
    g.paramNames = f.paramNames := by
  rw [Function.paramNames, h.params]
  rfl

/-- The same names are declared as parameters. -/
theorem FunctionTable.Grows.mem_allParams {table table' : FunctionTable}
    (h : table.Grows σ table') (name : Text) :
    name ∈ table'.allParams ↔ name ∈ table.allParams := by
  obtain ⟨texts, entries, hgrow, hperm⟩ := h.entries
  have hsame : table.allParams = entries.flatMap fun entry => entry.2.paramNames :=
    hgrow.paramNames.symm
  rw [hsame]
  exact (hperm.flatMap_right _).mem_iff.symm

end LogoLang
