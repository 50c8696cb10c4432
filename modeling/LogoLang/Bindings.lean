import LogoLang.Text.Basic

set_option autoImplicit false

/-! # Bindings

Values by name, in the order in which the names were first bound. -/

namespace LogoLang

/-- Pairs of a name and a value, with no name twice. -/
abbrev Bindings (α : Type) := List (Text × α)

variable {α : Type}

/-- The names that are bound, in order. -/
def Bindings.names (b : Bindings α) : List Text := b.map Prod.fst

/-- The value of a name. -/
def Bindings.get? : Bindings α → Text → Option α
  | [], _ => none
  | (name', value) :: rest, name => if name' = name then some value else Bindings.get? rest name

/-- Whether a name is bound. -/
def Bindings.contains (b : Bindings α) (name : Text) : Bool := (Bindings.get? b name).isSome

/-- Binds a name to a value. A bound name keeps its place, a new one comes last. -/
def Bindings.set : Bindings α → Text → α → Bindings α
  | [], name, value => [(name, value)]
  | (name', value') :: rest, name, value =>
    if name' = name then (name', value) :: rest
    else (name', value') :: Bindings.set rest name value

/-- Removes a name. -/
def Bindings.remove (b : Bindings α) (name : Text) : Bindings α := b.filter (·.1 ≠ name)

/-- Binds names one after the other. -/
def Bindings.setAll (b : Bindings α) (pairs : List (Text × α)) : Bindings α :=
  pairs.foldl (fun b (name, value) => Bindings.set b name value) b

/-- Bindings from pairs that may name the same name more than once; the last one counts. -/
def Bindings.ofPairs (pairs : List (Text × α)) : Bindings α := Bindings.setAll [] pairs

@[simp]
theorem Bindings.get?_set_self (b : Bindings α) (name : Text) (value : α) :
    Bindings.get? (Bindings.set b name value) name = some value := by
  induction b with
  | nil => simp [Bindings.set, Bindings.get?]
  | cons entry rest ih =>
    by_cases h : entry.1 = name
    · simp [Bindings.set, Bindings.get?, h]
    · simp [Bindings.set, Bindings.get?, h, ih]

theorem Bindings.get?_set_of_ne (b : Bindings α) {name name' : Text} (value : α)
    (hne : name ≠ name') : Bindings.get? (Bindings.set b name value) name' = Bindings.get? b name' := by
  induction b with
  | nil => simp [Bindings.set, Bindings.get?, hne]
  | cons entry rest ih =>
    by_cases h : entry.1 = name
    · simp [Bindings.set, Bindings.get?, h, hne]
    · by_cases h' : entry.1 = name'
      · simp [Bindings.set, Bindings.get?, h']
        split <;> simp_all [Bindings.get?]
      · simp [Bindings.set, Bindings.get?, h, h', ih]

theorem Bindings.mem_of_get? {b : Bindings α} {name : Text} {value : α}
    (h : Bindings.get? b name = some value) : (name, value) ∈ b := by
  induction b with
  | nil => simp [Bindings.get?] at h
  | cons entry rest ih =>
    obtain ⟨name', value'⟩ := entry
    rw [Bindings.get?] at h
    split at h
    · next heq =>
      cases h
      rw [heq]
      exact List.mem_cons_self
    · exact List.mem_cons_of_mem _ (ih h)

/-! ## Many names at once -/

theorem Bindings.setAll_cons (b : Bindings α) (name : Text) (value : α)
    (pairs : List (Text × α)) :
    Bindings.setAll b ((name, value) :: pairs) =
      Bindings.setAll (Bindings.set b name value) pairs := rfl

/-- A name keeps its value or gets one of the new ones. -/
theorem Bindings.mem_of_get?_setAll {b : Bindings α} {pairs : List (Text × α)} {name : Text}
    {value : α} (h : Bindings.get? (Bindings.setAll b pairs) name = some value) :
    (name, value) ∈ pairs ∨ Bindings.get? b name = some value := by
  induction pairs generalizing b with
  | nil => exact Or.inr h
  | cons pair rest ih =>
    obtain ⟨name', value'⟩ := pair
    rw [Bindings.setAll_cons] at h
    rcases ih h with hmem | hget
    · exact Or.inl (List.mem_cons_of_mem _ hmem)
    · by_cases hname : name' = name
      · subst hname
        rw [Bindings.get?_set_self, Option.some.injEq] at hget
        subst hget
        exact Or.inl List.mem_cons_self
      · rw [Bindings.get?_set_of_ne b value' hname] at hget
        exact Or.inr hget

/-- A name that is bound, or that gets a value, is bound afterwards. -/
theorem Bindings.exists_get?_setAll {b : Bindings α} {pairs : List (Text × α)} {name : Text}
    (h : name ∈ pairs.map Prod.fst ∨ ∃ value, Bindings.get? b name = some value) :
    ∃ value, Bindings.get? (Bindings.setAll b pairs) name = some value := by
  induction pairs generalizing b with
  | nil => simpa [Bindings.setAll] using h
  | cons pair rest ih =>
    obtain ⟨name', value'⟩ := pair
    rw [Bindings.setAll_cons]
    apply ih
    by_cases hname : name' = name
    · subst hname
      exact Or.inr ⟨value', Bindings.get?_set_self b name' value'⟩
    · rw [Bindings.get?_set_of_ne b value' hname]
      rw [List.map_cons, List.mem_cons] at h
      rcases h with (heq | hmem) | hget
      · exact absurd heq.symm hname
      · exact Or.inl hmem
      · exact Or.inr hget

end LogoLang
