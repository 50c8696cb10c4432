import LogoLang.Proofs.Results
import LogoLang.Tool.Folder

set_option autoImplicit false

/-! # Writing a file

A file that is written can be read again, and nothing else in the folders is touched
(`Folder.Writes`): the folders on the way to it have been there before, so that no folder comes into
being either. -/

namespace LogoLang

/-! ## Places -/

/-- Whether a place is within the folder at another one and is not that folder. -/
def Place.IsBelow (p folder : Place) : Prop := p.isWithin folder = true ∧ p ≠ folder

theorem Place.isWithin_iff {p folder : Place} :
    p.isWithin folder = true ↔ p.base = folder.base ∧ folder.names <+: p.names := by
  simp only [Place.isWithin, Bool.and_eq_true, decide_eq_true_eq, List.isPrefixOf_iff_prefix]

theorem Place.not_isBelow_base (base : Base) (folder : Place) : ¬ Place.IsBelow ⟨base, []⟩ folder := by
  rintro ⟨hwithin, hne⟩
  obtain ⟨hbase, hnames⟩ := Place.isWithin_iff.1 hwithin
  refine hne ?_
  obtain ⟨base', names⟩ := folder
  cases hbase
  cases List.prefix_nil.1 hnames
  rfl

/-- What is around a place is around its parent, or it is the parent. -/
theorem Place.IsBelow.of_parent {p folder : Place} (h : p.parent.IsBelow folder) :
    p.IsBelow folder := by
  obtain ⟨base, names⟩ := p
  cases hnames : names with
  | nil =>
    subst hnames
    exact absurd h (Place.not_isBelow_base base.parent folder)
  | cons name rest =>
    subst hnames
    obtain ⟨hwithin, hne⟩ := h
    obtain ⟨hbase, hprefix⟩ := Place.isWithin_iff.1 hwithin
    have hlength := hprefix.length_le
    simp only [Place.parent, List.isEmpty_cons, Bool.false_eq_true, if_false] at hbase hprefix hlength
    refine ⟨Place.isWithin_iff.2 ⟨hbase, hprefix.trans (List.dropLast_prefix _)⟩, ?_⟩
    rintro rfl
    simp only [List.length_dropLast, List.length_cons] at hlength
    omega

theorem Place.IsBelow.of_child {p folder : Place} {name : Text} (h : (p.child name).IsBelow folder) :
    p = folder ∨ p.IsBelow folder := by
  obtain ⟨hwithin, hne⟩ := h
  obtain ⟨hbase, hprefix⟩ := Place.isWithin_iff.1 hwithin
  simp only [Place.child] at hbase hprefix
  rcases List.prefix_concat_iff.1 hprefix with heq | hprefix
  · refine absurd ?_ hne
    obtain ⟨base, names⟩ := folder
    simp only at hbase heq
    rw [Place.child, hbase, heq]
  · by_cases hsame : p = folder
    · exact Or.inl hsame
    · exact Or.inr ⟨Place.isWithin_iff.2 ⟨hbase, hprefix⟩, hsame⟩

/-! ## Putting a file at a place -/

section Put

variable {f : Folder} {place other : Place} {content : ByteArray}

/-- No file changes its place when another one takes the place of one of them. -/
theorem Folder.place_replaced (place : Place) (content : ByteArray) (file : Place × ByteArray) :
    (if file.1 = place then (place, content) else file).1 = file.1 := by
  split
  · next heq => exact heq.symm
  · rfl

theorem Folder.find?_put (f : Folder) (place other : Place) (content : ByteArray) :
    (f.put place content).files.find? (·.1 = other) =
      if other = place then some (place, content) else f.files.find? (·.1 = other) := by
  unfold Folder.put
  split
  · next hany =>
    have hsame : ((fun file : Place × ByteArray => decide (file.1 = other)) ∘
        fun file => if file.1 = place then (place, content) else file) =
          fun file => decide (file.1 = other) :=
      funext fun file => by rw [Function.comp, Folder.place_replaced]
    rw [List.find?_map, hsame]
    split
    · next heq =>
      subst heq
      obtain ⟨file, hfind⟩ := Option.isSome_iff_exists.1
        (List.find?_isSome.2 (List.any_eq_true.1 hany))
      have hplace : file.1 = other := by simpa using List.find?_some hfind
      rw [hfind, Option.map_some, if_pos hplace]
    · next hne =>
      cases hfind : f.files.find? (·.1 = other) with
      | none => rfl
      | some file =>
        have hplace : file.1 = other := by simpa using List.find?_some hfind
        rw [Option.map_some, if_neg (hplace ▸ hne)]
  · next hnone =>
    rw [List.find?_append]
    split
    · next heq =>
      subst heq
      have hfind : f.files.find? (·.1 = other) = none :=
        List.find?_eq_none.2 fun file hmem hplace => hnone (List.any_eq_true.2 ⟨file, hmem, hplace⟩)
      rw [hfind, Option.none_or]
      simp
    · next hne =>
      rw [List.find?_cons_of_neg (by simpa using Ne.symm hne), List.find?_nil, Option.or_none]

theorem Folder.any_isWithin_put (f : Folder) (place other : Place) (content : ByteArray) :
    (f.put place content).files.any (·.1.isWithin other) =
      (f.files.any (·.1.isWithin other) || place.isWithin other) := by
  unfold Folder.put
  split
  · next hany =>
    have hsame : ((fun file : Place × ByteArray => file.1.isWithin other) ∘
        fun file => if file.1 = place then (place, content) else file) =
          fun file => file.1.isWithin other :=
      funext fun file => by rw [Function.comp, Folder.place_replaced]
    obtain ⟨file, hmem, hplace⟩ := List.any_eq_true.1 hany
    have himplies : place.isWithin other = true → f.files.any (·.1.isWithin other) = true := by
      intro hwithin
      refine List.any_eq_true.2 ⟨file, hmem, ?_⟩
      rw [of_decide_eq_true hplace, hwithin]
    rw [List.any_map, hsame]
    cases hwithin : place.isWithin other with
    | false => rw [Bool.or_false]
    | true => rw [himplies hwithin, Bool.true_or]
  · rw [List.any_append, List.any_cons, List.any_nil, Bool.or_false]

theorem Folder.entry_put_self (f : Folder) (place : Place) (content : ByteArray) :
    (f.put place content).entry place = .file content := by
  rw [Folder.entry, Folder.find?_put, if_pos rfl]

/-- **Putting a file at a place leaves all other places as they are**, if the folders around it are
    there. -/
theorem Folder.entry_put_of_ne (hne : other ≠ place)
    (habove : place.IsBelow other → f.entry other = .directory) :
    (f.put place content).entry other = f.entry other := by
  by_cases hwithin : place.isWithin other = true
  · have hdirectory := habove ⟨hwithin, hne.symm⟩
    rw [hdirectory]
    unfold Folder.entry at hdirectory ⊢
    rw [Folder.find?_put, if_neg hne, Folder.any_isWithin_put, hwithin]
    split at hdirectory
    · exact absurd hdirectory (by simp)
    · simp
  · unfold Folder.entry
    rw [Folder.find?_put, if_neg hne, Folder.any_isWithin_put, Bool.eq_false_iff.2 hwithin,
      Bool.or_false]

end Put

/-! ## Locating a place -/

section Locate

variable {f f' : Folder} {place found : Place} {parts : List Text}

/-- **The folders around a place that a path leads to are there.** -/
theorem Folder.entry_of_locate (h : f.locate place parts = .ok found)
    (habove : ∀ folder, place.IsBelow folder → f.entry folder = .directory) :
    ∀ folder, found.IsBelow folder → f.entry folder = .directory := by
  induction parts generalizing place with
  | nil =>
    cases h
    exact habove
  | cons part rest ih =>
    rw [Folder.locate] at h
    split at h
    · exact absurd h (by simp)
    · exact absurd h (by simp)
    · next hplace =>
      split at h
      · exact ih h habove
      · split at h
        · exact ih h fun folder hbelow => habove folder hbelow.of_parent
        · split at h
          · exact absurd h (by simp)
          · refine ih h fun folder hbelow => ?_
            rcases hbelow.of_child with rfl | hbelow
            · exact hplace
            · exact habove folder hbelow

/-- A path leads to the same place where the same folders are there. -/
theorem Folder.locate_of_directories (h : f.locate place parts = .ok found)
    (hsame : ∀ folder, f.entry folder = .directory → f'.entry folder = .directory) :
    f'.locate place parts = .ok found := by
  induction parts generalizing place with
  | nil => exact h
  | cons part rest ih =>
    rw [Folder.locate] at h ⊢
    split at h
    · exact absurd h (by simp)
    · exact absurd h (by simp)
    · next hplace =>
      rw [hsame place hplace]
      simp only
      split at h
      · next hstay => rw [if_pos hstay, ih h]
      · next hmove =>
        rw [if_neg hmove]
        split at h
        · next hup => rw [if_pos hup, ih h]
        · next hdown =>
          rw [if_neg hdown]
          split at h
          · exact absurd h (by simp)
          · next hfits => rw [if_neg hfits, ih h]

end Locate

/-! ## Writing -/

/-- The place that a path names. -/
def Folder.placeOf (f : Folder) (path : Text) : Except PathFault Place := do
  f.locate (← startOf? path) (pathParts path)

/-- A file is written at a path of a folder, and nothing else is. -/
structure Folder.Writes (f : Folder) (path : Text) (content : ByteArray) (f' : Folder) : Prop where
  place : ∃ place, f.placeOf path = .ok place ∧ f'.entry place = .file content ∧
    ∀ other, other ≠ place → f'.entry other = f.entry other
  read : f'.read path = .ok content

theorem startOf?_names {path : Text} {place : Place} (h : startOf? path = .ok place) :
    place.names = [] := by
  unfold startOf? at h
  split at h
  · exact absurd h (by simp)
  · split at h
    · exact absurd h (by simp)
    · split at h
      · exact absurd h (by simp)
      · cases h
        rfl

/-- **Writing a file writes this file and nothing else.** -/
theorem Folder.writes_of_write {f f' : Folder} {path : Text} {content : ByteArray}
    (h : f.write path content = .ok f') : f.Writes path content f' := by
  rw [Folder.write, Except.bind_eq_ok_iff] at h
  obtain ⟨start, hstart, h⟩ := h
  split at h
  · rw [Except.bind_eq_ok_iff] at h
    obtain ⟨_, _, h⟩ := h
    exact absurd h (by simp)
  · rw [Except.bind_eq_ok_iff] at h
    obtain ⟨place, hplace, h⟩ := h
    have hnames := startOf?_names hstart
    have habove : ∀ folder, place.IsBelow folder → f.entry folder = .directory := by
      refine Folder.entry_of_locate hplace fun folder hbelow => ?_
      obtain ⟨base, names⟩ := start
      cases hnames
      exact absurd hbelow (Place.not_isBelow_base base folder)
    -- the file takes the place of a file or of nothing, never that of a folder
    obtain ⟨hfree, rfl⟩ : f.entry place ≠ .directory ∧ f' = f.put place content := by
      cases hentry : f.entry place with
      | directory =>
        rw [hentry] at h
        exact absurd h (by simp)
      | file | nothing =>
        rw [hentry] at h
        cases h
        exact ⟨by simp, rfl⟩
    have hothers : ∀ other, other ≠ place → (f.put place content).entry other = f.entry other :=
      fun other hne => Folder.entry_put_of_ne hne (habove other)
    have hagain : (f.put place content).locate start (pathParts path) = .ok place := by
      refine Folder.locate_of_directories hplace fun folder hfolder => ?_
      rw [hothers folder fun heq => hfree (heq ▸ hfolder), hfolder]
    refine ⟨⟨place, ?_, Folder.entry_put_self f place content, hothers⟩, ?_⟩
    · rw [Folder.placeOf, Except.bind_eq_ok_iff]
      exact ⟨start, hstart, hplace⟩
    · simp only [Folder.read, Except.bind_eq_ok_iff]
      refine ⟨start, hstart, place, hagain, ?_⟩
      rw [Folder.entry_put_self]
      rfl

end LogoLang
