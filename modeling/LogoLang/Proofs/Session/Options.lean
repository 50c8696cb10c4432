import LogoLang.Session.Options
import LogoLang.Proofs.Results
import Mathlib

set_option autoImplicit false

/-! # Usable options

The width and the height of a session are used as they are, so they should be numbers above zero. Making
options checks this (`Options.ofGiven_eq_ok_iff`), with one gap: a value that is not a number is not
at or below zero either. Giving an option a new value checks its name only (`Options.set_eq_ok_iff`).
So the options can be used at every point of a row of assignments exactly if they were not made with
such a value and no assignment gives a size a value that is none (`options_usable_throughout_iff`). -/

namespace LogoLang

/-! ## Comparing with zero -/

theorem toModel_zero : (0 : Float).toModel.unpack = .zero .positive := rfl

theorem le_zero_iff (x : Float) : x ≤ 0 ↔ x.toModel.unpack.le (.zero .positive) = true := by
  rw [← toModel_zero]
  exact decide_eq_true_iff

theorem zero_lt_iff (x : Float) :
    0 < x ↔ Float.Model.UnpackedFloat.lt (.zero .positive) x.toModel.unpack = true := by
  rw [← toModel_zero]
  exact decide_eq_true_iff

theorem isNaN_eq_unpack (x : Float) : x.isNaN = x.toModel.unpack.isNaN := rfl

/-- What is not at or below zero is above it or no number at all. -/
theorem not_le_zero_iff (x : Float) : ¬ x ≤ 0 ↔ 0 < x ∨ x.isNaN = true := by
  rw [le_zero_iff, zero_lt_iff, isNaN_eq_unpack]
  cases x.toModel.unpack with
  | notANumber => decide
  | zero s => cases s <;> decide
  | infinity s => cases s <;> decide
  | finite s m e h =>
    cases s <;> simp [Float.Model.UnpackedFloat.le, Float.Model.UnpackedFloat.lt,
      Float.Model.UnpackedFloat.compare, Float.Model.UnpackedFloat.isNaN]

theorem isNaN_eq_false_of_pos {x : Float} (h : 0 < x) : x.isNaN = false := by
  rw [zero_lt_iff] at h
  rw [isNaN_eq_unpack]
  cases hx : x.toModel.unpack with
  | notANumber =>
    rw [hx] at h
    exact absurd h (by decide)
  | zero s => rfl
  | infinity s => rfl
  | finite s m e h => rfl

/-! ## Sizes -/

/-- The value is a number above zero. Truth values and texts are no numbers. -/
def Setting.IsSize : Setting → Prop
  | .int n => 0 < n
  | .float x => 0 < x
  | .text _ | .flag _ | .absent | .empty => False

/-- The value is a float that stands for no number. -/
def Setting.IsNaN : Setting → Prop
  | .float x => x.isNaN = true
  | .int _ | .text _ | .flag _ | .absent | .empty => False

instance Setting.decidableIsSize : DecidablePred Setting.IsSize
  | .int n => inferInstanceAs (Decidable (0 < n))
  | .float x => inferInstanceAs (Decidable (0 < x))
  | .text _ | .flag _ | .absent | .empty => inferInstanceAs (Decidable False)

theorem Setting.IsSize.not_isNaN {s : Setting} (h : s.IsSize) : ¬ s.IsNaN := by
  cases s with
  | float x => exact Bool.eq_false_iff.1 (isNaN_eq_false_of_pos h)
  | _ => exact id

/-- The names of the options that are sizes. -/
def OptionName.sizes : List OptionName := [.width, .height]

theorem OptionName.forall_sizes {p : OptionName → Prop} :
    (∀ name ∈ OptionName.sizes, p name) ↔ p .width ∧ p .height := by
  simp [OptionName.sizes]

/-- What a session needs of its options: the declared names in their order, and sizes. -/
structure Options.Usable (o : Options) : Prop where
  names : Bindings.names o.entries = OptionName.all.map OptionName.toText
  sizes : ∀ name ∈ OptionName.sizes, (o.value name).IsSize

theorem Options.usable_iff (o : Options) :
    o.Usable ↔ ∀ name ∈ OptionName.sizes, (o.value name).IsSize :=
  ⟨Usable.sizes, fun h => ⟨rfl, h⟩⟩

/-! ## Making options -/

theorem OptionName.ofText?_eq_some_iff {t : Text} {name : OptionName} :
    OptionName.ofText? t = some name ↔ name.toText = t := by
  constructor
  · intro h
    unfold OptionName.ofText? at h
    simpa using List.find?_some h
  · rintro rfl
    cases name <;> rfl

theorem OptionName.toText_inj {name name' : OptionName} :
    name.toText = name'.toText ↔ name = name' := by
  constructor
  · intro h
    have hsome := OptionName.ofText?_eq_some_iff.2 h
    rw [OptionName.ofText?_eq_some_iff.2 rfl] at hsome
    exact (Option.some.inj hsome).symm
  · rintro rfl
    rfl

theorem OptionName.mem_all (name : OptionName) : name ∈ OptionName.all := by
  cases name <;> decide

theorem OptionName.ofText?_eq_none_iff {t : Text} :
    OptionName.ofText? t = none ↔ t ∉ OptionName.all.map OptionName.toText := by
  simp [OptionName.ofText?, List.find?_eq_none]

/-- A size is accepted if it is a number above zero, and also if it is no number at all. -/
theorem requirePositive_eq_ok_iff (o : Options) (name : OptionName) :
    requirePositive o name = .ok () ↔ (o.value name).IsSize ∨ (o.value name).IsNaN := by
  unfold requirePositive
  cases o.value name with
  | int n => simp [Setting.measure?, Measure.isPositive, Setting.IsSize, Setting.IsNaN]
  | float x =>
    simp only [Setting.measure?, Measure.isPositive, Setting.IsSize, Setting.IsNaN,
      ← not_le_zero_iff]
    simp
  | _ => simp [Setting.measure?, Setting.IsSize, Setting.IsNaN]

/-- Options are made exactly if all names are declared and each size is accepted; then each option has
the value given for it, or its default. -/
theorem Options.ofGiven_eq_ok_iff {given : Bindings Setting} {o : Options} :
    Options.ofGiven given = .ok o ↔
      (∀ name, o.value name = startValue given name) ∧
      (∀ name ∈ OptionName.sizes, (o.value name).IsSize ∨ (o.value name).IsNaN) ∧
      ∀ name ∈ Bindings.names given, name ∈ OptionName.all.map OptionName.toText := by
  have hknown : ((Bindings.names given).filter fun name =>
      (OptionName.ofText? name).isNone).isEmpty = true ↔
      ∀ name ∈ Bindings.names given, name ∈ OptionName.all.map OptionName.toText := by
    simp only [List.isEmpty_iff, List.filter_eq_nil_iff, Option.isNone_iff_eq_none,
      OptionName.ofText?_eq_none_iff, not_not]
  rw [← hknown, OptionName.forall_sizes]
  simp only [← requirePositive_eq_ok_iff]
  unfold Options.ofGiven
  constructor
  · intro h
    simp only [Except.bind_eq_ok_iff] at h
    obtain ⟨⟨⟩, hwidth, ⟨⟩, hheight, h⟩ := h
    split at h
    · next hempty =>
      cases h
      exact ⟨fun name => by cases name <;> rfl, ⟨hwidth, hheight⟩, hempty⟩
    · cases h
  · rintro ⟨hvalues, ⟨hwidth, hheight⟩, hempty⟩
    have ho : o = ⟨startValue given .debug, startValue given .width, startValue given .height,
        startValue given .callFrames, startValue given .sourcePath⟩ := by
      rw [← hvalues .debug, ← hvalues .width, ← hvalues .height, ← hvalues .callFrames,
        ← hvalues .sourcePath]
      rfl
    rw [← ho]
    simp only [hwidth, hheight]
    rw [if_pos hempty]
    rfl

/-! ## Giving an option a value -/

theorem Options.value_assign (o : Options) (s : Setting) (changed name : OptionName) :
    (o.assign s changed).value name = if changed = name then s else o.value name := by
  cases changed <;> cases name <;> rfl

/-- An assignment is accepted exactly if the name is declared. The value is not looked at. -/
theorem Options.set_eq_ok_iff {o o' : Options} {t : Text} {s : Setting} :
    o.set t s = .ok o' ↔ ∃ name : OptionName, name.toText = t ∧ o' = o.assign s name := by
  unfold Options.set
  cases h : OptionName.ofText? t with
  | none =>
    simp only [reduceCtorEq, false_iff, not_exists, not_and]
    intro name hname
    rw [OptionName.ofText?_eq_some_iff.2 hname] at h
    cases h
  | some name =>
    simp only [Except.ok.injEq]
    constructor
    · rintro rfl
      exact ⟨name, OptionName.ofText?_eq_some_iff.1 h, rfl⟩
    · rintro ⟨name', hname, rfl⟩
      rw [OptionName.ofText?_eq_some_iff.2 hname] at h
      cases h
      rfl

theorem Options.set_eq_error_iff {o : Options} {t : Text} {s : Setting} {e : OptionsError} :
    o.set t s = .error e ↔ t ∉ OptionName.all.map OptionName.toText ∧ e = .noSuchOption t := by
  rw [← OptionName.ofText?_eq_none_iff]
  unfold Options.set
  cases h : OptionName.ofText? t with
  | none => simp [eq_comm]
  | some name => simp

/-- The options after an attempt to give the option with a written name a value. A refused attempt
leaves them as they are. -/
def Options.attempt (o : Options) (assignment : Text × Setting) : Options :=
  match o.set assignment.1 assignment.2 with
  | .ok o' => o'
  | .error _ => o

/-- The options after attempts to give options values, one after the other. -/
def Options.attemptAll (o : Options) (assignments : List (Text × Setting)) : Options :=
  assignments.foldl Options.attempt o

theorem Options.attemptAll_cons (o : Options) (assignment : Text × Setting)
    (rest : List (Text × Setting)) :
    o.attemptAll (assignment :: rest) = (o.attempt assignment).attemptAll rest := rfl

/-- An attempt changes the option with its name, and no other. -/
theorem Options.value_attempt (o : Options) (t : Text) (s : Setting) (name : OptionName) :
    (o.attempt (t, s)).value name = if t = name.toText then s else o.value name := by
  unfold Options.attempt
  cases h : o.set t s with
  | ok o' =>
    obtain ⟨changed, rfl, rfl⟩ := Options.set_eq_ok_iff.1 h
    simp only [Options.value_assign, OptionName.toText_inj]
  | error e =>
    have hne : t ≠ name.toText := by
      rintro rfl
      exact (Options.set_eq_error_iff.1 h).1 (List.mem_map_of_mem name.mem_all)
    rw [if_neg hne]

/-- After attempts an option has the last value that was given for it, or else the one it had. -/
theorem Options.value_attemptAll (o : Options) (assignments : List (Text × Setting))
    (name : OptionName) :
    (o.attemptAll assignments).value name =
      ((Bindings.ofPairs assignments).get? name.toText).getD (o.value name) := by
  -- the bindings so far are generalized, with the value that they give the option
  suffices h : ∀ (b : Bindings Setting) (o' : Options),
      o'.value name = (b.get? name.toText).getD (o.value name) →
        (o'.attemptAll assignments).value name =
          ((b.setAll assignments).get? name.toText).getD (o.value name) from h [] o rfl
  induction assignments with
  | nil => exact fun b o' h => h
  | cons assignment rest ih =>
    obtain ⟨t, s⟩ := assignment
    intro b o' h
    rw [Options.attemptAll_cons, Bindings.setAll_cons]
    apply ih
    rw [Options.value_attempt]
    split
    · next heq =>
      rw [heq, Bindings.get?_set_self]
      rfl
    · next hne => rw [h, Bindings.get?_set_of_ne b s hne]

/-! ## Options that can be used -/

/-- What an assignment has to be for options to stay usable: a size is given a size. -/
def KeepsSizes (assignment : Text × Setting) : Prop :=
  ∀ name ∈ OptionName.sizes, assignment.1 = name.toText → assignment.2.IsSize

instance KeepsSizes.decidable : DecidablePred KeepsSizes := fun assignment =>
  inferInstanceAs (Decidable (∀ name ∈ OptionName.sizes,
    assignment.1 = name.toText → assignment.2.IsSize))

/-- One attempt. -/
theorem Options.Usable.attempt_iff {o : Options} (h : o.Usable) (assignment : Text × Setting) :
    (o.attempt assignment).Usable ↔ KeepsSizes assignment := by
  obtain ⟨t, s⟩ := assignment
  rw [Options.usable_iff]
  refine forall₂_congr fun name hname => ?_
  rw [Options.value_attempt]
  split
  · next heq => simp [heq]
  · next hne => simp [hne, h.sizes name hname]

/-- A row of attempts. -/
theorem Options.usable_attemptAll_iff (o : Options) (assignments : List (Text × Setting)) :
    (∀ count, (o.attemptAll (assignments.take count)).Usable) ↔
      o.Usable ∧ ∀ assignment ∈ assignments, KeepsSizes assignment := by
  induction assignments generalizing o with
  | nil => simp [Options.attemptAll]
  | cons assignment rest ih =>
    have hsplit : (∀ count, (o.attemptAll ((assignment :: rest).take count)).Usable) ↔
        o.Usable ∧ ∀ count, ((o.attempt assignment).attemptAll (rest.take count)).Usable := by
      constructor
      · exact fun h => ⟨h 0, fun count => h (count + 1)⟩
      · rintro ⟨h, hrest⟩ (_ | count)
        · exact h
        · exact hrest count
    rw [hsplit, ih, List.forall_mem_cons]
    refine and_congr_right fun h => ?_
    rw [h.attempt_iff]

/-- **When options can be used.** For options that were made and any row of assignments, refused ones
among them: an option has the last value given for it, or else its first one. The options are usable at
every point exactly if no size was made to be no number and no assignment gives a size a value that is
no size. A refused assignment has a name that is not declared, and it changes nothing. -/
theorem options_usable_throughout_iff {given : Bindings Setting} {o : Options}
    (hmade : Options.ofGiven given = .ok o) (assignments : List (Text × Setting)) :
    ((∀ count, (o.attemptAll (assignments.take count)).Usable) ↔
      (∀ name ∈ OptionName.sizes, ¬ (startValue given name).IsNaN) ∧
        ∀ assignment ∈ assignments, KeepsSizes assignment) ∧
    Bindings.names (o.attemptAll assignments).entries = OptionName.all.map OptionName.toText ∧
    (∀ name, (o.attemptAll assignments).value name =
      ((Bindings.ofPairs assignments).get? name.toText).getD (startValue given name)) ∧
    ∀ t s e, (o.attemptAll assignments).set t s = .error e →
      e = .noSuchOption t ∧ t ∉ OptionName.all.map OptionName.toText ∧
        (o.attemptAll assignments).attempt (t, s) = o.attemptAll assignments := by
  obtain ⟨hvalues, haccepted, -⟩ := Options.ofGiven_eq_ok_iff.1 hmade
  refine ⟨?_, rfl, fun name => ?_, fun t s e h => ?_⟩
  · rw [Options.usable_attemptAll_iff, Options.usable_iff]
    refine and_congr_left' (forall₂_congr fun name hname => ?_)
    rw [← hvalues name]
    exact ⟨Setting.IsSize.not_isNaN, (haccepted name hname).resolve_right⟩
  · rw [← hvalues name, Options.value_attemptAll]
  · obtain ⟨hunknown, rfl⟩ := Options.set_eq_error_iff.1 h
    refine ⟨rfl, hunknown, ?_⟩
    unfold Options.attempt
    rw [h]

/-- Options that were made with a width stay usable when the height is changed and another name is
refused. -/
theorem options_usable_throughout_iff_height :
    Options.ofGiven [("width".toList, .int 10)] = .ok { Options.default with width := .int 10 } ∧
    ∀ count, (Options.attemptAll { Options.default with width := .int 10 }
      ([("height".toList, .int 20), ("depth".toList, .int 1)].take count)).Usable := by
  have hmade : Options.ofGiven [("width".toList, .int 10)] =
      .ok { Options.default with width := .int 10 } := by rfl
  refine ⟨hmade, (options_usable_throughout_iff hmade _).1.2 ⟨?_, by decide⟩⟩
  rw [OptionName.forall_sizes]
  exact ⟨id, id⟩

/-- An assignment may give a size a value that is none, and a size that is no number is accepted when
the options are made. -/
theorem options_negative_width :
    (Options.ofGiven [] = .ok .default ∧
      ¬ (Options.default.attemptAll [("width".toList, .int (-5))]).Usable) ∧
    Options.ofGiven [("width".toList, .float (0 / 0))] =
      .ok { Options.default with width := .float (0 / 0) } ∧
    ¬ Options.Usable { Options.default with width := .float (0 / 0) } := by
  have hnan : Setting.IsNaN (.float (0 / 0)) := by rfl
  refine ⟨⟨by rfl, fun h => ?_⟩, ?_, fun h => ?_⟩
  · exact absurd (h.sizes .width (by decide)) (by decide)
  · rw [Options.ofGiven_eq_ok_iff, OptionName.forall_sizes]
    exact ⟨fun name => by cases name <;> rfl, ⟨.inr hnan, .inl (by decide)⟩, by decide⟩
  · exact (h.sizes .width (by decide)).not_isNaN hnan

end LogoLang
