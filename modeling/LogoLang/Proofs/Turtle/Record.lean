import LogoLang.Proofs.Run.Deeds
import LogoLang.Proofs.Run.HeadingRange

set_option autoImplicit false

/-! # The turtle's record

A turtle keeps its strokes and its stops. Both are functions of the actions that it was told to do, of
which the refused ones leave no trace: `Turtle.Records` says what the strokes, the stops, the pen, the
color and the heading are after a sequence of actions, one action keeps it (`Turtle.Records.concat`),
and so it holds after any number of them (`Turtle.records_afterAll`). -/

namespace LogoLang

/-! ## What single actions set -/

/-- Whether an action adds to the history. -/
def Action.isRecorded : Action → Bool
  | .penUp | .penDown | .move .. | .setX _ | .setY _ => true
  | .setPenColor _ | .turn _ | .setHeading _ => false

/-- The state into which an action brings the pen. -/
def Action.pen? : Action → Option Bool
  | .penUp => some false
  | .penDown => some true
  | _ => none

/-- The color that an action sets, when the palette has it. -/
def Action.color? : Action → Option Color
  | .setPenColor index => if h : 0 ≤ index ∧ index.toNat < 16 then some ⟨index.toNat, h.2⟩ else none
  | _ => none

/-- The heading that an action sets. -/
def Action.heading? : Action → Option Int
  | .setHeading degrees => some degrees
  | _ => none

/-- By how much an action turns the heading. -/
def Action.turned : Action → Int
  | .turn degrees => degrees
  | _ => 0

/-! ## What sequences of actions set -/

/-- What the last of the actions with a value of `f` sets. -/
def Action.latest? {α : Type} (f : Action → Option α) (actions : List Action) : Option α :=
  actions.reverse.findSome? f

/-- Whether the pen is down: it is up at first. -/
def Action.penAfter (actions : List Action) : Bool := (latest? pen? actions).getD false

/-- The color set last, or that of a new turtle. -/
def Action.colorAfter (actions : List Action) : Color := (latest? color? actions).getD defaultColor

/-- The heading set last, or zero, and the turns since then. -/
def Action.headingAfter (actions : List Action) : Int :=
  (latest? heading? actions).getD 0
    + ((actions.reverse.takeWhile (·.heading?.isNone)).map turned).sum

/-- Each of the actions together with those before it, which are `earlier` at first. -/
def Action.callsFrom (earlier : List Action) : List Action → List (List Action × Action)
  | [] => []
  | action :: rest => (earlier, action) :: callsFrom (earlier ++ [action]) rest

/-- Each action together with those before it. -/
def Action.calls (actions : List Action) : List (List Action × Action) := callsFrom [] actions

section Sequences

variable {actions : List Action} {action : Action}

@[simp]
theorem Action.latest?_concat {α : Type} (f : Action → Option α) :
    latest? f (actions ++ [action]) = (f action).or (latest? f actions) := by
  rw [latest?, List.reverse_concat, List.findSome?_cons]
  cases f action <;> rfl

theorem Action.getD_latest?_concat {α : Type} (f : Action → Option α) (initial : α) :
    (latest? f (actions ++ [action])).getD initial =
      (f action).getD ((latest? f actions).getD initial) := by
  rw [latest?_concat]
  cases f action <;> rfl

theorem Action.penAfter_concat :
    penAfter (actions ++ [action]) = action.pen?.getD (penAfter actions) :=
  getD_latest?_concat pen? false

theorem Action.colorAfter_concat :
    colorAfter (actions ++ [action]) = action.color?.getD (colorAfter actions) :=
  getD_latest?_concat color? defaultColor

theorem Action.headingAfter_concat : headingAfter (actions ++ [action]) =
    action.heading?.getD (headingAfter actions + action.turned) := by
  unfold headingAfter
  rw [latest?_concat, List.reverse_concat, List.takeWhile_cons]
  cases action.heading? with
  | some degrees => simp
  | none =>
    simp only [Option.isNone_none, if_true, List.map_cons, List.sum_cons, Option.none_or,
      Option.getD_none]
    omega

theorem Action.callsFrom_concat (earlier : List Action) :
    callsFrom earlier (actions ++ [action]) =
      callsFrom earlier actions ++ [(earlier ++ actions, action)] := by
  induction actions generalizing earlier with
  | nil => simp [callsFrom]
  | cons first rest ih => simp [callsFrom, ih]

theorem Action.calls_concat : calls (actions ++ [action]) = calls actions ++ [(actions, action)] :=
  callsFrom_concat []

end Sequences

/-! ## Performing an action -/

/-- The point to which a move leads, unless its direction is out of range. -/
def Turtle.target? (t : Turtle) (offset : Int) (distance : Float) : Option (Float × Float) :=
  endPoint? t.x t.y (t.course offset distance) (if distance < 0 then -distance else distance)

/-- The strokes after a move to a point: there is one more if the pen is down. -/
def Turtle.strokesTo (t : Turtle) (x y : Float) : List Segment :=
  if t.penDown then ⟨t.x, t.y, x, y, t.color⟩ :: t.strokes else t.strokes

/-- The actions that a turtle does, its answers to them, and what becomes of it. -/
inductive Turtle.Performs (t : Turtle) : Action → Answer → Turtle → Prop where
  | penUp : Turtle.Performs t .penUp .nothing { t with penDown := false }.record
  | penDown : Turtle.Performs t .penDown .nothing { t with penDown := true }.record
  | move {offset : Int} {distance x y : Float} (htarget : t.target? offset distance = some (x, y)) :
      Turtle.Performs t (.move offset distance) (.point x y)
        { t with x, y, strokes := t.strokesTo x y }.record
  | setPenColor {index : Int} {color : Color}
      (hcolor : (Action.setPenColor index).color? = some color) :
      Turtle.Performs t (.setPenColor index) .nothing { t with color }
  | turn {degrees : Int} :
      Turtle.Performs t (.turn degrees) .nothing { t with direction := t.direction + degrees }
  | setHeading {degrees : Int} :
      Turtle.Performs t (.setHeading degrees) .nothing { t with direction := degrees }
  | setX {value : Float} : Turtle.Performs t (.setX value) .nothing { t with x := value }.record
  | setY {value : Float} : Turtle.Performs t (.setY value) .nothing { t with y := value }.record

section Performing

variable {t t' : Turtle} {action : Action} {answer : Answer}

theorem Turtle.move_eq (t : Turtle) (offset : Int) (distance : Float) :
    t.move offset distance = match t.target? offset distance with
      | none => .error .headingTooLarge
      | some (x, y) => .ok (.point x y, { t with x, y, strokes := t.strokesTo x y }.record) := by
  have hcourse : (if distance < 0 then (t.direction + offset + 180, -distance)
      else (t.direction + offset, distance)) =
      (t.course offset distance, if distance < 0 then -distance else distance) := by
    unfold Turtle.course
    split
    · rfl
    · rw [Int.add_zero]
  simp only [Turtle.move, hcourse]
  rfl

theorem Turtle.performs_of_perform (h : t.perform action = .ok (answer, t')) :
    t.Performs action answer t' := by
  cases action with
  | move offset distance =>
    rw [Turtle.perform, Turtle.move_eq] at h
    split at h
    · exact absurd h (by simp)
    · next x y htarget =>
      cases h
      exact .move htarget
  | setPenColor index =>
    rw [Turtle.perform] at h
    split at h
    · next hrange =>
      cases h
      exact .setPenColor (dif_pos ⟨hrange.1, by omega⟩)
    · exact absurd h (by simp)
  | penUp =>
    cases h
    exact .penUp
  | penDown =>
    cases h
    exact .penDown
  | turn degrees =>
    cases h
    exact .turn
  | setHeading degrees =>
    cases h
    exact .setHeading
  | setX value =>
    cases h
    exact .setX
  | setY value =>
    cases h
    exact .setY

/-- **What a turtle refuses**: a color that the palette does not have, and a move in a direction that
    has no double. -/
theorem Turtle.exists_perform_eq_error_iff : (∃ fault, t.perform action = .error fault) ↔
    (∃ index, action = .setPenColor index ∧ ¬ (0 ≤ index ∧ index < 16)) ∨
      ∃ offset distance, action = .move offset distance ∧
        doubleOverflow ≤ (t.course offset distance).natAbs := by
  cases action with
  | move offset distance =>
    simp only [Turtle.perform, Turtle.move_eq_error_iff]
    simp
  | setPenColor index =>
    by_cases hrange : 0 ≤ index ∧ index < 16
    · simp [Turtle.perform, hrange]
    · exact ⟨fun _ => Or.inl ⟨index, rfl, hrange⟩, fun _ => ⟨_, dif_neg hrange⟩⟩
  | penUp | penDown | turn | setHeading | setX | setY => simp [Turtle.perform]

/-- A refused action sets nothing. -/
theorem Action.sets_nothing {fault : TurtleFault} (h : t.perform action = .error fault) :
    action.pen? = none ∧ action.color? = none ∧ action.heading? = none ∧ action.turned = 0 := by
  rcases Turtle.exists_perform_eq_error_iff.1 ⟨fault, h⟩ with
    ⟨index, rfl, hrange⟩ | ⟨offset, distance, rfl, _⟩
  · exact ⟨rfl, dif_neg fun h => hrange ⟨h.1, by omega⟩, rfl, rfl⟩
  · exact ⟨rfl, rfl, rfl, rfl⟩

theorem Turtle.after_of_perform (h : t.perform action = .ok (answer, t')) : t.after action = t' := by
  rw [Turtle.after, h]

theorem Turtle.after_of_error {fault : TurtleFault} (h : t.perform action = .error fault) :
    t.after action = t := by
  rw [Turtle.after, h]

end Performing

/-! ## The record -/

/-- A turtle after actions, of which the refused ones change nothing. -/
def Turtle.afterAll (t : Turtle) (actions : List Action) : Turtle := actions.foldl Turtle.after t

@[simp]
theorem Turtle.afterAll_concat (t : Turtle) (actions : List Action) (action : Action) :
    t.afterAll (actions ++ [action]) = (t.afterAll actions).after action := by
  simp [Turtle.afterAll]

/-- The stroke that an action with this answer draws from the point `(x, y)`: none, unless it is a move
    and the pen is down. -/
def Action.stroke? (penDown : Bool) (x y : Float) (color : Color) : Action → Answer → Option Segment
  | .move .., .point x' y' => if penDown then some ⟨x, y, x', y', color⟩ else none
  | _, _ => none

/-- What an action adds to the history after `earlier` ones: the position and the pen state right after
    it, unless it is refused. -/
def Turtle.stopAfter? (t : Turtle) (earlier : List Action) (action : Action) : Option Stop :=
  match (t.afterAll earlier).perform action with
  | .ok (_, after) => if action.isRecorded then some ⟨after.x, after.y, after.penDown⟩ else none
  | .error _ => none

/-- What an action adds to the strokes after `earlier` ones, unless it is refused: a stroke from the
    position before it to the point that the turtle answers, in the color set last. -/
def Turtle.segmentAfter? (t : Turtle) (earlier : List Action) (action : Action) : Option Segment :=
  let before := t.afterAll earlier
  match before.perform action with
  | .ok (answer, _) =>
    action.stroke? (Action.penAfter earlier) before.x before.y (Action.colorAfter earlier) answer
  | .error _ => none

/-- What holds of a turtle `t` after a new one was told to do actions. -/
structure Turtle.Records (new : Turtle) (actions : List Action) (t : Turtle) : Prop where
  /-- The history has one entry for each action that is recorded, in order. -/
  history : t.history =
    (Action.calls actions).filterMap fun (earlier, action) => new.stopAfter? earlier action
  /-- A history that is not empty ends with the present state. -/
  present : ∀ stop, t.history.getLast? = some stop → stop = ⟨t.x, t.y, t.penDown⟩
  /-- There is one stroke for each move with the pen down, in order. -/
  segments : t.segments =
    (Action.calls actions).filterMap fun (earlier, action) => new.segmentAfter? earlier action
  pen : t.penDown = Action.penAfter actions
  color : t.color = Action.colorAfter actions
  heading : t.direction = Action.headingAfter actions

section Record

variable {new t t' : Turtle} {actions : List Action} {action : Action} {answer : Answer}

theorem Turtle.history_record (t : Turtle) : t.record.history = t.history ++ [⟨t.x, t.y, t.penDown⟩] :=
  List.reverse_cons

/-- An action that is done adds what it should to the history. -/
theorem Turtle.Performs.history (h : t.Performs action answer t') : t'.history = t.history ++
    (if action.isRecorded then some ⟨t'.x, t'.y, t'.penDown⟩ else none : Option Stop).toList := by
  cases h with
  | penUp | penDown | move | setX | setY => exact Turtle.history_record _
  | setPenColor | turn | setHeading => exact (List.append_nil _).symm

/-- Only actions that are recorded change the position or the pen. -/
theorem Turtle.Performs.stop_of_not_isRecorded (h : t.Performs action answer t')
    (hrecorded : action.isRecorded = false) : t'.x = t.x ∧ t'.y = t.y ∧ t'.penDown = t.penDown := by
  cases h with
  | penUp | penDown | move | setX | setY => exact absurd hrecorded (by simp [Action.isRecorded])
  | setPenColor | turn | setHeading => exact ⟨rfl, rfl, rfl⟩

/-- Only a move with the pen down adds a stroke. -/
theorem Turtle.Performs.segments (h : t.Performs action answer t') : t'.segments = t.segments ++
    (action.stroke? t.penDown t.x t.y t.color answer).toList := by
  cases h with
  | @move offset distance x y htarget =>
    show (t.strokesTo x y).reverse = t.strokes.reverse ++ _
    unfold Turtle.strokesTo Action.stroke?
    split <;> simp
  | penUp | penDown | setPenColor | turn | setHeading | setX | setY => exact (List.append_nil _).symm

theorem Turtle.Performs.penDown_eq (h : t.Performs action answer t') :
    t'.penDown = action.pen?.getD t.penDown := by
  cases h <;> rfl

theorem Turtle.Performs.color_eq (h : t.Performs action answer t') :
    t'.color = action.color?.getD t.color := by
  cases h with
  | setPenColor hcolor =>
    rw [hcolor]
    rfl
  | penUp | penDown | move | turn | setHeading | setX | setY => rfl

theorem Turtle.Performs.direction_eq (h : t.Performs action answer t') :
    t'.direction = action.heading?.getD (t.direction + action.turned) := by
  cases h with
  | turn | setHeading => rfl
  | penUp | penDown | move | setPenColor | setX | setY => exact (Int.add_zero _).symm

/-- What one more action adds to what the calls before it have added. -/
theorem Action.filterMap_calls_concat {α : Type} (f : List Action → Action → Option α) :
    (calls (actions ++ [action])).filterMap (fun (earlier, action) => f earlier action) =
      (calls actions).filterMap (fun (earlier, action) => f earlier action) ++
        (f actions action).toList := by
  rw [calls_concat, List.filterMap_append]
  cases hadded : f actions action <;> simp [hadded]

/-- A refused action leaves the record as it is. -/
theorem Turtle.Records.concat_of_error {fault : TurtleFault} (h : new.Records actions t)
    (ht : new.afterAll actions = t) (hperform : t.perform action = .error fault) :
    new.Records (actions ++ [action]) t := by
  obtain ⟨hpen, hcolor, hheading, hturned⟩ := Action.sets_nothing hperform
  have hstop : new.stopAfter? actions action = none := by
    rw [Turtle.stopAfter?, ht, hperform]
  have hsegment : new.segmentAfter? actions action = none := by
    simp only [Turtle.segmentAfter?, ht, hperform]
  refine ⟨?_, h.present, ?_, ?_, ?_, ?_⟩
  · rw [Action.filterMap_calls_concat, hstop, h.history, Option.toList_none, List.append_nil]
  · rw [Action.filterMap_calls_concat, hsegment, h.segments, Option.toList_none, List.append_nil]
  · rw [Action.penAfter_concat, hpen, h.pen, Option.getD_none]
  · rw [Action.colorAfter_concat, hcolor, h.color, Option.getD_none]
  · rw [Action.headingAfter_concat, hheading, hturned, h.heading, Option.getD_none, Int.add_zero]

/-- An action that is done is recorded as it should be. -/
theorem Turtle.Records.concat_of_ok (h : new.Records actions t) (ht : new.afterAll actions = t)
    (hperform : t.perform action = .ok (answer, t')) : new.Records (actions ++ [action]) t' := by
  have hperforms := Turtle.performs_of_perform hperform
  have hstop : new.stopAfter? actions action =
      if action.isRecorded then some ⟨t'.x, t'.y, t'.penDown⟩ else none := by
    rw [Turtle.stopAfter?, ht, hperform]
  have hsegment : new.segmentAfter? actions action =
      action.stroke? t.penDown t.x t.y t.color answer := by
    simp only [Turtle.segmentAfter?, ht, hperform, h.pen, h.color]
  refine ⟨?_, ?_, ?_, ?_, ?_, ?_⟩
  · rw [hperforms.history, h.history, Action.filterMap_calls_concat, hstop]
  · intro stop hlast
    rw [hperforms.history] at hlast
    cases hrecorded : action.isRecorded with
    | true => simpa [hrecorded, eq_comm] using hlast
    | false =>
      obtain ⟨hx, hy, hpen⟩ := hperforms.stop_of_not_isRecorded hrecorded
      rw [hx, hy, hpen]
      exact h.present stop (by simpa [hrecorded] using hlast)
  · rw [hperforms.segments, h.segments, Action.filterMap_calls_concat, hsegment]
  · rw [Action.penAfter_concat, ← h.pen, hperforms.penDown_eq]
  · rw [Action.colorAfter_concat, ← h.color, hperforms.color_eq]
  · rw [Action.headingAfter_concat, ← h.heading, hperforms.direction_eq]

/-- **One more action keeps the record**, whether it is done or refused. -/
theorem Turtle.Records.concat (h : new.Records actions t) (ht : new.afterAll actions = t)
    (action : Action) : new.Records (actions ++ [action]) (t.after action) := by
  cases hperform : t.perform action with
  | error fault =>
    rw [Turtle.after_of_error hperform]
    exact h.concat_of_error ht hperform
  | ok result =>
    rw [Turtle.after_of_perform hperform]
    exact h.concat_of_ok ht hperform

/-- A new turtle has recorded nothing. -/
theorem Turtle.records_new {width height : Measure} (h : Turtle.new? width height = some new) :
    new.Records [] new := by
  unfold Turtle.new? at h
  obtain ⟨x, _, h⟩ := Option.bind_eq_some_iff.1 h
  obtain ⟨y, _, h⟩ := Option.bind_eq_some_iff.1 h
  cases h
  exact ⟨rfl, fun stop hstop => absurd hstop (by simp [Turtle.history]), rfl, rfl, rfl, rfl⟩

/-- **The record of a turtle is that of the actions that it was told to do.** -/
theorem Turtle.records_afterAll {width height : Measure}
    (h : Turtle.new? width height = some new) (actions : List Action) :
    new.Records actions (new.afterAll actions) := by
  induction actions using List.reverseRecOn with
  | nil => exact Turtle.records_new h
  | append_singleton actions action ih =>
    rw [Turtle.afterAll_concat]
    exact ih.concat rfl action

end Record

end LogoLang
