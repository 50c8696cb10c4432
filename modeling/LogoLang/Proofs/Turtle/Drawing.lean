import LogoLang.Proofs.Number.Numerals
import LogoLang.Proofs.Turtle.Record
import LogoLang.Text.Lines
import LogoLang.Turtle.Svg

set_option autoImplicit false

/-! # The turtle's drawing

A drawing is cut into its tags where a `<` stands, and no attribute holds one: all of them are numbers,
colors and other fixed texts. So the tags of a drawing are its rows, and the line elements among them
are those of the strokes (`Turtle.lineTags_toSvg`). Together with the record of the turtle this is
`turtle_keeps_record`. -/

namespace LogoLang

/-! ## Tags -/

/-- The tags of a text, each with what follows it up to the next one. -/
def svgTags (t : Text) : List Text := (Text.splitOn '<' t).tail.map ('<' :: ·)

/-- The line elements of a text. -/
def lineTags (t : Text) : List Text := (svgTags t).filter ("<line ".toList.isPrefixOf ·)

theorem Text.splitOn_of_not_mem {sep : Char} {t : Text} (h : sep ∉ t) : Text.splitOn sep t = [t] := by
  induction t with
  | nil => rfl
  | cons c rest ih =>
    rw [List.mem_cons, not_or] at h
    rw [Text.splitOn, if_neg (Ne.symm h.1), ih h.2]
    rfl

theorem Text.splitOn_append_cons {sep : Char} {t : Text} (h : sep ∉ t) (rest : Text) :
    Text.splitOn sep (t ++ sep :: rest) = t :: Text.splitOn sep rest := by
  induction t with
  | nil => exact if_pos rfl
  | cons c t ih =>
    rw [List.mem_cons, not_or] at h
    rw [List.cons_append, Text.splitOn, if_neg (Ne.symm h.1), ih h.2]
    rfl

/-- The row starts with a tag and holds no other. -/
def IsTag (row : Text) : Prop := ∃ body, row = '<' :: body ∧ '<' ∉ body

/-- The tags of rows that are one tag each are these rows. -/
theorem svgTags_rows {rows : List Text} (h : ∀ row ∈ rows, IsTag row) :
    svgTags (rows.flatMap (· ++ ['\n'])) = rows.map (· ++ ['\n']) := by
  -- the first piece is what stands before the first tag
  suffices hpieces : ∀ before : Text, '<' ∉ before →
      (Text.splitOn '<' (before ++ rows.flatMap (· ++ ['\n']))).head? = some before ∧
      svgTags (before ++ rows.flatMap (· ++ ['\n'])) = rows.map (· ++ ['\n']) from
    (hpieces [] List.not_mem_nil).2
  induction rows with
  | nil =>
    intro before hbefore
    rw [List.flatMap_nil, List.append_nil, svgTags, Text.splitOn_of_not_mem hbefore]
    exact ⟨rfl, rfl⟩
  | cons row rest ih =>
    intro before hbefore
    obtain ⟨⟨body, rfl, hbody⟩, hrest⟩ := List.forall_mem_cons.1 h
    have hline : '<' ∉ body ++ ['\n'] := by
      rw [List.mem_append, not_or]
      exact ⟨hbody, by decide⟩
    obtain ⟨hhead, htags⟩ := ih hrest _ hline
    obtain ⟨pieces, hpieces⟩ := List.head?_eq_some_iff.1 hhead
    rw [svgTags, hpieces] at htags
    rw [List.flatMap_cons, List.cons_append, List.cons_append, svgTags,
      Text.splitOn_append_cons hbefore, hpieces]
    exact ⟨rfl, congrArg (('<' :: (body ++ ['\n'])) :: ·) htags⟩

/-! ## Rows -/

theorem IsNumeral.not_mem_lt {t : Text} (h : IsNumeral t) : '<' ∉ t :=
  fun hmem => absurd (h '<' hmem) (by decide)

theorem not_mem_svgAttribute {name : String} {value : Text} (hname : '<' ∉ name.toList)
    (hvalue : '<' ∉ value) : '<' ∉ svgAttribute name value := by
  simp [svgAttribute, hname, hvalue]

theorem isTag_svgOpening {width height : Text} (hwidth : IsNumeral width)
    (hheight : IsNumeral height) : IsTag (svgOpening width height) := by
  have hbox : '<' ∉ "0 0 ".toList ++ width ++ ' ' :: height := by
    simp [hwidth.not_mem_lt, hheight.not_mem_lt]
  refine ⟨"svg".toList ++ svgAttribute "xmlns" "http://www.w3.org/2000/svg".toList
    ++ svgAttribute "width" width ++ svgAttribute "height" height
    ++ svgAttribute "viewBox" ("0 0 ".toList ++ width ++ ' ' :: height) ++ ['>'], rfl, ?_⟩
  simp only [List.mem_append, not_or]
  exact ⟨⟨⟨⟨⟨by decide, not_mem_svgAttribute (by decide) (by decide)⟩,
    not_mem_svgAttribute (by decide) hwidth.not_mem_lt⟩,
    not_mem_svgAttribute (by decide) hheight.not_mem_lt⟩,
    not_mem_svgAttribute (by decide) hbox⟩, by decide⟩

theorem Segment.isTag_toSvg (s : Segment) : IsTag s.toSvg := by
  have hplace : ∀ (name : String) (x : Float), '<' ∉ name.toList →
      '<' ∉ svgAttribute name (Text.ofDoubleFixed x) :=
    fun name x hname => not_mem_svgAttribute hname (Text.isNumeral_ofDoubleFixed x).not_mem_lt
  have hpalette : ∀ color : Color, '<' ∉ palette[color].toList := by decide
  refine ⟨"line".toList ++ svgAttribute "x1" (Text.ofDoubleFixed s.x₁)
    ++ svgAttribute "y1" (Text.ofDoubleFixed s.y₁) ++ svgAttribute "x2" (Text.ofDoubleFixed s.x₂)
    ++ svgAttribute "y2" (Text.ofDoubleFixed s.y₂) ++ svgAttribute "stroke" palette[s.color].toList
    ++ svgAttribute "stroke-width" ['1'] ++ "/>".toList, rfl, ?_⟩
  simp only [List.mem_append, not_or]
  exact ⟨⟨⟨⟨⟨⟨⟨by decide, hplace _ _ (by decide)⟩, hplace _ _ (by decide)⟩, hplace _ _ (by decide)⟩,
    hplace _ _ (by decide)⟩, not_mem_svgAttribute (by decide) (hpalette s.color)⟩,
    not_mem_svgAttribute (by decide) (by decide)⟩, by decide⟩

/-- **The line elements of a drawing are those of the strokes**, in order. -/
theorem Turtle.lineTags_toSvg (t : Turtle) :
    lineTags t.toSvg = t.segments.map fun s => s.toSvg ++ ['\n'] := by
  have hrows : ∀ row ∈ svgOpening t.width.toText t.height.toText :: svgBackground
      :: t.segments.map Segment.toSvg ++ [svgClosing], IsTag row := by
    intro row hrow
    simp only [List.cons_append, List.mem_cons, List.mem_append, List.mem_map, List.not_mem_nil,
      or_false] at hrow
    rcases hrow with rfl | rfl | ⟨s, _, rfl⟩ | rfl
    · exact isTag_svgOpening t.width.isNumeral_toText t.height.isNumeral_toText
    · exact ⟨_, rfl, by decide⟩
    · exact s.isTag_toSvg
    · exact ⟨_, rfl, by decide⟩
  have hlines : ∀ s : Segment, "<line ".toList.isPrefixOf (s.toSvg ++ ['\n']) = true :=
    fun _ => rfl
  have hfilter : ((t.segments.map Segment.toSvg).map (· ++ ['\n'])).filter
      ("<line ".toList.isPrefixOf ·) = (t.segments.map Segment.toSvg).map (· ++ ['\n']) := by
    refine List.filter_eq_self.2 fun row hrow => ?_
    simp only [List.mem_map] at hrow
    obtain ⟨_, ⟨s, _, rfl⟩, rfl⟩ := hrow
    exact hlines s
  have hopening : "<line ".toList.isPrefixOf
      (svgOpening t.width.toText t.height.toText ++ ['\n']) = false := rfl
  rw [lineTags, Turtle.toSvg, svgTags_rows hrows, List.map_append, List.filter_append, List.map_cons,
    List.map_cons, List.filter_cons_of_neg (Bool.eq_false_iff.1 hopening), List.filter_cons_of_neg (by decide),
    hfilter, List.map_map]
  exact List.append_nil _

/-! ## The whole record -/

/-- A move answers the point where the turtle is right after it, and keeps the heading. -/
theorem Turtle.answer_of_move {t t' : Turtle} {offset : Int} {distance : Float} {answer : Answer}
    (h : t.perform (.move offset distance) = .ok (answer, t')) :
    answer = .point t'.x t'.y ∧ t'.direction = t.direction := by
  cases Turtle.performs_of_perform h with
  | move htarget => exact ⟨rfl, rfl⟩

/-- **A turtle keeps a record of what it was told to do.** Whatever the canvas and whatever the actions
    are, its history, its strokes, its pen, its color and its heading are those that `Turtle.Records`
    makes of the actions, all colors of its strokes are in the palette, and its drawing has one line
    element for each stroke, in order. A move answers the point to which it leads, and keeps the
    heading. An action is refused when it sets a color that the palette does not have, or moves in a
    direction that has no double; it changes nothing then. -/
theorem turtle_keeps_record {width height : Measure} {new : Turtle}
    (hnew : Turtle.new? width height = some new) (actions : List Action) :
    new.Records actions (new.afterAll actions) ∧
    (∀ s ∈ (new.afterAll actions).segments, s.color.val < palette.toList.length) ∧
    lineTags (new.afterAll actions).toSvg =
      (new.afterAll actions).segments.map (fun s => s.toSvg ++ ['\n']) ∧
    (∀ offset distance answer t',
      (new.afterAll actions).perform (.move offset distance) = .ok (answer, t') →
        answer = .point t'.x t'.y ∧ t'.direction = (new.afterAll actions).direction) ∧
    ∀ action,
      ((∃ fault, (new.afterAll actions).perform action = .error fault) ↔
        (∃ index, action = .setPenColor index ∧ ¬ (0 ≤ index ∧ index < 16)) ∨
          ∃ offset distance, action = .move offset distance ∧
            doubleOverflow ≤ ((new.afterAll actions).course offset distance).natAbs) ∧
      ∀ fault, (new.afterAll actions).perform action = .error fault →
        new.afterAll (actions ++ [action]) = new.afterAll actions := by
  refine ⟨Turtle.records_afterAll hnew actions, fun s _ => s.color.isLt,
    Turtle.lineTags_toSvg _, fun _ _ _ _ => Turtle.answer_of_move, fun action => ⟨?_, ?_⟩⟩
  · exact Turtle.exists_perform_eq_error_iff
  · intro fault hperform
    rw [Turtle.afterAll_concat, Turtle.after_of_error hperform]

/-- A turtle that is told to take a color that the palette does not have, then to turn, and to draw one
    stroke. -/
theorem turtle_keeps_record_stroke :
    ∃ t actions, Turtle.new? .default .default = some t ∧
      actions = [.penDown, .setPenColor 4, .setPenColor 16, .setHeading 30, .turn 60, .move 0 10,
        .penUp] ∧
      (t.afterAll actions).direction = 90 ∧
      (t.afterAll actions).history.map Stop.penDown = [true, true, false] ∧
      (t.afterAll actions).segments.map Segment.color = [4] ∧
      (lineTags (t.afterAll actions).toSvg).length = 1 := by
  have hnew : Turtle.new? .default .default =
      some ⟨.default, .default, 200, 200, 0, false, defaultColor, [], []⟩ := by decide +kernel
  obtain ⟨hrecords, _, htags, _⟩ := turtle_keeps_record hnew [.penDown, .setPenColor 4,
    .setPenColor 16, .setHeading 30, .turn 60, .move 0 10, .penUp]
  have hcolors := congrArg (List.map Segment.color) hrecords.segments
  refine ⟨_, _, hnew, rfl, ?_, ?_, hcolors.trans (by decide +kernel), ?_⟩
  · rw [hrecords.heading]
    decide
  · rw [hrecords.history]
    decide +kernel
  · rw [htags, List.length_map, hrecords.segments]
    decide +kernel

end LogoLang
