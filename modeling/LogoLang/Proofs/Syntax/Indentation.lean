import LogoLang.Proofs.Syntax.Progress

set_option autoImplicit false

/-! # Reading does not look back

What is read at a position depends on the text from there on. A text put before a line therefore moves
the places of what is read and the position after it, and changes nothing else: `LooksAhead` says so of
a reader, and the readers of expressions and labels have it. A reader of whole lines starts at the
beginning of its line, so that only spaces can be put before it (`readStmt?_indent`,
`readDecl?_indent`). A part that is missing there points at the character before it; a command word
always stands before such a part, so that the place is never cut off at the start of the line. -/

namespace LogoLang

/-! ## Moved trees and cursors -/

/-- A label farther along the line. -/
def Label.shift (distance : Nat) : Label → Label
  | .named name span => .named name (span.shift distance)
  | .malformed flaw => .malformed (flaw.shift distance)

mutual

/-- A statement with all its places farther along the line. -/
def Stmt.shift (distance : Nat) : Stmt → Stmt
  | .block kind condition body line =>
    .block kind (condition.shift distance) (shiftBody distance body) line
  | .assign kind target value line =>
    .assign kind (target.shift distance) (value.shift distance) line
  | .pen down line => .pen down line
  | .command cmd value line => .command cmd (value.shift distance) line
  | .call name args line => .call (name.shift distance) (args.map (Expr.shift distance)) line
  | .comment text line => .comment text line

/-- The statements of a body with all their places farther along the line. -/
def shiftBody (distance : Nat) : List Stmt → List Stmt
  | [] => []
  | stmt :: rest => stmt.shift distance :: shiftBody distance rest

end

/-- A heading farther along the line. -/
def Decl.shift (distance : Nat) (decl : Decl) : Decl :=
  ⟨decl.name.shift distance, decl.params.map (Label.shift distance)⟩

/-- The cursor before the same text when that text stands farther along the line. -/
def Cursor.shift (distance : Nat) (c : Cursor) : Cursor := ⟨c.pos + distance, c.rest⟩

/-- What was read and the cursor after it, both farther along the line. -/
def shiftRead {α : Type} (move : Nat → α → α) (distance : Nat) (read : α × Cursor) : α × Cursor :=
  (move distance read.1, read.2.shift distance)

theorem Label.shift_ofName (distance : Nat) (name : Text) (span : Span) :
    (Label.ofName name span).shift distance = .ofName name (span.shift distance) := by
  rw [Label.ofName, Label.ofName, apply_ite (Label.shift distance)]
  rfl

section Cursors

variable (distance : Nat) (c : Cursor)

@[simp]
theorem Cursor.rest_shift : (c.shift distance).rest = c.rest := rfl

@[simp]
theorem Cursor.advance_shift (count : Nat) :
    (c.shift distance).advance count = (c.advance count).shift distance := by
  simp only [Cursor.advance, Cursor.shift, Nat.add_right_comm]

@[simp]
theorem Cursor.skipSpaces_shift : (c.shift distance).skipSpaces = c.skipSpaces.shift distance :=
  c.advance_shift distance _

@[simp]
theorem Cursor.after_shift (length : Nat) :
    (c.shift distance).after length = (c.after length).shift distance := by
  rw [Cursor.after, Cursor.advance_shift, Cursor.skipSpaces_shift, Cursor.after]

@[simp]
theorem Cursor.spanOf_shift (length : Nat) :
    (c.shift distance).spanOf length = (c.spanOf length).shift distance := rfl

@[simp]
theorem Cursor.wordUntil_shift (stops : Text) :
    (c.shift distance).wordUntil stops = c.wordUntil stops := rfl

end Cursors

/-- A position of a text, when other text stands before it. -/
theorem Cursor.at_append (before text : Text) (pos : Nat) :
    Cursor.at (before ++ text) (before.length + pos) = (Cursor.at text pos).shift before.length := by
  rw [Cursor.at, List.drop_length_add_append, Cursor.at, Cursor.shift, Nat.add_comm]

/-- Spaces before a line are skipped with those that it starts with. -/
theorem Cursor.skipSpaces_indent {indent : Text} (text : Text)
    (hspaces : ∀ x ∈ indent, isSpace x = true) :
    (Cursor.start (indent ++ text)).skipSpaces =
      (Cursor.start text).skipSpaces.shift indent.length := by
  simp only [Cursor.skipSpaces, Cursor.start, List.takeWhile_append_of_pos hspaces, Cursor.advance,
    List.length_append, List.drop_length_add_append, Cursor.shift, Cursor.mk.injEq, and_true]
  omega

/-! ## Readers that look ahead only -/

/-- A reader that looks at nothing but the text from the cursor on: farther along a line it reads the
    same, with the places moved. -/
def LooksAhead {α : Type} (move : Nat → α → α) (read? : Cursor → Option (α × Cursor)) : Prop :=
  ∀ distance c, read? (c.shift distance) = (read? c).map (shiftRead move distance)

section LooksAhead

variable {α : Type} {move : Nat → α → α} {read? other? : Cursor → Option (α × Cursor)}

theorem LooksAhead.eq_none (h : LooksAhead move read?) {c : Cursor} (hread : read? c = none)
    (distance : Nat) : read? (c.shift distance) = none := by
  rw [h, hread, Option.map_none]

theorem LooksAhead.eq_some (h : LooksAhead move read?) {c : Cursor} {read : α × Cursor}
    (hread : read? c = some read) (distance : Nat) :
    read? (c.shift distance) = some (shiftRead move distance read) := by
  rw [h, hread, Option.map_some]

theorem LooksAhead.or (h : LooksAhead move read?) (hother : LooksAhead move other?) :
    LooksAhead move fun c => (read? c).or (other? c) := by
  intro distance c
  simp only [h distance c, hother distance c, Option.map_or]

/-- Text before a line does not change what is read on the line. -/
theorem LooksAhead.at_append (h : LooksAhead move read?) (before text : Text) (pos : Nat) :
    read? (.at (before ++ text) (before.length + pos)) =
      (read? (.at text pos)).map (shiftRead move before.length) := by
  rw [Cursor.at_append, h]

/-- What stands for something that is not there has to move with the cursor. -/
theorem LooksAhead.getD (h : LooksAhead move read?) {distance : Nat} {c : Cursor} {a a' : α}
    (hdefault : a' = move distance a) :
    (read? (c.shift distance)).getD (a', c.shift distance) =
      shiftRead move distance ((read? c).getD (a, c)) := by
  rw [h, hdefault]
  cases read? c <;> rfl

end LooksAhead

/-! ## Leaves -/

theorem Cursor.keyword?_shift (keyword : Text) (distance : Nat) (c : Cursor) :
    (c.shift distance).keyword? keyword =
      (c.keyword? keyword).map (shiftRead Span.shift distance) := by
  simp only [Cursor.keyword?, Cursor.skipSpaces_shift, Cursor.rest_shift, Cursor.spanOf_shift,
    Cursor.after_shift, apply_ite (Option.map _), Option.map_some, Option.map_none]
  rfl

theorem Cursor.oneOf?_shift {α : Type} (keywords : List (Text × α)) (distance : Nat) (c : Cursor) :
    (c.shift distance).oneOf? keywords =
      (c.oneOf? keywords).map (Prod.map id (shiftRead Span.shift distance)) := by
  induction keywords with
  | nil => rfl
  | cons entry rest ih =>
    rw [Cursor.oneOf?, Cursor.oneOf?, Cursor.keyword?_shift]
    cases c.keyword? entry.1 with
    | some result => rfl
    | none => exact ih

theorem looksAhead_readTruth? : LooksAhead Expr.shift readTruth? := by
  intro distance c
  rw [readTruth?, readTruth?, Cursor.oneOf?_shift, Option.map_map, Option.map_map]
  rfl

theorem looksAhead_readNumberLiteral? : LooksAhead Expr.shift readNumberLiteral? := by
  intro distance c
  simp only [readNumberLiteral?, Cursor.skipSpaces_shift, Cursor.rest_shift, Cursor.spanOf_shift,
    Cursor.after_shift]
  split
  · next rest hrest =>
    rw [apply_ite (Option.map _)]
    cases singleOfLiteral? (rest.takeWhile isNumberChar) <;> rfl
  · rfl

theorem looksAhead_readVariable? : LooksAhead Expr.shift readVariable? := by
  intro distance c
  simp only [readVariable?, Cursor.skipSpaces_shift, Cursor.rest_shift, Cursor.spanOf_shift,
    Cursor.after_shift]
  split
  · next rest hrest =>
    rw [apply_ite (Option.map _)]
    cases isValidName (rest.takeWhile (!variableStops.contains ·)) <;> rfl
  · rfl

theorem looksAhead_readQuery? : LooksAhead Expr.shift readQuery? := by
  intro distance c
  rw [readQuery?, readQuery?, Cursor.oneOf?_shift, Option.map_map, Option.map_map]
  rfl

theorem looksAhead_readUnexpected? : LooksAhead Expr.shift readUnexpected? := by
  intro distance c
  simp only [readUnexpected?, Cursor.skipSpaces_shift, Cursor.wordUntil_shift, Cursor.spanOf_shift,
    Cursor.after_shift, apply_ite (Option.map _), Option.map_some, Option.map_none]
  rfl

theorem looksAhead_readLeafBefore? : LooksAhead Expr.shift readLeafBefore? :=
  looksAhead_readTruth?.or (looksAhead_readNumberLiteral?.or looksAhead_readVariable?)

theorem looksAhead_readLeafAfter? : LooksAhead Expr.shift readLeafAfter? :=
  looksAhead_readQuery?.or looksAhead_readUnexpected?

/-! ## Expressions -/

/-- A missing operand is an empty place at the cursor, which moves with it. -/
theorem orMissing_shift (distance : Nat) (c : Cursor) (read? : Option (Expr × Cursor)) :
    orMissing (c.shift distance) (read?.map (shiftRead Expr.shift distance)) =
      shiftRead Expr.shift distance (orMissing c read?) := by
  cases read? <;> rfl

/-- **Reading an expression goes the same way farther along the line**, call by call. -/
theorem Cursor.Returns.shift {c : Cursor} {result : Option (Expr × Cursor)} (h : c.Returns result)
    (distance : Nat) :
    (c.shift distance).Returns (result.map (shiftRead Expr.shift distance)) := by
  induction h with
  | before hleaf => exact .before (looksAhead_readLeafBefore?.eq_some hleaf distance)
  | @binary c c₁ op span left? right? left right hbefore hop _ hmissing _ hmissing' ihleft ihright =>
    have hop' : (c.shift distance).oneOf? operatorKeywords =
        some (op, span.shift distance, c₁.shift distance) := by
      rw [Cursor.oneOf?_shift, hop]
      rfl
    have hreturns := Cursor.Returns.binary (looksAhead_readLeafBefore?.eq_none hbefore distance) hop'
      ihleft (by rw [orMissing_shift, hmissing]) ihright
      (by rw [shiftRead, orMissing_shift, hmissing'])
    -- the place of the operator goes from its word to the last end, all of which are moved
    have hcover := Span.shift_cover distance span [left.1.span, right.1.span]
    rw [List.map_cons, List.map_singleton] at hcover
    simp only [shiftRead, Expr.span_shift, hcover] at hreturns
    exact hreturns
  | after hbefore hop =>
    rw [← looksAhead_readLeafAfter?]
    refine .after (looksAhead_readLeafBefore?.eq_none hbefore distance) ?_
    rw [Cursor.oneOf?_shift, hop, Option.map_none]

theorem looksAhead_readExpr? : LooksAhead Expr.shift readExpr? := by
  intro distance c
  have hreturns : c.Returns (readExpr? c) := Cursor.returns_iff.2 rfl
  exact (Cursor.returns_iff.1 (hreturns.shift distance)).symm

/-! ## Labels -/

theorem looksAhead_readUnquoted? : LooksAhead Label.shift readUnquoted? := by
  intro distance c
  simp only [readUnquoted?, Cursor.wordUntil_shift, Cursor.spanOf_shift, Cursor.after_shift,
    apply_ite (Option.map _), Option.map_some, Option.map_none]
  rfl

theorem looksAhead_readTarget? : LooksAhead Label.shift readTarget? := by
  intro distance c
  simp only [readTarget?, Cursor.skipSpaces_shift, Cursor.rest_shift, Cursor.spanOf_shift,
    Cursor.after_shift, looksAhead_readUnquoted? distance c.skipSpaces]
  split
  · rw [apply_ite (Option.map _), Option.map_some, shiftRead, Label.shift_ofName]
  · rfl

theorem looksAhead_readFunctionName? : LooksAhead Label.shift readFunctionName? := by
  intro distance c
  simp only [readFunctionName?, Cursor.skipSpaces_shift, Cursor.wordUntil_shift,
    Cursor.spanOf_shift, Cursor.after_shift, apply_ite (Option.map _), Option.map_some,
    Option.map_none, shiftRead, Label.shift_ofName]

/-! ## Loops -/

section Loops

variable {α : Type} {move : Nat → α → α} {read? : Cursor → Option (α × Cursor)} {c after : Cursor}
  {items : List α}

theorem Repeats.shift (hread : LooksAhead move read?) (h : Repeats read? c items after)
    (distance : Nat) :
    Repeats read? (c.shift distance) (items.map (move distance)) (after.shift distance) := by
  induction h with
  | stop hnone => exact .stop (hread.eq_none hnone distance)
  | next hfirst _ ih => exact .next (hread.eq_some hfirst distance) ih

/-- A loop goes one way only, so that the rounds of two loops need not be counted to compare them. -/
theorem Repeats.unique {items' : List α} {after' : Cursor} (h : Repeats read? c items after)
    (h' : Repeats read? c items' after') : (items, after) = (items', after') := by
  induction h generalizing items' with
  | stop hnone =>
    cases h' with
    | stop _ => rfl
    | next hfirst _ => rw [hnone] at hfirst; cases hfirst
  | next hfirst _ ih =>
    cases h' with
    | stop hnone => rw [hnone] at hfirst; cases hfirst
    | next hfirst' hrest' =>
      rw [hfirst] at hfirst'
      cases hfirst'
      cases ih hrest'
      rfl

end Loops

theorem readExprs_shift (distance : Nat) (c : Cursor) :
    readExprs (c.shift distance) =
      shiftRead (fun distance => List.map (Expr.shift distance)) distance (readExprs c) :=
  (repeats_readExprs _).unique ((repeats_readExprs c).shift looksAhead_readExpr? distance)

theorem readParams_shift (distance : Nat) (c : Cursor) :
    readParams (c.shift distance) =
      shiftRead (fun distance => List.map (Label.shift distance)) distance (readParams c) :=
  (repeats_readParams _).unique ((repeats_readParams c).shift looksAhead_readTarget? distance)

/-! ## Statements and headings -/

section Lines

variable {c : Cursor}

/-- The character before a missing part moves with it, if there is one. -/
theorem missingPart_shift (kind : ErrorKind) (distance : Nat) (hpos : 0 < c.pos) :
    missingPart kind (c.shift distance) = (missingPart kind c).shift distance := by
  simp only [missingPart, Cursor.shift, Flaw.shift, Span.shift, Flaw.mk.injEq, Span.mk.injEq,
    and_true, true_and]
  omega

theorem readOperand_shift (distance : Nat) (hpos : 0 < c.pos) :
    readOperand (c.shift distance) = shiftRead Expr.shift distance (readOperand c) :=
  looksAhead_readExpr?.getD (congrArg Expr.malformed (missingPart_shift _ distance hpos))

theorem readTarget_shift (distance : Nat) (hpos : 0 < c.pos) :
    readTarget (c.shift distance) = shiftRead Label.shift distance (readTarget c) :=
  looksAhead_readTarget?.getD (congrArg Label.malformed (missingPart_shift _ distance hpos))

theorem StmtForm.read_shift (form : StmtForm) (line distance : Nat) (hpos : 0 < c.pos) :
    form.read (c.shift distance) line = shiftRead Stmt.shift distance (form.read c line) := by
  cases form with
  | block kind =>
    simp only [StmtForm.read, readOperand_shift distance hpos]
    rfl
  | assign kind =>
    -- the value is looked for where the target ends, or where it was missing
    have hpos' := Nat.lt_of_lt_of_le hpos (readsLabel_readTarget hpos).moves.pos_le
    simp only [StmtForm.read, readTarget_shift distance hpos]
    simp only [shiftRead, readOperand_shift distance hpos']
    rfl
  | pen down => rfl
  | command cmd =>
    simp only [StmtForm.read, readOperand_shift distance hpos]
    rfl

theorem readCall?_shift (line distance : Nat) (c : Cursor) :
    readCall? (c.shift distance) line = (readCall? c line).map (shiftRead Stmt.shift distance) := by
  simp only [readCall?, looksAhead_readFunctionName? distance c, Option.map_map]
  congr 1
  funext result
  simp only [Function.comp, shiftRead, readExprs_shift]
  rfl

theorem readFunctionName?_skipSpaces (c : Cursor) :
    readFunctionName? c.skipSpaces = readFunctionName? c := by
  simp only [readFunctionName?, Cursor.skipSpaces_idem]

theorem readCall?_skipSpaces (c : Cursor) (line : Nat) :
    readCall? c.skipSpaces line = readCall? c line := by
  rw [readCall?, readCall?, readFunctionName?_skipSpaces]

end Lines

section Indentation

variable {indent : Text} (text : Text)

/-- **An indented line is read as the same statement farther along.** -/
theorem readStmt?_indent (index : Nat) (hspaces : ∀ x ∈ indent, isSpace x = true) :
    readStmt? (indent ++ text) index =
      (readStmt? text index).map (shiftRead Stmt.shift indent.length) := by
  have hform : (Cursor.start (indent ++ text)).oneOf? stmtKeywords =
      ((Cursor.start text).oneOf? stmtKeywords).map
        (Prod.map id (shiftRead Span.shift indent.length)) := by
    rw [← Cursor.oneOf?_skipSpaces, Cursor.skipSpaces_indent text hspaces, Cursor.oneOf?_shift,
      Cursor.oneOf?_skipSpaces]
  have hcall : readCall? (Cursor.start (indent ++ text)) index =
      (readCall? (Cursor.start text) index).map (shiftRead Stmt.shift indent.length) := by
    rw [← readCall?_skipSpaces, Cursor.skipSpaces_indent text hspaces,
      readCall?_shift, readCall?_skipSpaces]
  rw [readStmt?, readStmt?, hform, hcall]
  cases hread : (Cursor.start text).oneOf? stmtKeywords with
  | none => rfl
  | some result =>
    obtain ⟨form, span, c⟩ := result
    -- the command word is taken by now, so that a missing part has a character before it
    have htakes := Cursor.takes_of_oneOf? (fun entry hentry =>
      (stmtKeywords_nameChars entry hentry).1) hread
    exact congrArg some (form.read_shift index indent.length htakes.pos_pos)

/-- **An indented line is read as the same heading farther along.** -/
theorem readDecl?_indent (hspaces : ∀ x ∈ indent, isSpace x = true) :
    readDecl? (indent ++ text) = (readDecl? text).map (shiftRead Decl.shift indent.length) := by
  have hkey : (Cursor.start (indent ++ text)).keyword? toKeyword =
      ((Cursor.start text).keyword? toKeyword).map (shiftRead Span.shift indent.length) := by
    rw [← Cursor.keyword?_skipSpaces, Cursor.skipSpaces_indent text hspaces,
      Cursor.keyword?_shift, Cursor.keyword?_skipSpaces]
  rw [readDecl?, readDecl?, hkey]
  cases hread : (Cursor.start text).keyword? toKeyword with
  | none => rfl
  | some result =>
    obtain ⟨span, c⟩ := result
    have hpos := (Cursor.takes_of_keyword? (by decide) hread).pos_pos
    have hmissing : Label.malformed (missingPart .missingName (c.shift indent.length)) =
        (Label.malformed (missingPart .missingName c)).shift indent.length :=
      congrArg Label.malformed (missingPart_shift _ indent.length hpos)
    simp only [Option.map_some, shiftRead, looksAhead_readFunctionName?.getD hmissing,
      readParams_shift]
    rfl

end Indentation

/-- **Reading never looks back.** Text before a position moves the places of the expression, the target
or the function name that is read there, and spaces before a line those of its statement or heading,
missing parts included; nothing else changes. -/
theorem reading_never_looks_back :
    (∀ (before text : Text) (pos : Nat),
      readExpr? (.at (before ++ text) (before.length + pos)) =
          (readExpr? (.at text pos)).map (shiftRead Expr.shift before.length) ∧
        readTarget? (.at (before ++ text) (before.length + pos)) =
          (readTarget? (.at text pos)).map (shiftRead Label.shift before.length) ∧
        readFunctionName? (.at (before ++ text) (before.length + pos)) =
          (readFunctionName? (.at text pos)).map (shiftRead Label.shift before.length)) ∧
    ∀ (indent text : Text) (index : Nat), (∀ x ∈ indent, isSpace x = true) →
      readStmt? (indent ++ text) index =
          (readStmt? text index).map (shiftRead Stmt.shift indent.length) ∧
        readDecl? (indent ++ text) = (readDecl? text).map (shiftRead Decl.shift indent.length) :=
  ⟨fun before text pos => ⟨looksAhead_readExpr?.at_append before text pos,
      looksAhead_readTarget?.at_append before text pos,
      looksAhead_readFunctionName?.at_append before text pos⟩,
    fun _ text index hspaces => ⟨readStmt?_indent text index hspaces, readDecl?_indent text hspaces⟩⟩

/-- An indented line with both its parts missing, and an indented heading without a name. -/
theorem reading_never_looks_back_missing :
    (∀ x ∈ "\t ".toList, isSpace x = true) ∧
      readStmt? "\t MAKE".toList 0 = some (.assign .make (.malformed ⟨.missingOperand, ⟨5, 1⟩⟩)
        (.malformed ⟨.missingOperand, ⟨5, 1⟩⟩) 0, ⟨6, []⟩) ∧
      readDecl? "\t TO".toList = some (⟨.malformed ⟨.missingName, ⟨3, 1⟩⟩, []⟩, ⟨4, []⟩) :=
  have hspaces : ∀ x ∈ "\t ".toList, isSpace x = true := List.all_eq_true.1 rfl
  ⟨hspaces, (reading_never_looks_back.2 "\t ".toList "MAKE".toList 0 hspaces).1.trans rfl,
    (reading_never_looks_back.2 "\t ".toList "TO".toList 0 hspaces).2.trans rfl⟩

end LogoLang
