import LogoLang.Proofs.Program.Aligned
import Mathlib.Data.List.Forall2

set_option autoImplicit false

/-! # Where the lines of a program go

Nothing is lost, doubled or misplaced by assembly. A body is written out as a row of pieces, in
which a block is its header, the pieces of its body and a close mark, and the pieces of an accepted
program are matched with its lines one to one and in order (`parseProgram_layout`). The proof goes
through the lines backwards: `Fills` says what the lines that are still to come add to the bodies
that are open. -/

namespace LogoLang

/-! ## Pieces -/

/-- A piece of a body that takes up one line. -/
inductive Piece where
  | stmt (stmt : Stmt)
  | close

mutual

/-- The pieces of a statement. -/
def Stmt.pieces : Stmt → List Piece
  | .block kind condition body line =>
    .stmt (.block kind condition [] line) :: (bodyPieces body ++ [.close])
  | .assign kind target value line => [.stmt (.assign kind target value line)]
  | .pen down line => [.stmt (.pen down line)]
  | .command cmd value line => [.stmt (.command cmd value line)]
  | .call name args line => [.stmt (.call name args line)]
  | .comment text line => [.stmt (.comment text line)]

/-- The pieces of a body. -/
def bodyPieces : List Stmt → List Piece
  | [] => []
  | stmt :: rest => stmt.pieces ++ bodyPieces rest

end

theorem bodyPieces_append (body more : List Stmt) :
    bodyPieces (body ++ more) = bodyPieces body ++ bodyPieces more := by
  induction body with
  | nil => rfl
  | cons stmt rest ih => rw [List.cons_append, bodyPieces, bodyPieces, ih, List.append_assoc]

theorem bodyPieces_concat (body : List Stmt) (stmt : Stmt) :
    bodyPieces (body ++ [stmt]) = bodyPieces body ++ stmt.pieces := by
  rw [bodyPieces_append, bodyPieces, bodyPieces, List.append_nil]

theorem Stmt.pieces_of_leaf {stmt : Stmt} (hleaf : stmt.isBlock = false) :
    stmt.pieces = [.stmt stmt] := by
  cases stmt with
  | block kind condition body line => exact absurd hleaf (by simp [Stmt.isBlock])
  | assign | pen | command | call | comment => rw [Stmt.pieces]

theorem BlockHeader.pieces_close (header : BlockHeader) (body : List Stmt) :
    (header.close body).pieces = .stmt (header.close []) :: (bodyPieces body ++ [.close]) := by
  rw [BlockHeader.close, Stmt.pieces]
  rfl

/-- The pieces of the innermost bodies that are open, one for each pending header and one more. -/
def openPieces : List BlockHeader → List (List Stmt) → List Piece
  | _, [] => []
  | [], body :: _ => bodyPieces body
  | header :: pending, body :: outer =>
    openPieces pending outer ++ .stmt (header.close []) :: bodyPieces body

theorem openPieces_concat (pending : List BlockHeader) (body : List Stmt) (outer : List (List Stmt))
    (stmt : Stmt) :
    openPieces pending ((body ++ [stmt]) :: outer) =
      openPieces pending (body :: outer) ++ stmt.pieces := by
  cases pending with
  | nil => exact bodyPieces_concat body stmt
  | cons header pending =>
    rw [openPieces, openPieces, bodyPieces_concat, List.append_assoc, List.cons_append]

theorem openPieces_push (header : BlockHeader) (pending : List BlockHeader)
    (scopes : List (List Stmt)) :
    openPieces (header :: pending) ([] :: scopes) =
      openPieces pending scopes ++ [.stmt (header.close [])] := by
  rw [openPieces, bodyPieces]

theorem openPieces_close (header : BlockHeader) (pending : List BlockHeader)
    (inner body : List Stmt) (outer : List (List Stmt)) :
    openPieces pending ((body ++ [header.close inner]) :: outer) =
      openPieces (header :: pending) (inner :: body :: outer) ++ [.close] := by
  rw [openPieces_concat, BlockHeader.pieces_close, openPieces, List.append_assoc, List.cons_append]

/-! ## Lines -/

/-- Whether a line starts a declaration. -/
def isHeadingLine (line : Text) : Bool := firstWord line.trim = toKeyword

/-- Whether a line ends a declaration. -/
def isEndingLine (line : Text) : Bool := firstWord line.trim = endKeyword

/-- Whether there is anything on a line. -/
def isWritten (line : Text) : Bool := line.trim ≠ []

theorem isHeadingLine_eq_false {line : Text} (h : LineClass.of line ≠ .heading) :
    isHeadingLine line = false :=
  decide_eq_false (mt LineClass.of_eq_heading_iff.2 h)

theorem isEndingLine_eq_false {line : Text} (h : LineClass.of line ≠ .ending) :
    isEndingLine line = false :=
  decide_eq_false (mt LineClass.of_eq_ending_iff.2 h)

/-- The lines before the next `END` that have anything on them. -/
def linesToEnd (lines : List (Text × Nat)) : List (Text × Nat) :=
  (lines.takeWhile (!isEndingLine ·.1)).filter (isWritten ·.1)

/-- The `TO` lines, each with the lines between it and the next `END` that have anything on them. -/
def declarations : List (Text × Nat) → List (Text × List (Text × Nat))
  | [] => []
  | (line, _) :: rest =>
    if isHeadingLine line then (line, linesToEnd rest) :: declarations rest else declarations rest

/-- The lines outside all pairs of `TO` and `END` that have anything on them. The first argument
    says whether the lines start inside such a pair. -/
def linesOutside : Bool → List (Text × Nat) → List (Text × Nat)
  | _, [] => []
  | true, (line, _) :: rest => linesOutside (!isEndingLine line) rest
  | false, (line, index) :: rest =>
    if isHeadingLine line then linesOutside true rest
    else if isWritten line then (line, index) :: linesOutside false rest
    else linesOutside false rest

/-- A piece matches a line: a close mark is a right bracket, and a statement is what the line stands
    for, the body of a block left out. -/
def Piece.Matches : Piece → Text × Nat → Prop
  | .close, (line, _) => line.trim = [']']
  | .stmt s, (line, index) => StandsFor line index s

/-- A function is declared by a heading and by the lines of its body. -/
def DeclaredBy (entry : Text × Function) (declaration : Text × List (Text × Nat)) : Prop :=
  (∃ span c, readDecl? declaration.1 = some (⟨.named entry.1 span, entry.2.params⟩, c)) ∧
    List.Forall₂ Piece.Matches (bodyPieces entry.2.body) declaration.2

/-! ## What the lines to come add -/

/-- What the lines that are still to come add to an assembly: the functions that they complete, in
    order, and the rest of the top-level body `main`. If a declaration is open, its function comes
    first. -/
inductive Fills (main : List Stmt) (lines : List (Text × Nat)) (s : Assembly) :
    List (Text × Function) → Prop where
  | outside {functions : List (Text × Function)} {pieces : List Piece} (hdecl : s.decl = none)
      (hfunctions : List.Forall₂ DeclaredBy functions (declarations lines))
      (hmain : bodyPieces main = openPieces s.pending s.scopes ++ pieces)
      (hpieces : List.Forall₂ Piece.Matches pieces (linesOutside false lines)) :
      Fills main lines s functions
  | inside {name : Text} {span : Span} {params : List Label} {body top : List Stmt}
      {functions : List (Text × Function)} {bodyRest pieces : List Piece}
      (hdecl : s.decl = some ⟨.named name span, params⟩)
      (hbody : bodyPieces body = openPieces s.pending s.scopes ++ bodyRest)
      (hbodyRest : List.Forall₂ Piece.Matches bodyRest (linesToEnd lines))
      (hfunctions : List.Forall₂ DeclaredBy functions (declarations lines))
      (htop : s.scopes.drop (s.pending.length + 1) = [top])
      (hmain : bodyPieces main = bodyPieces top ++ pieces)
      (hpieces : List.Forall₂ Piece.Matches pieces (linesOutside true lines)) :
      Fills main lines s ((name, ⟨params, body⟩) :: functions)

section Fills

variable {main : List Stmt} {line : Text} {index : Nat} {rest : List (Text × Nat)} {s t : Assembly}
  {functions : List (Text × Function)}

theorem linesToEnd_cons (hend : isEndingLine line = false) :
    linesToEnd ((line, index) :: rest) =
      if isWritten line then (line, index) :: linesToEnd rest else linesToEnd rest := by
  simp only [linesToEnd, List.takeWhile_cons, hend, Bool.not_false, if_true, List.filter_cons]

theorem linesToEnd_of_isEndingLine (hend : isEndingLine line = true) :
    linesToEnd ((line, index) :: rest) = [] := by
  simp only [linesToEnd, List.takeWhile_cons, hend, Bool.not_true, Bool.false_eq_true, if_false,
    List.filter_nil]

/-- A blank line adds nothing. -/
theorem Fills.cons_of_blank (htrim : line.trim = []) (h : Fills main rest s functions) :
    Fills main ((line, index) :: rest) s functions := by
  have hword : firstWord line.trim = [] := by rw [htrim]; rfl
  have hto : isHeadingLine line = false := by rw [isHeadingLine, hword]; rfl
  have hend : isEndingLine line = false := by rw [isEndingLine, hword]; rfl
  have hwritten : isWritten line = false := by simp [isWritten, htrim]
  cases h with
  | outside hdecl hfunctions hmain hpieces =>
    refine .outside hdecl ?_ hmain ?_
    · simpa [declarations, hto] using hfunctions
    · simpa [linesOutside, hto, hwritten] using hpieces
  | inside hdecl hbody hbodyRest hfunctions htop hmain hpieces =>
    refine .inside hdecl hbody ?_ ?_ htop hmain ?_
    · simpa [linesToEnd_cons hend, hwritten] using hbodyRest
    · simpa [declarations, hto] using hfunctions
    · simpa [linesOutside, hend] using hpieces

/-- A line that matches a piece adds it to the innermost body. -/
theorem Fills.cons_of_piece (h : Fills main rest t functions) {piece : Piece}
    (htrim : line.trim ≠ []) (hto : LineClass.of line ≠ .heading)
    (hend : LineClass.of line ≠ .ending) (hpiece : piece.Matches (line, index))
    (hdecl : t.decl = s.decl)
    (hopen : openPieces t.pending t.scopes = openPieces s.pending s.scopes ++ [piece])
    (hunder : t.scopes.drop (t.pending.length + 1) = s.scopes.drop (s.pending.length + 1)) :
    Fills main ((line, index) :: rest) s functions := by
  have hto := isHeadingLine_eq_false hto
  have hend := isEndingLine_eq_false hend
  have hwritten : isWritten line = true := by simpa [isWritten] using htrim
  cases h with
  | outside hnone hfunctions hmain hpieces =>
    rw [hopen, List.append_assoc, List.singleton_append] at hmain
    refine .outside (hdecl ▸ hnone) ?_ hmain ?_
    · simpa [declarations, hto] using hfunctions
    · simp only [linesOutside, hto, hwritten]
      exact .cons hpiece hpieces
  | inside hsome hbody hbodyRest hfunctions htop hmain hpieces =>
    rw [hopen, List.append_assoc, List.singleton_append] at hbody
    rw [hdecl] at hsome
    refine .inside hsome hbody ?_ ?_ ?_ hmain ?_
    · simp only [linesToEnd_cons hend, hwritten]
      exact .cons hpiece hbodyRest
    · simpa [declarations, hto] using hfunctions
    · rw [← hunder]
      exact htop
    · simpa [linesOutside, hend] using hpieces

/-- A heading completes the function of which the lines to come fill the body. -/
theorem Fills.cons_of_heading {name : Text} {span : Span} {params : List Label} {c : Cursor}
    {table : FunctionTable} {scopes : List (List Stmt)} {headings more : List (Nat × Decl)}
    (hclass : LineClass.of line = .heading)
    (hread : readDecl? line = some (⟨.named name span, params⟩, c))
    (h : Fills main rest ⟨table, [], [] :: scopes, some ⟨.named name span, params⟩, more⟩
      functions) :
    Fills main ((line, index) :: rest) ⟨table, [], scopes, none, headings⟩ functions := by
  have hto : isHeadingLine line = true := decide_eq_true (LineClass.of_eq_heading_iff.1 hclass)
  cases h with
  | outside hdecl => exact absurd hdecl (by simp)
  | @inside _ _ _ body _ functions _ _ hdecl hbody hbodyRest hfunctions htop hmain hpieces =>
    cases hdecl
    cases htop
    -- the body starts from nothing, so all of it comes from the lines up to `END`
    have hdeclared : DeclaredBy (name, ⟨params, body⟩) (line, linesToEnd rest) := by
      refine ⟨⟨span, c, hread⟩, ?_⟩
      rw [hbody]
      exact hbodyRest
    refine .outside rfl ?_ hmain ?_
    · rw [declarations, if_pos hto]
      exact .cons hdeclared hfunctions
    · rw [linesOutside, if_pos hto]
      exact hpieces

/-- The end of a declaration completes its body; the lines to come belong to the top level. -/
theorem Fills.cons_of_ending {name : Text} {span : Span} {params : List Label}
    {body top : List Stmt} {table more : FunctionTable} {headings : List (Nat × Decl)}
    (hclass : LineClass.of line = .ending)
    (h : Fills main rest ⟨more, [], [top], none, headings⟩ functions) :
    Fills main ((line, index) :: rest)
      ⟨table, [], [body, top], some ⟨.named name span, params⟩, headings⟩
      ((name, ⟨params, body⟩) :: functions) := by
  have hend : isEndingLine line = true := decide_eq_true (LineClass.of_eq_ending_iff.1 hclass)
  have hto : isHeadingLine line = false := isHeadingLine_eq_false (by simp [hclass])
  cases h with
  | inside hdecl => exact absurd hdecl (by simp)
  | outside hdecl hfunctions hmain hpieces =>
    refine .inside rfl (List.append_nil _).symm ?_ ?_ rfl hmain ?_
    · rw [linesToEnd_of_isEndingLine hend]
      exact .nil
    · rw [declarations, if_neg (by simp [hto])]
      exact hfunctions
    · rw [linesOutside, hend]
      exact hpieces

/-- **A line adds to the open bodies what it stands for**, and it completes a function if it ends a
    declaration. -/
theorem Fills.cons {a a₁ : Balance} {s₁ : Assembly} (halign : Aligned a s)
    (hlevel : s.pending.length = a.blocks.length) (hstep : LockStep index line a s a₁ s₁)
    (h : Fills main rest s₁ functions) :
    ∃ functions', Fills main ((line, index) :: rest) s functions' ∧
      s.table.entries ++ functions' = s₁.table.entries ++ functions := by
  have hscopes := halign.scopes
  cases hstep with
  | blank htrim => exact ⟨functions, h.cons_of_blank htrim, rfl⟩
  | @leaf stmt _ _ pending body outer _ _ hclass htrim hstands hleaf =>
    have hpiece : Piece.Matches (.stmt stmt) (line, index) := hstands
    have hopen := openPieces_concat pending body outer stmt
    rw [Stmt.pieces_of_leaf hleaf] at hopen
    exact ⟨functions,
      h.cons_of_piece htrim (by simp [hclass]) (by simp [hclass]) hpiece rfl hopen rfl, rfl⟩
  | @opener kind condition _ _ _ pending scopes _ _ hclass htrim hstands =>
    have hpiece : Piece.Matches (.stmt (.block kind condition [] index)) (line, index) := hstands
    have hopen := openPieces_push ⟨kind, condition, index⟩ pending scopes
    exact ⟨functions,
      h.cons_of_piece htrim (by simp [hclass]) (by simp [hclass]) hpiece rfl hopen rfl, rfl⟩
  | @close _ header _ _ _ pending inner body outer _ _ hclass htrim =>
    have hpiece : Piece.Matches .close (line, index) := htrim
    have hopen := openPieces_close header pending inner body outer
    exact ⟨functions, h.cons_of_piece (by simp [htrim]) (by simp [hclass]) (by simp [hclass])
      hpiece rfl hopen rfl, rfl⟩
  | @heading name span params c table pending scopes decl _ hclass hread hnew =>
    -- the check lets a heading through only where nothing is open
    have hpending : pending = [] := List.length_eq_zero_iff.1 hlevel
    have hdecl : decl = none := by
      simpa using halign.decl
    subst hpending hdecl
    exact ⟨functions, h.cons_of_heading hclass hread, rfl⟩
  | @ending _ name span params table pending body outer _ hclass hnew =>
    -- no block is open in the declaration, so the top level lies right below its body
    have hpending : pending = [] := List.length_eq_zero_iff.1 hlevel
    subst hpending
    obtain ⟨top, rfl⟩ : ∃ top, outer = [top] := List.length_eq_one_iff.1 (Nat.succ.inj hscopes)
    exact ⟨(name, ⟨params, body⟩) :: functions, h.cons_of_ending hclass, by simp⟩

end Fills

/-! ## Whole programs -/

/-- As many blocks are open in both phases. -/
theorem LockStep.level {index : Nat} {line : Text} {a a' : Balance} {s s' : Assembly}
    (hstep : LockStep index line a s a' s') (hlevel : s.pending.length = a.blocks.length) :
    s'.pending.length = a'.blocks.length := by
  cases hstep with
  | blank _ | leaf _ _ _ _ | heading _ _ _ | ending _ _ => exact hlevel
  | opener _ _ _ => exact congrArg Nat.succ hlevel
  | close _ _ => exact Nat.succ.inj hlevel

/-- From the end of the lines backwards, the lines fill what is open before them. -/
theorem LockSteps.fills {main : List Stmt} {index : Nat} {lines : List Text} {a a' : Balance}
    {s s' : Assembly} (h : LockSteps index lines a s a' s') (halign : Aligned a s)
    (hlevel : s.pending.length = a.blocks.length) (hend : Fills main [] s' []) :
    ∃ functions, Fills main (lines.zipIdx index) s functions ∧
      s.table.entries ++ functions = s'.table.entries := by
  -- the induction runs from the last line to the first: regions are read off the lines to come
  induction h with
  | nil => exact ⟨[], hend, List.append_nil _⟩
  | cons hstep _ ih =>
    obtain ⟨functions, hfills, htable⟩ := ih (halign.lockStep hstep) (hstep.level hlevel) hend
    obtain ⟨functions', hfills', htable'⟩ := hfills.cons halign hlevel hstep
    exact ⟨functions', hfills', htable'.trans htable⟩

/-- An accepted program has no hidden headers, since they would stay open. -/
theorem not_isHiddenHeader_of_accepted {lines : List Text} {s : Assembly}
    (ha : Balance.start.run 0 lines = .ok Balance.start)
    (hs : Assembly.start.run 0 lines = (s, none)) (hpending : s.pending = []) :
    ∀ line ∈ lines, isHiddenHeader line = false := by
  intro line hline
  have hcount := pending_length_of_runs ha hs
  simp only [hpending, Balance.start, Assembly.start, List.length_nil, Nat.zero_add] at hcount
  exact Bool.eq_false_iff.2 (List.countP_eq_zero.1 hcount.symm line hline)

theorem lockSteps_of_accepted {lines : List Text} {s : Assembly}
    (ha : Balance.start.run 0 lines = .ok Balance.start)
    (hs : Assembly.start.run 0 lines = (s, none)) (hpending : s.pending = []) :
    LockSteps 0 lines Balance.start Assembly.start Balance.start s :=
  lockSteps_of_runs (not_isHiddenHeader_of_accepted ha hs hpending) ha hs

/-- How a table accounts for the lines of a program: its functions are, in order, those of the `TO`
    lines, followed by the top level, with no name twice; the pieces of each body match the lines of
    its declaration one to one and in order, and those of the top level the lines outside all
    declarations. -/
structure LaidOut (lines : List Text) (table : FunctionTable) (functions : List (Text × Function))
    (main : List Stmt) : Prop where
  entries : table.entries = functions ++ [(mainName, ⟨[], main⟩)]
  distinct : table.names.Nodup
  declared : List.Forall₂ DeclaredBy functions (declarations lines.zipIdx)
  top : List.Forall₂ Piece.Matches (bodyPieces main) (linesOutside false lines.zipIdx)

/-- **Assembly loses, doubles and misplaces nothing**: every accepted program is laid out in its
    table. -/
theorem parseProgram_layout {lines : List Text} {table : FunctionTable}
    (h : parseProgram lines = .ok table) :
    ∃ functions main, LaidOut lines table functions main := by
  obtain ⟨hcheck, hassemble⟩ := parseProgram_eq_ok_iff.1 h
  rw [checkBalance_eq_ok_iff_run] at hcheck
  obtain ⟨s, hrun, hfinish⟩ := assemble_eq_ok_iff.1 hassemble
  obtain ⟨main, outer, hdecl, hpending, hscopes, hnew, rfl⟩ := Assembly.finish_eq_ok_iff.1 hfinish
  have hend : Fills main [] s [] := by
    refine .outside hdecl .nil ?_ .nil
    rw [hpending, hscopes, openPieces, List.append_nil]
  obtain ⟨functions, hfills, htable⟩ :=
    (lockSteps_of_accepted hcheck hrun hpending).fills aligned_start rfl hend
  have hdistinct := (aligned_start.runs hcheck hrun).distinct
  cases hfills with
  | inside hdecl => exact absurd hdecl (by simp [Assembly.start])
  | outside _ hfunctions hmain hpieces =>
    refine ⟨functions, main, ?_, FunctionTable.nodup_append _ hdistinct hnew, hfunctions, ?_⟩
    · rw [← htable]
      rfl
    · rw [hmain]
      exact hpieces

/-- A block in a declaration, between lines of the top level. -/
theorem laidOut_block_in_declaration :
    ∃ table, parseProgram ["PENUP".toList, "TO f \"n".toList, "IF :n [".toList, "PENDOWN".toList,
        "]".toList, "END".toList, "f :n".toList] = .ok table ∧
      ∃ functions main, LaidOut ["PENUP".toList, "TO f \"n".toList, "IF :n [".toList,
        "PENDOWN".toList, "]".toList, "END".toList, "f :n".toList] table functions main :=
  ⟨_, rfl, parseProgram_layout rfl⟩

end LogoLang
