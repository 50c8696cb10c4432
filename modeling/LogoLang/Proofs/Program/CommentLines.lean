import LogoLang.Proofs.Program.Derivation
import LogoLang.Proofs.Syntax.Comments

set_option autoImplicit false

/-! # Comment lines

The comments of a program are its comment lines (`mem_comments_of_parseProgram`). With other texts in
these lines, a program is accepted as before, with the same table but for its comments
(`parseProgram_recomment`). -/

namespace LogoLang

/-! ## Where comments come from -/

/-- The text of a comment line. -/
def LineShape.comment? : LineShape → Option Text
  | .comment text => some text
  | .blank | .close | .heading | .ending | .statement => none

/-- The texts of the comments among numbered lines. -/
def lineComments (lines : NumberedLines) : List Text :=
  lines.filterMap fun line => (LineShape.of line.1).comment?

theorem lineComments_cons (line : Text) (index : Nat) (rest : NumberedLines) :
    lineComments ((line, index) :: rest) =
      (LineShape.of line).comment?.toList ++ lineComments rest := by
  rw [lineComments, List.filterMap_cons]
  cases (LineShape.of line).comment? <;> rfl

theorem lineComments_append (lines more : NumberedLines) :
    lineComments (lines ++ more) = lineComments lines ++ lineComments more :=
  List.filterMap_append

theorem comment?_of_readStmt? {text : Text} {index : Nat} {stmt : Stmt} {c : Cursor}
    (h : readStmt? text index = some (stmt, c)) : stmt.comment? = none := by
  simp only [readStmt?] at h
  cases hword : (Cursor.start text).oneOf? stmtKeywords with
  | some result =>
    obtain ⟨form, span, after⟩ := result
    rw [hword] at h
    cases form <;> cases h <;> rfl
  | none =>
    rw [hword] at h
    obtain ⟨result, _, hstmt⟩ := Option.map_eq_some_iff.1 h
    cases hstmt
    rfl

theorem LineRead.comments {line : Text} {index : Nat} {stmts : List Stmt}
    (h : LineRead line index stmts) : bodyComments stmts = (LineShape.of line).comment?.toList := by
  cases h with
  | blank hshape =>
    rw [hshape]
    rfl
  | comment hshape =>
    rw [hshape]
    rfl
  | statement hshape hread hleaf _ _ =>
    rw [bodyComments_leaf hleaf, hshape, comment?_of_readStmt? hread]
    rfl

/-- **The comments of a body are its comment lines**, in their order. -/
theorem BodyRead.comments {lines : NumberedLines} {body : List Stmt} (h : BodyRead lines body) :
    bodyComments body = lineComments lines := by
  induction h with
  | nil => rfl
  | line hline _ ih => rw [bodyComments_append, lineComments_cons, hline.comments, ih]
  | block hheader _ hclose _ ihInner ih =>
    rw [bodyComments_block, lineComments_cons, lineComments_append, lineComments_cons, hheader.shape,
      hclose, ihInner, ih]
    rfl

/-- The comments of a program are its comment lines. -/
theorem ProgramRead.comments {lines : NumberedLines} {functions : List (Text × Function)}
    {main : List Stmt} (h : ProgramRead lines functions main) :
    ((functions.flatMap fun entry => bodyComments entry.2.body) ++ bodyComments main).Perm
      (lineComments lines) := by
  induction h with
  | nil => exact .refl _
  | line hline _ ih =>
    rw [lineComments_cons, ← hline.comments, bodyComments_append]
    exact (List.perm_append_comm_assoc _ _ _).trans (ih.append_left _)
  | block hheader hinner hclose _ ih =>
    rw [lineComments_cons, lineComments_append, lineComments_cons, hheader.shape, hclose,
      ← hinner.comments, bodyComments_block]
    exact (List.perm_append_comm_assoc _ _ _).trans (ih.append_left _)
  | declaration hheading hinner hending _ ih =>
    rw [lineComments_cons, lineComments_append, lineComments_cons, hheading.shape, hending.shape,
      ← hinner.comments, List.flatMap_cons, List.append_assoc]
    exact ih.append_left _

theorem LineShape.comment?_eq_some_iff {shape : LineShape} {text : Text} :
    shape.comment? = some text ↔ shape = .comment text := by
  cases shape <;> simp [LineShape.comment?]

/-- The comments of an accepted program are its comment lines. -/
theorem mem_comments_of_parseProgram {lines : List Text} {table : FunctionTable}
    (h : parseProgram lines = .ok table) {text : Text} :
    text ∈ table.comments ↔ ∃ line ∈ lines, LineShape.of line = .comment text := by
  obtain ⟨functions, main, hread, _, rfl⟩ := parseProgram_eq_ok_iff_read.1 h
  rw [FunctionTable.comments_eq, List.flatMap_append, List.flatMap_singleton,
    hread.comments.mem_iff, lineComments]
  have hlines : lines.zipIdx.filterMap (fun line => (LineShape.of line.1).comment?) =
      lines.filterMap fun line => (LineShape.of line).comment? := by
    conv_rhs => rw [← List.zipIdx_map_fst 0 lines, List.filterMap_map]
    rfl
  rw [hlines, List.mem_filterMap]
  simp only [LineShape.comment?_eq_some_iff]

/-! ## Other texts in comments -/

/-- Two lines are the same, or both are comments. -/
inductive SameButComment : Text → Text → Prop where
  | same (line : Text) : SameButComment line line
  | comments {line line' text text' : Text} (h : LineShape.of line = .comment text)
      (h' : LineShape.of line' = .comment text') : SameButComment line line'

/-- Numbered lines that are the same but for comments. -/
abbrev SameButComments (lines lines' : NumberedLines) : Prop :=
  List.Forall₂ (fun line line' => SameButComment line.1 line'.1 ∧ line'.2 = line.2) lines lines'

theorem sameButComments_zipIdx {lines lines' : List Text}
    (h : List.Forall₂ SameButComment lines lines') (index : Nat) :
    SameButComments (lines.zipIdx index) (lines'.zipIdx index) := by
  induction h generalizing index with
  | nil => exact .nil
  | cons hline _ ih =>
    rw [List.zipIdx_cons, List.zipIdx_cons]
    exact .cons ⟨hline, rfl⟩ (ih (index + 1))

theorem SameButComment.eq {line line' : Text} (h : SameButComment line line')
    (hline : (LineShape.of line).comment? = none) : line' = line := by
  cases h with
  | same => rfl
  | comments h _ => exact absurd hline (by simp [h, LineShape.comment?])

theorem SameButComments.split {inner rest lines' : NumberedLines}
    (h : SameButComments (inner ++ rest) lines') :
    ∃ inner' rest', lines' = inner' ++ rest' ∧ SameButComments inner inner' ∧
      SameButComments rest rest' := by
  induction inner generalizing lines' with
  | nil => exact ⟨[], lines', rfl, .nil, h⟩
  | cons line inner ih =>
    obtain ⟨line', others, hline, hothers, rfl⟩ := List.forall₂_cons_left_iff.1 h
    obtain ⟨inner', rest', rfl, hinner, hrest⟩ := ih hothers
    exact ⟨line' :: inner', rest', rfl, .cons hline hinner, hrest⟩

/-- A line that is no comment is the same. -/
theorem SameButComments.uncons {line : Text} {index : Nat} {rest lines' : NumberedLines}
    (h : SameButComments ((line, index) :: rest) lines')
    (hline : (LineShape.of line).comment? = none) :
    ∃ rest', lines' = (line, index) :: rest' ∧ SameButComments rest rest' := by
  obtain ⟨⟨line', _⟩, rest', ⟨hsame, rfl⟩, hrest, rfl⟩ := List.forall₂_cons_left_iff.1 h
  obtain rfl : line' = line := hsame.eq hline
  exact ⟨rest', rfl, hrest⟩

theorem LineRead.recomment {line line' : Text} {index : Nat} {stmts : List Stmt}
    (h : LineRead line index stmts) (hsame : SameButComment line line') :
    ∃ stmts', LineRead line' index stmts' ∧ withoutComments stmts' = withoutComments stmts := by
  cases hsame with
  | same => exact ⟨stmts, h, rfl⟩
  | comments hshape hshape' =>
    cases h with
    | comment _ => exact ⟨_, .comment hshape', rfl⟩
    | blank hblank => exact absurd (hblank.symm.trans hshape) (by simp)
    | statement hstatement => exact absurd (hstatement.symm.trans hshape) (by simp)

theorem BodyRead.recomment {lines lines' : NumberedLines} {body : List Stmt}
    (h : BodyRead lines body) (hsame : SameButComments lines lines') :
    ∃ body', BodyRead lines' body' ∧ withoutComments body' = withoutComments body := by
  induction h generalizing lines' with
  | nil =>
    cases hsame
    exact ⟨[], .nil, rfl⟩
  | @line line index stmts body rest hline _ ih =>
    obtain ⟨⟨line', _⟩, rest', ⟨hfirst, rfl⟩, hrest, rfl⟩ := List.forall₂_cons_left_iff.1 hsame
    obtain ⟨stmts', hline', hstmts⟩ := hline.recomment hfirst
    obtain ⟨body', hrest', hbody⟩ := ih hrest
    refine ⟨stmts' ++ body', .line hline' hrest', ?_⟩
    rw [withoutComments_append, withoutComments_append, hstmts, hbody]
  | block hheader _ hclose _ ihInner ih =>
    obtain ⟨_, rfl, hothers⟩ := hsame.uncons (by rw [hheader.shape]; rfl)
    obtain ⟨inner', _, rfl, hinner, htail⟩ := hothers.split
    obtain ⟨rest', rfl, hrest⟩ := htail.uncons (by rw [hclose]; rfl)
    obtain ⟨body', hinner', hbody⟩ := ihInner hinner
    obtain ⟨next', hrest', hnext⟩ := ih hrest
    refine ⟨_, .block hheader hinner' hclose hrest', ?_⟩
    rw [withoutComments_block, withoutComments_block, hbody, hnext]

theorem ProgramRead.recomment {lines lines' : NumberedLines} {functions : List (Text × Function)}
    {main : List Stmt} (h : ProgramRead lines functions main) (hsame : SameButComments lines lines') :
    ∃ functions' main', ProgramRead lines' functions' main' ∧
      functions'.map entryWithoutComments = functions.map entryWithoutComments ∧
      withoutComments main' = withoutComments main := by
  induction h generalizing lines' with
  | nil =>
    cases hsame
    exact ⟨[], [], .nil, rfl, rfl⟩
  | @line line index stmts main functions rest hline _ ih =>
    obtain ⟨⟨line', _⟩, rest', ⟨hfirst, rfl⟩, hrest, rfl⟩ := List.forall₂_cons_left_iff.1 hsame
    obtain ⟨stmts', hline', hstmts⟩ := hline.recomment hfirst
    obtain ⟨functions', main', hrest', hfunctions, hmain⟩ := ih hrest
    refine ⟨functions', stmts' ++ main', .line hline' hrest', hfunctions, ?_⟩
    rw [withoutComments_append, withoutComments_append, hstmts, hmain]
  | block hheader hinner hclose _ ih =>
    obtain ⟨_, rfl, hothers⟩ := hsame.uncons (by rw [hheader.shape]; rfl)
    obtain ⟨inner', _, rfl, hsameInner, htail⟩ := hothers.split
    obtain ⟨rest', rfl, hrest⟩ := htail.uncons (by rw [hclose]; rfl)
    obtain ⟨body', hinner', hbody⟩ := hinner.recomment hsameInner
    obtain ⟨functions', main', hrest', hfunctions, hmain⟩ := ih hrest
    refine ⟨functions', _, .block hheader hinner' hclose hrest', hfunctions, ?_⟩
    rw [withoutComments_block, withoutComments_block, hbody, hmain]
  | declaration hheading hinner hending _ ih =>
    obtain ⟨_, rfl, hothers⟩ := hsame.uncons (by rw [hheading.shape]; rfl)
    obtain ⟨inner', _, rfl, hsameInner, htail⟩ := hothers.split
    obtain ⟨rest', rfl, hrest⟩ := htail.uncons (by rw [hending.shape]; rfl)
    obtain ⟨body', hinner', hbody⟩ := hinner.recomment hsameInner
    obtain ⟨functions', main', hrest', hfunctions, hmain⟩ := ih hrest
    refine ⟨_, main', .declaration hheading hinner' hending hrest', ?_, hmain⟩
    rw [List.map_cons, List.map_cons, hfunctions, entryWithoutComments, entryWithoutComments, hbody]

/-- **The texts of its comments are no part of a program**: with others it is accepted, with the same
    table but for its comments. -/
theorem parseProgram_recomment {lines lines' : List Text} {table : FunctionTable}
    (h : parseProgram lines = .ok table) (hsame : List.Forall₂ SameButComment lines lines') :
    ∃ table', parseProgram lines' = .ok table' ∧
      table'.withoutComments = table.withoutComments := by
  obtain ⟨functions, main, hread, hdistinct, rfl⟩ := parseProgram_eq_ok_iff_read.1 h
  obtain ⟨functions', main', hread', hfunctions, hmain⟩ :=
    hread.recomment (sameButComments_zipIdx hsame 0)
  have hnames : functions'.map Prod.fst = functions.map Prod.fst := by
    have hfirst := congrArg (List.map Prod.fst) hfunctions
    rw [List.map_map, List.map_map] at hfirst
    exact hfirst
  refine ⟨_, parseProgram_eq_ok_iff_read.2 ⟨functions', main', hread', hnames ▸ hdistinct, rfl⟩, ?_⟩
  rw [FunctionTable.withoutComments, FunctionTable.withoutComments, List.map_append,
    List.map_append, hfunctions, List.map_singleton, List.map_singleton, entryWithoutComments,
    entryWithoutComments, hmain]

end LogoLang
