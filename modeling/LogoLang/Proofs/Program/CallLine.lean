import LogoLang.Proofs.Program.Derivation
import LogoLang.Proofs.Program.WrittenLine
import LogoLang.Proofs.Syntax.Embedding

set_option autoImplicit false

/-! # Lines that call a function

The line of a name and of expressions after it, at the end of a program, is a call of the name with
these arguments, unless the name is one of the words that a line can start with otherwise
(`lineRead_callLine`). A program is accepted with such a line as it was without it, but for what the line
adds to the top level (`exists_parseProgram_append`). -/

namespace LogoLang

/-! ## Rows of expressions -/

/-- A text that is an expression: it is read without a flaw, and nothing of it is left over. -/
structure WrittenExpr where
  text : Text
  expr : Expr
  whole : ∃ c, readExpr? (Cursor.start text) = some (expr, c) ∧ c.rest = []
  flawless : expr.firstFlaw? = none

/-- A term as it is written is an expression. -/
theorem Term.exists_writtenExpr (t : Term) :
    ∃ w : WrittenExpr, w.text = t.print ∧ w.expr.bare = t.expr := by
  have hrest : (Cursor.start t.print).rest.dropWhile isSpace = t.print ++ [] := by
    rw [List.append_nil, Cursor.start_rest, ← List.append_nil t.print, t.isWord_print.dropWhile]
  obtain ⟨e, c, hread, hbare, hc⟩ := readExpr?_print t hrest endsWord_nil
  have hflaw := e.firstFlaw?_bare
  rw [hbare, t.firstFlaw?_expr] at hflaw
  exact ⟨⟨t.print, e, ⟨c, hread, hc⟩, Option.map_eq_none_iff.1 hflaw.symm⟩, rfl, hbare⟩

/-- The trees of expressions that stand one after the other in a line, each after a space, from a
    position on. -/
def WrittenExpr.placed : Nat → List WrittenExpr → List Expr
  | _, [] => []
  | pos, arg :: rest =>
    arg.expr.shift (pos + 1) :: WrittenExpr.placed (arg.text.length + (pos + 1)) rest

theorem WrittenExpr.length_placed (pos : Nat) (args : List WrittenExpr) :
    (WrittenExpr.placed pos args).length = args.length := by
  induction args generalizing pos with
  | nil => rfl
  | cons arg rest ih => rw [WrittenExpr.placed, List.length_cons, ih, List.length_cons]

theorem WrittenExpr.flawless_placed (pos : Nat) (args : List WrittenExpr) :
    ∀ e ∈ WrittenExpr.placed pos args, e.firstFlaw? = none := by
  induction args generalizing pos with
  | nil => simp [WrittenExpr.placed]
  | cons arg rest ih => exact List.forall_mem_cons.2 ⟨Expr.firstFlaw?_shift arg.flawless, ih _⟩

/-- The texts of expressions, each after a space. -/
def WrittenExpr.row (args : List WrittenExpr) : Text := spaced (args.map WrittenExpr.text)

/-- An expression is read at its place in a row, up to where the next one stands. -/
theorem WrittenExpr.read_row (arg : WrittenExpr) (rest : List WrittenExpr) (pos : Nat) :
    readExpr? (Cursor.skipSpaces ⟨pos, WrittenExpr.row (arg :: rest)⟩) =
      some (arg.expr.shift (pos + 1),
        Cursor.skipSpaces ⟨arg.text.length + (pos + 1), WrittenExpr.row rest⟩) := by
  obtain ⟨c, hread, hrest⟩ := arg.whole
  have hstop := (reads_of_readExprWith? hread).takes.moves.pos_le_length
  rw [hrest, List.length_nil, Nat.add_zero] at hstop
  have hrow : WrittenExpr.row (arg :: rest) = ' ' :: (arg.text ++ WrittenExpr.row rest) :=
    spaced_cons _ _
  have htail : EndsWord (WrittenExpr.row rest) := endsWord_spaced _
  have hplace : (⟨pos + 1, arg.text ++ WrittenExpr.row rest⟩ : Cursor) =
      (Cursor.start arg.text).embed (pos + 1) (WrittenExpr.row rest) := by
    rw [Cursor.embed, Cursor.start, Nat.zero_add]
  rw [hrow, Cursor.skipSpaces_space, readExpr?_skipSpaces, hplace,
    readExpr?_embed hread arg.flawless htail, embedResult, Cursor.embed, hrest, hstop,
    List.nil_append]

theorem WrittenExpr.readExprsWith_row (args : List WrittenExpr) {fuel : Nat} (pos : Nat)
    (hfuel : args.length ≤ fuel) :
    ∃ c, readExprsWith fuel (Cursor.skipSpaces ⟨pos, WrittenExpr.row args⟩) =
      (WrittenExpr.placed pos args, c) ∧ c.rest = [] := by
  induction args generalizing fuel pos with
  | nil =>
    refine ⟨Cursor.skipSpaces ⟨pos, []⟩, ?_, rfl⟩
    cases fuel <;> rfl
  | cons arg rest ih =>
    cases fuel with
    | zero => exact absurd hfuel (by simp)
    | succ fuel =>
      obtain ⟨c, hreads, hrest⟩ :=
        ih (arg.text.length + (pos + 1)) (Nat.le_of_succ_le_succ hfuel)
      refine ⟨c, ?_, hrest⟩
      rw [readExprsWith, arg.read_row rest pos]
      simp only [hreads, WrittenExpr.placed]

/-- There is at least one character for each expression, also when the first space is skipped. -/
theorem WrittenExpr.length_le_row (args : List WrittenExpr) :
    args.length ≤ ((WrittenExpr.row args).dropWhile isSpace).length := by
  cases args with
  | nil => exact Nat.zero_le _
  | cons arg rest =>
    obtain ⟨c, hread, _⟩ := arg.whole
    have hne := skipSpaces_ne_nil_of_read hread
    rw [Cursor.start_skipSpaces] at hne
    have hrest := length_le_length_spaced (rest.map WrittenExpr.text)
    have hword := List.length_pos_iff.2 hne
    rw [WrittenExpr.row, List.map_cons, spaced_cons, List.dropWhile_cons, if_pos (by decide),
      List.dropWhile_append, if_neg (by simpa using hne), List.length_append, List.length_cons]
    rw [List.length_map] at hrest
    omega

/-- **A row of expressions is read as these expressions**, each at its place. -/
theorem WrittenExpr.readExprs_row (args : List WrittenExpr) (pos : Nat) :
    ∃ c, readExprs (Cursor.skipSpaces ⟨pos, WrittenExpr.row args⟩) =
      (WrittenExpr.placed pos args, c) ∧ c.rest = [] := by
  refine WrittenExpr.readExprsWith_row args pos ?_
  rw [Cursor.skipSpaces_rest]
  exact WrittenExpr.length_le_row args

/-! ## Call lines -/

/-- The line that calls a function with expressions as its arguments. -/
def callLine (name : Text) (args : List WrittenExpr) : Text := name ++ WrittenExpr.row args

/-- The tree of the line. -/
def callStmt (name : Text) (args : List WrittenExpr) (line : Nat) : Stmt :=
  .call (.named name ⟨0, name.length⟩) (WrittenExpr.placed name.length args) line

theorem readStmt?_callLine (name : CallName) (args : List WrittenExpr) (index : Nat) :
    ∃ c, readStmt? (callLine name.text args) index = some (callStmt name.text args index, c) ∧
      c.rest = [] := by
  have htail : EndsWord (WrittenExpr.row args) := endsWord_spaced _
  have hskip : (Cursor.start (callLine name.text args)).skipSpaces =
      Cursor.start (callLine name.text args) := by
    refine Cursor.skipSpaces_of_head fun x hx => ?_
    obtain ⟨y, rest, htext, hy⟩ := name.isWord_text
    rw [callLine, htext] at hx
    cases hx
    exact hy
  have hafter : (Cursor.start (callLine name.text args)).after name.text.length =
      Cursor.skipSpaces ⟨name.text.length, WrittenExpr.row args⟩ := by
    rw [Cursor.after, Cursor.advance, callLine, Cursor.start, List.drop_left, Nat.zero_add]
  have hname := readFunctionName?_of_name name.toName (name.isWord_text.dropWhile _) htail
    (c := Cursor.start (callLine name.text args))
  rw [hskip, hafter] at hname
  obtain ⟨c, hargs, hrest⟩ := WrittenExpr.readExprs_row args name.text.length
  refine ⟨c, ?_, hrest⟩
  simp only [readStmt?, callLine, name.oneOf?_stmtKeywords htail, readCall?]
  rw [← callLine, hname]
  simp only [Option.map_some, hargs]
  rfl

/-- **A name that starts no other line is called by the line of the name and its arguments.** -/
theorem lineRead_callLine (name : CallName) (args : List WrittenExpr) (index : Nat) :
    LineRead (callLine name.text args) index [callStmt name.text args index] := by
  obtain ⟨c, hread, hrest⟩ := readStmt?_callLine name args index
  have hto : name.text ≠ toKeyword := fun heq => name.free (heq ▸ by decide)
  have hend : name.text ≠ endKeyword := fun heq => name.free (heq ▸ by decide)
  have hshape : LineShape.of (callLine name.text args) = .statement :=
    LineShape.of_line name.ne_nil name.chars (endsWord_spaced _) hto hend
  have hflaw : (callStmt name.text args index).firstFlaw? = none := by
    rw [callStmt, Stmt.firstFlaw?, Label.flaw?, Option.none_or, List.findSome?_eq_none_iff]
    exact WrittenExpr.flawless_placed _ args
  exact .statement hshape hread rfl (by rw [hrest, Text.trimRight_nil]) hflaw

/-! ## Lines after a program -/

theorem ProgramRead.append {lines more : NumberedLines} {functions functions' : List (Text × Function)}
    {main main' : List Stmt} (h : ProgramRead lines functions main)
    (hmore : ProgramRead more functions' main') :
    ProgramRead (lines ++ more) (functions ++ functions') (main ++ main') := by
  induction h with
  | nil => exact hmore
  | line hline _ ih =>
    rw [List.append_assoc]
    exact .line hline ih
  | block hheader hinner hclose _ ih =>
    rw [List.cons_append, List.append_assoc]
    exact .block hheader hinner hclose ih
  | declaration hheading hinner hending _ ih =>
    rw [List.cons_append, List.append_assoc]
    exact .declaration hheading hinner hending ih

/-- A table that has the functions of another one and some more statements at the end of the top
    level. -/
def FunctionTable.ContinuedBy (table table' : FunctionTable) (stmts : List Stmt) : Prop :=
  ∃ functions main, table.entries = functions ++ [(mainName, ⟨[], main⟩)] ∧
    table'.entries = functions ++ [(mainName, ⟨[], main ++ stmts⟩)]

/-- A line that opens and closes nothing adds its statements at the end of the top level. -/
theorem exists_parseProgram_append {lines : List Text} {line : Text} {stmts : List Stmt}
    {table : FunctionTable} (h : parseProgram lines = .ok table)
    (hline : LineRead line lines.length stmts) :
    ∃ table', parseProgram (lines ++ [line]) = .ok table' ∧ table.ContinuedBy table' stmts := by
  obtain ⟨functions, main, hread, hdistinct, rfl⟩ := parseProgram_eq_ok_iff_read.1 h
  refine ⟨⟨functions ++ [(mainName, ⟨[], main ++ stmts⟩)]⟩, ?_, functions, main, rfl, rfl⟩
  refine parseProgram_eq_ok_iff_read.2 ⟨functions, main ++ stmts, ?_, hdistinct, rfl⟩
  have hadded : ProgramRead [(line, lines.length)] [] stmts :=
    programRead_nil_iff.2 (BodyRead.ofLine hline)
  have happend := hread.append hadded
  rw [List.append_nil] at happend
  rw [List.zipIdx_append, Nat.zero_add]
  exact happend

/-- A line after which a program is accepted as it was before opens and closes nothing. -/
theorem class_of_appended {lines : List Text} {line : Text} {table table' : FunctionTable}
    (h : parseProgram lines = .ok table) (h' : parseProgram (lines ++ [line]) = .ok table') :
    LineClass.of line = .other := by
  have hbefore := checkBalance_eq_ok_iff_run.1 (parseProgram_eq_ok_iff.1 h).1
  have hafter := checkBalance_eq_ok_iff_run.1 (parseProgram_eq_ok_iff.1 h').1
  obtain ⟨mid, hmid, hrun⟩ := Balance.run_append_eq_ok_iff.1 hafter
  rw [hbefore] at hmid
  cases hmid
  obtain ⟨last, hmove, hlast⟩ := Balance.run_cons_eq_ok_iff.1 hrun
  cases hlast
  -- each other move opens or closes something
  cases hmove with
  | other hclass => exact hclass

end LogoLang
