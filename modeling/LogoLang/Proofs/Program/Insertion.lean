import LogoLang.Proofs.Program.FailureLines

set_option autoImplicit false

/-! # Lines that are inserted

A blank line or a comment can be inserted anywhere. A program that is refused is refused as before,
up to the number of the line (`parseProgram_insert_agree`). A program that is accepted keeps its
functions, up to line numbers, and the statements of the new line stand in the body that is open
there (`parseProgram_insert`). -/

namespace LogoLang

/-! ## The new numbers -/

/-- The number of a line once a line has been inserted as number `k`. -/
def shiftFrom (k index : Nat) : Nat := if index < k then index else index + 1

/-- The lines with a line inserted as number `k`. -/
def insertLine (lines : List Text) (k : Nat) (line : Text) : List Text :=
  lines.take k ++ line :: lines.drop k

theorem renumberLines_append (σ : Nat → Nat) (lines more : NumberedLines) :
    renumberLines σ (lines ++ more) = renumberLines σ lines ++ renumberLines σ more :=
  List.map_append

section Numbers

variable {lines : List Text} {k : Nat}

/-- Lines before the new one keep their numbers. -/
theorem renumberLines_shiftFrom_of_lt {lines : NumberedLines} (h : ∀ line ∈ lines, line.2 < k) :
    renumberLines (shiftFrom k) lines = lines := by
  induction lines with
  | nil => rfl
  | cons line rest ih =>
    rw [List.forall_mem_cons] at h
    rw [renumberLines, List.map_cons, shiftFrom, if_pos h.1]
    exact congrArg (line :: ·) (ih h.2)

/-- Lines after the new one are moved by one. -/
theorem renumberLines_shiftFrom_of_le (texts : List Text) {index : Nat} (h : k ≤ index) :
    renumberLines (shiftFrom k) (texts.zipIdx index) = texts.zipIdx (index + 1) := by
  induction texts generalizing index with
  | nil => rfl
  | cons text rest ih =>
    rw [List.zipIdx_cons, List.zipIdx_cons, renumberLines, List.map_cons, shiftFrom,
      if_neg (Nat.not_lt.2 h)]
    exact congrArg ((text, index + 1) :: ·) (ih (Nat.le_succ_of_le h))

theorem lt_of_mem_take {line : Text × Nat} (h : line ∈ (lines.take k).zipIdx) : line.2 < k := by
  have hlt := List.snd_lt_of_mem_zipIdx h
  have hlength := List.length_take_le k lines
  omega

theorem zipIdx_take_drop (hk : k ≤ lines.length) :
    lines.zipIdx = (lines.take k).zipIdx ++ (lines.drop k).zipIdx k := by
  conv_lhs => rw [← List.take_append_drop k lines]
  rw [List.zipIdx_append, List.length_take_of_le hk, Nat.zero_add]

theorem zipIdx_insertLine (hk : k ≤ lines.length) (line : Text) :
    (insertLine lines k line).zipIdx =
      (lines.take k).zipIdx ++ (line, k) :: (lines.drop k).zipIdx (k + 1) := by
  rw [insertLine, List.zipIdx_append, List.zipIdx_cons, List.length_take_of_le hk, Nat.zero_add]

theorem renumberLines_zipIdx (hk : k ≤ lines.length) :
    renumberLines (shiftFrom k) lines.zipIdx =
      (lines.take k).zipIdx ++ (lines.drop k).zipIdx (k + 1) := by
  rw [zipIdx_take_drop hk, renumberLines_append,
    renumberLines_shiftFrom_of_lt fun line => lt_of_mem_take,
    renumberLines_shiftFrom_of_le _ (Nat.le_refl k)]

/-- A line is the same at its new place. -/
theorem getElem?_insertLine (hk : k ≤ lines.length) (line : Text) (index : Nat) :
    (insertLine lines k line)[shiftFrom k index]? = lines[index]? := by
  have hlength : (lines.take k).length = k := List.length_take_of_le hk
  by_cases h : index < k
  · rw [shiftFrom, if_pos h, insertLine, List.getElem?_append_left (by omega),
      List.getElem?_take_of_lt h]
  · rw [shiftFrom, if_neg h, insertLine, List.getElem?_append_right (by omega), hlength,
      Nat.succ_sub (by omega), List.getElem?_cons_succ, List.getElem?_drop]
    congr 1
    omega

end Numbers

/-! ## Programs that are refused -/

section Refused

variable {lines : List Text} {k : Nat} {line : Text} {stmts : List Stmt}

theorem checkBalance_insert (hk : k ≤ lines.length) (hline : LineRead line k stmts) :
    Agree Eq (fun d d' => d' = d.renumber (shiftFrom k)) (checkBalance lines)
      (checkBalance (insertLine lines k line)) := by
  have hsame : Balance.start.through (insertLine lines k line).zipIdx =
      Balance.start.through (renumberLines (shiftFrom k) lines.zipIdx) := by
    rw [zipIdx_insertLine hk, renumberLines_zipIdx hk, Balance.through_append,
      Balance.through_append]
    congr 1
    funext s
    rw [Balance.through, List.foldlM_cons, Balance.step_eq_ok_iff.2 (.other hline.class)]
    rfl
  have hruns := Balance.agree_through (shiftFrom k) Balance.start lines.zipIdx
  rw [checkBalance, checkBalance, Balance.run_eq_through, Balance.run_eq_through, hsame]
  refine hruns.bind ?_
  rintro s _ rfl
  exact Balance.agree_finish _ s

/-- After the first lines of a balanced program there is a body for a new statement to go to. -/
theorem exists_body_of_checkBalance {before after : List Text} {s : Assembly}
    (hcheck : checkBalance (before ++ after) = .ok ())
    (hs : Assembly.start.through before.zipIdx = .ok s) :
    ∃ body outer, s.scopes = body :: outer := by
  rw [checkBalance_eq_ok_iff_run] at hcheck
  obtain ⟨a, ha, _⟩ := Balance.run_append_eq_ok_iff.1 hcheck
  exact (aligned_start.runs ha (Assembly.run_eq_none_iff.2 hs)).exists_body

/-- A line that only adds statements leaves a state that is alike. -/
theorem LineRead.alike {s t : Assembly} (hline : LineRead line k stmts)
    (hbody : ∃ body outer, s.scopes = body :: outer) (halike : t.Alike s) :
    ∃ s', s.step k line = .ok s' ∧ t.Alike s' := by
  obtain ⟨table, pending, scopes, decl, headings⟩ := s
  obtain ⟨body, outer, rfl⟩ := hbody
  refine ⟨_, Assembly.step_eq_ok_iff.2 (hline.moves table pending body outer decl headings), ?_⟩
  exact ⟨halike.names, halike.pending, halike.scopes, halike.decl⟩

theorem assemble_insert (hk : k ≤ lines.length) (hline : LineRead line k stmts)
    (hcheck : checkBalance lines = .ok ()) :
    Agree (fun _ _ => True) (fun failure failure' => failure' = failure.renumber (shiftFrom k))
      (assemble lines) (assemble (insertLine lines k line)) := by
  rw [assemble_eq_through, assemble_eq_through, zipIdx_insertLine hk, zipIdx_take_drop hk,
    Assembly.through_append, Assembly.through_append]
  refine Agree.bind (?_ : Assembly.Agrees (shiftFrom k) _ _) fun s s' h => h.finish
  have hbefore := (Assembly.Alike.refl Assembly.start).through (shiftFrom k) (lines.take k).zipIdx
  rw [renumberLines_shiftFrom_of_lt fun line => lt_of_mem_take] at hbefore
  cases hs : Assembly.start.through (lines.take k).zipIdx with
  | error failure =>
    rw [hs] at hbefore
    cases hbefore with
    | error h => exact .error h
  | ok s =>
    rw [← List.take_append_drop k lines] at hcheck
    obtain ⟨s', hstep, halike⟩ :=
      hline.alike (exists_body_of_checkBalance hcheck hs) (Assembly.Alike.refl s)
    have hafter := halike.through (shiftFrom k) ((lines.drop k).zipIdx k)
    rw [renumberLines_shiftFrom_of_le _ (Nat.le_refl k)] at hafter
    have hnew : s.through ((line, k) :: (lines.drop k).zipIdx (k + 1)) =
        s'.through ((lines.drop k).zipIdx (k + 1)) := by
      rw [Assembly.through, List.foldlM_cons, hstep]
      rfl
    show Agree _ _ (s.through _) (s.through _)
    rw [hnew]
    exact hafter

/-- **A blank line or a comment does not repair a program, nor break it**: it is refused in the same way,
    at the line that it was refused at, or it is accepted. -/
theorem parseProgram_insert_agree (hk : k ≤ lines.length) (hline : LineRead line k stmts) :
    Agree (fun _ _ => True) (fun failure failure' => failure' = failure.renumber (shiftFrom k))
      (parseProgram lines) (parseProgram (insertLine lines k line)) := by
  have hbalance := checkBalance_insert hk hline
  rw [parseProgram, parseProgram]
  cases hcheck : checkBalance lines with
  | error d =>
    rw [hcheck] at hbalance
    obtain ⟨d', hcheck', hrenumber⟩ := hbalance.exists_error
    rw [hcheck']
    exact .error (congrArg AssemblyFailure.diagnostic hrenumber)
  | ok u =>
    rw [hcheck] at hbalance
    obtain ⟨u', hcheck', _⟩ := hbalance.exists_ok
    rw [hcheck']
    exact assemble_insert hk hline hcheck

end Refused

/-! ## Where statements stand -/

theorem line_of_readStmt? {text : Text} {index : Nat} {stmt : Stmt} {c : Cursor}
    (h : readStmt? text index = some (stmt, c)) : stmt.line = index := by
  -- changing all line numbers to this one changes nothing
  have hsame := readStmt?_renumber (fun _ => index) text index
  rw [h, Option.map_some, Option.some.injEq, Prod.mk.injEq] at hsame
  rw [hsame.1, Stmt.line_renumber]

theorem LineRead.line_eq {line : Text} {index : Nat} {stmts : List Stmt}
    (h : LineRead line index stmts) : ∀ stmt ∈ stmts, stmt.line = index := by
  cases h with
  | blank hshape => simp
  | comment hshape => simp [Stmt.line]
  | statement hshape hread hleaf hrest hflaw => simpa using line_of_readStmt? hread

/-- The statements of the top level stand on lines of the program. -/
theorem ProgramRead.line_mem {lines : NumberedLines} {functions : List (Text × Function)}
    {main : List Stmt} (h : ProgramRead lines functions main) :
    ∀ stmt ∈ main, ∃ line ∈ lines, stmt.line = line.2 := by
  induction h with
  | nil => simp
  | @line line index stmts _ _ rest hline _ ih =>
    rw [List.forall_mem_append]
    refine ⟨fun stmt hstmt => ⟨(line, index), List.mem_cons_self, hline.line_eq stmt hstmt⟩, ?_⟩
    intro stmt hstmt
    obtain ⟨other, hmem, heq⟩ := ih stmt hstmt
    exact ⟨other, List.mem_cons_of_mem _ hmem, heq⟩
  | @block line _ index _ _ _ _ _ _ inner rest hheader _ _ _ ih =>
    rw [List.forall_mem_cons]
    refine ⟨⟨(line, index), List.mem_cons_self, rfl⟩, fun stmt hstmt => ?_⟩
    obtain ⟨other, hmem, heq⟩ := ih stmt hstmt
    exact ⟨other, List.mem_cons_of_mem _ (List.mem_append_right _ (List.mem_cons_of_mem _ hmem)),
      heq⟩
  | declaration _ _ _ _ ih =>
    intro stmt hstmt
    obtain ⟨other, hmem, heq⟩ := ih stmt hstmt
    exact ⟨other, List.mem_cons_of_mem _ (List.mem_append_right _ (List.mem_cons_of_mem _ hmem)),
      heq⟩

/-- The statements of a body stand on its lines. -/
theorem BodyRead.line_mem {lines : NumberedLines} {body : List Stmt} (h : BodyRead lines body) :
    ∀ stmt ∈ body, ∃ line ∈ lines, stmt.line = line.2 :=
  (programRead_nil_iff.2 h).line_mem

/-! ## Programs that are accepted -/

/-- The second body has new statements in it, between those of the lines before number `k` and those of
    the lines after it. The path lists the blocks that they stand in by the numbers of their lines, the
    outermost first. -/
inductive BodyInsert (new : List Stmt) (k : Nat) : List Nat → List Stmt → List Stmt → Prop where
  | here {before after : List Stmt} (hbefore : ∀ stmt ∈ before, stmt.line < k)
      (hafter : ∀ stmt ∈ after, k < stmt.line) :
      BodyInsert new k [] (before ++ after) (before ++ new ++ after)
  | inside {before after body body' : List Stmt} {kind : BlockKind} {condition : Expr} {line : Nat}
      {path : List Nat} (h : BodyInsert new k path body body') :
      BodyInsert new k (line :: path) (before ++ .block kind condition body line :: after)
        (before ++ .block kind condition body' line :: after)

/-- The new statements stand in the top-level body, if no declaration is open, or else in the body of
    the function that the open heading declares. -/
inductive ProgramInsert (new : List Stmt) (k : Nat) (path : List Nat) :
    Option OpenLine → List (Text × Function) → List Stmt → List (Text × Function) → List Stmt →
      Prop where
  | main {functions : List (Text × Function)} {main main' : List Stmt}
      (h : BodyInsert new k path main main') :
      ProgramInsert new k path none functions main functions main'
  | function {opened : OpenLine} {before after : List (Text × Function)} {main body body' : List Stmt}
      {name : Text} {params : List Label} (hheading : HeadingRead opened.text name params)
      (h : BodyInsert new k path body body') :
      ProgramInsert new k path (some opened) (before ++ (name, ⟨params, body⟩) :: after) main
        (before ++ (name, ⟨params, body'⟩) :: after) main

variable {new : List Stmt} {k : Nat} {path : List Nat}

/-- A body with nothing new in it is what it was. -/
theorem BodyInsert.eq_of_nil {body body' : List Stmt} (h : BodyInsert [] k path body body') :
    body' = body := by
  induction h with
  | here _ _ => rw [List.append_nil]
  | inside _ ih => rw [ih]

theorem ProgramInsert.eq_of_nil {opened : Option OpenLine} {functions functions' : List (Text × Function)}
    {main main' : List Stmt} (h : ProgramInsert [] k path opened functions main functions' main') :
    functions' = functions ∧ main' = main := by
  cases h with
  | main h => exact ⟨rfl, h.eq_of_nil⟩
  | function _ h => exact ⟨by rw [h.eq_of_nil], rfl⟩

/-- Statements of earlier lines can stand before a body. -/
theorem BodyInsert.after {body body' stmts : List Stmt} (h : BodyInsert new k path body body')
    (hstmts : ∀ stmt ∈ stmts, stmt.line < k) :
    BodyInsert new k path (stmts ++ body) (stmts ++ body') := by
  cases h with
  | here hbefore hafter =>
    rw [← List.append_assoc, ← List.append_assoc, ← List.append_assoc]
    exact .here (List.forall_mem_append.2 ⟨hstmts, hbefore⟩) hafter
  | inside h =>
    rw [← List.append_assoc, ← List.append_assoc]
    exact .inside h

theorem BodyInsert.cons {stmt : Stmt} {body body' : List Stmt}
    (h : BodyInsert new k path body body') (hstmt : stmt.line < k) :
    BodyInsert new k path (stmt :: body) (stmt :: body') := by
  have hrow : BodyInsert new k path ([stmt] ++ body) ([stmt] ++ body') :=
    h.after (List.forall_mem_singleton.2 hstmt)
  exact hrow

/-- Statements in the body of a block stand in the block. -/
theorem BodyInsert.inBlock {body body' : List Stmt} (h : BodyInsert new k path body body')
    (kind : BlockKind) (condition : Expr) (line : Nat) (rest : List Stmt) :
    BodyInsert new k (line :: path) (.block kind condition body line :: rest)
      (.block kind condition body' line :: rest) := by
  have hrow : BodyInsert new k (line :: path) ([] ++ .block kind condition body line :: rest)
      ([] ++ .block kind condition body' line :: rest) := .inside h
  exact hrow

theorem BodyInsert.first {body : List Stmt} (hbody : ∀ stmt ∈ body, k < stmt.line) :
    BodyInsert new k [] body (new ++ body) := by
  have h : BodyInsert new k [] ([] ++ body) ([] ++ new ++ body) := .here (by simp) hbody
  exact h

/-- A place among delimited lines and what follows them is before the end of these lines or after it. -/
theorem delimited_split {inner rest before after : NumberedLines} {close : Text × Nat}
    (h : inner ++ close :: rest = before ++ after) :
    (∃ more, inner = before ++ more ∧ after = more ++ close :: rest) ∨
      ∃ more, before = inner ++ close :: more ∧ rest = more ++ after := by
  obtain ⟨others, rfl, hothers⟩ | ⟨more, rfl, rfl⟩ := List.append_eq_append_iff.1 h
  · cases others with
    | nil => exact Or.inl ⟨[], by simp, hothers.symm⟩
    | cons last more =>
      obtain ⟨rfl, rfl⟩ := List.cons.inj hothers
      exact Or.inr ⟨more, rfl, rfl⟩
  · exact Or.inl ⟨more, rfl, rfl⟩

/-- Statements of later lines can stand after a body. -/
theorem BodyInsert.before {body body' stmts : List Stmt} (h : BodyInsert new k path body body')
    (hstmts : ∀ stmt ∈ stmts, k < stmt.line) :
    BodyInsert new k path (body ++ stmts) (body' ++ stmts) := by
  cases h with
  | here hbefore hafter =>
    rw [List.append_assoc, List.append_assoc]
    exact .here hbefore (List.forall_mem_append.2 ⟨hafter, hstmts⟩)
  | inside h =>
    rw [List.append_assoc, List.append_assoc]
    exact .inside h

/-- A declaration can stand before a program. -/
theorem ProgramInsert.declaration {opened : Option OpenLine}
    {functions functions' : List (Text × Function)} {main main' : List Stmt}
    (h : ProgramInsert new k path opened functions main functions' main')
    (entry : Text × Function) :
    ProgramInsert new k path opened (entry :: functions) main (entry :: functions') main' := by
  cases h with
  | main h => exact .main h
  | @function opened before after _ body body' name params hheading h =>
    have hrow : ProgramInsert new k path (some opened)
        ((entry :: before) ++ (name, ⟨params, body⟩) :: after) main
        ((entry :: before) ++ (name, ⟨params, body'⟩) :: after) main := .function hheading h
    exact hrow

theorem ProgramInsert.names {opened : Option OpenLine}
    {functions functions' : List (Text × Function)} {main main' : List Stmt}
    (h : ProgramInsert new k path opened functions main functions' main') :
    functions'.map Prod.fst = functions.map Prod.fst := by
  cases h with
  | main _ => rfl
  | function _ _ => simp

section Accepted

variable {line : Text}

/-- Statements on lines that all have greater numbers. -/
theorem forall_lt_line {lines : NumberedLines} {body : List Stmt}
    (h : ∀ stmt ∈ body, ∃ line ∈ lines, stmt.line = line.2) (hlines : ∀ line ∈ lines, k < line.2) :
    ∀ stmt ∈ body, k < stmt.line := by
  intro stmt hstmt
  obtain ⟨other, hmem, heq⟩ := h stmt hstmt
  rw [heq]
  exact hlines other hmem

/-- A line that is inserted into a body adds its statements to the body that is open there. -/
theorem BodyRead.insert {lines : NumberedLines} {body : List Stmt} (h : BodyRead lines body)
    (hnew : LineRead line k new) :
    ∀ {before after : NumberedLines}, lines = before ++ after → (∀ l ∈ before, l.2 < k) →
      (∀ l ∈ after, k < l.2) →
      ∃ body' opened, BodyRead (before ++ (line, k) :: after) body' ∧
        BodyInsert new k ((opened.map OpenLine.index).reverse) body body' ∧
        ∀ s : Balance, s.through before = .ok ⟨opened ++ s.blocks, s.decl⟩ := by
  induction h with
  | nil =>
    intro before after hlines _ _
    obtain ⟨rfl, rfl⟩ := List.nil_eq_append_iff.1 hlines
    exact ⟨new ++ [], [], .line hnew .nil, .first (by simp), fun s => rfl⟩
  | @line first index stmts body rest hline hrest ih =>
    intro before after hlines hbefore hafter
    cases before with
    | nil =>
      obtain rfl : (first, index) :: rest = after := hlines
      have hwhole := BodyRead.line hline hrest
      exact ⟨_, [], .line hnew hwhole, .first (forall_lt_line hwhole.line_mem hafter),
        fun s => rfl⟩
    | cons other before =>
      obtain ⟨rfl, rfl⟩ := List.cons.inj hlines
      rw [List.forall_mem_cons] at hbefore
      obtain ⟨body', opened, hread, hinsert, hopen⟩ := ih rfl hbefore.2 hafter
      refine ⟨stmts ++ body', opened, .line hline hread, hinsert.after ?_, fun s => ?_⟩
      · intro stmt hstmt
        rw [hline.line_eq stmt hstmt]
        exact hbefore.1
      · exact Balance.through_cons_eq_ok_iff.2 ⟨s, .other hline.class, hopen s⟩
  | @block first close index closeIndex kind condition body next inner rest hheader hinner hclose
      hrest ihInner ih =>
    intro before after hlines hbefore hafter
    cases before with
    | nil =>
      obtain rfl : (first, index) :: (inner ++ (close, closeIndex) :: rest) = after := hlines
      have hwhole : BodyRead ((first, index) :: (inner ++ (close, closeIndex) :: rest)) _ :=
        .block hheader hinner hclose hrest
      exact ⟨_, [], .line hnew hwhole, .first (forall_lt_line hwhole.line_mem hafter),
        fun s => rfl⟩
    | cons other before =>
      obtain ⟨rfl, htail⟩ := List.cons.inj hlines
      rw [List.forall_mem_cons] at hbefore
      have hopener (s : Balance) : Balance.Moves index first s
          ⟨⟨index, first⟩ :: s.blocks, s.decl⟩ := .opener hheader.opener hheader.bracket
      obtain ⟨more, rfl, rfl⟩ | ⟨more, rfl, rfl⟩ := delimited_split htail
      · -- the place is inside the block
        obtain ⟨body', opened, hread, hinsert, hopen⟩ := ihInner rfl hbefore.2
          (List.forall_mem_append.1 hafter).1
        refine ⟨.block kind condition body' index :: next, opened ++ [⟨index, first⟩], ?_, ?_, ?_⟩
        · have hrow : BodyRead ((first, index) :: (before ++ (line, k) :: more ++
              (close, closeIndex) :: rest)) _ := .block hheader hread hclose hrest
          rw [List.append_assoc] at hrow
          exact hrow
        · rw [List.map_append, List.reverse_append]
          exact hinsert.inBlock kind condition index next
        · intro s
          refine Balance.through_cons_eq_ok_iff.2 ⟨_, hopener s, ?_⟩
          rw [hopen, List.append_assoc]
          rfl
      · -- the place is after the block
        obtain ⟨_, hmore⟩ := List.forall_mem_append.1 hbefore.2
        obtain ⟨next', opened, hread, hinsert, hopen⟩ :=
          ih rfl (List.forall_mem_cons.1 hmore).2 hafter
        refine ⟨.block kind condition body index :: next', opened, ?_, ?_, ?_⟩
        · rw [List.cons_append, List.append_assoc]
          exact .block hheader hinner hclose hread
        · exact hinsert.cons hbefore.1
        · intro s
          refine Balance.through_cons_eq_ok_iff.2 ⟨_, hopener s, ?_⟩
          rw [Balance.through_append, hinner.balance]
          exact Balance.through_cons_eq_ok_iff.2
            ⟨s, .closer (LineClass.of_close hclose), hopen s⟩

/-- What it means that a line can be inserted into a program at any place. -/
def TakesLine (new : List Stmt) (k : Nat) (line : Text) (lines : NumberedLines)
    (functions : List (Text × Function)) (main : List Stmt) : Prop :=
  ∀ ⦃before after : NumberedLines⦄, lines = before ++ after → (∀ l ∈ before, l.2 < k) →
    (∀ l ∈ after, k < l.2) →
    ∃ functions' main' a, ProgramRead (before ++ (line, k) :: after) functions' main' ∧
      Balance.start.through before = .ok a ∧
      ProgramInsert new k ((a.blocks.map OpenLine.index).reverse) a.decl functions main
        functions' main'

/-- A row of lines and blocks, and the program after it. -/
theorem TakesLine.row {row rest : NumberedLines} {stmts main : List Stmt}
    {functions : List (Text × Function)} (hrow : BodyRead row stmts)
    (hrest : ProgramRead rest functions main) (hnew : LineRead line k new)
    (h : TakesLine new k line rest functions main) :
    TakesLine new k line (row ++ rest) functions (stmts ++ main) := by
  intro before after hlines hbefore hafter
  obtain ⟨more, rfl, rfl⟩ | ⟨more, rfl, rfl⟩ := List.append_eq_append_iff.1 hlines
  · -- the place is after the row
    obtain ⟨hbeforeRow, hbeforeMore⟩ := List.forall_mem_append.1 hbefore
    have hstmts : ∀ stmt ∈ stmts, stmt.line < k := by
      intro stmt hstmt
      obtain ⟨other, hmem, heq⟩ := hrow.line_mem stmt hstmt
      rw [heq]
      exact hbeforeRow other hmem
    obtain ⟨functions', main', a, hread, hopen, hinsert⟩ := h rfl hbeforeMore hafter
    have hthrough : Balance.start.through (row ++ more) = .ok a := by
      rw [Balance.through_append, hrow.balance]
      exact hopen
    obtain ⟨blocks, decl⟩ := a
    cases hinsert with
    | main hinsert =>
      refine ⟨functions, stmts ++ main', _, ?_, hthrough, .main (hinsert.after hstmts)⟩
      rw [List.append_assoc]
      exact hrow.program hread
    | function hheading hinsert =>
      refine ⟨_, stmts ++ main, _, ?_, hthrough, .function hheading hinsert⟩
      rw [List.append_assoc]
      exact hrow.program hread
  · -- the place is in the row
    obtain ⟨hafterMore, hafterRest⟩ := List.forall_mem_append.1 hafter
    obtain ⟨stmts', opened, hread, hinsert, hopen⟩ := hrow.insert hnew rfl hbefore hafterMore
    refine ⟨functions, stmts' ++ main, _, ?_, hopen Balance.start, .main ?_⟩
    · have hprogram := hread.program hrest
      rw [List.append_assoc] at hprogram
      exact hprogram
    · rw [show Balance.start.blocks = [] from rfl, List.append_nil]
      exact hinsert.before (forall_lt_line hrest.line_mem hafterRest)

/-- A line that is inserted into a program adds its statements to the body that is open there. -/
theorem ProgramRead.insert {lines : NumberedLines} {functions : List (Text × Function)}
    {main : List Stmt} (h : ProgramRead lines functions main) (hnew : LineRead line k new) :
    TakesLine new k line lines functions main := by
  induction h with
  | nil =>
    intro before after hlines _ _
    obtain ⟨rfl, rfl⟩ := List.nil_eq_append_iff.1 hlines
    exact ⟨[], new ++ [], Balance.start, .line hnew .nil, rfl, .main (.first (by simp))⟩
  | line hline hrest ih => exact TakesLine.row (BodyRead.ofLine hline) hrest hnew ih
  | @block _ _ _ closeIndex _ _ _ _ _ _ _ hheader hinner hclose hrest ih =>
    have hrow := TakesLine.row (BodyRead.ofBlock hheader hinner hclose closeIndex) hrest hnew ih
    rw [List.cons_append, List.append_assoc] at hrow
    exact hrow
  | @declaration first close name index closeIndex params body main functions inner rest hheading
      hinner hending hrest ih =>
    intro before after hlines hbefore hafter
    cases before with
    | nil =>
      obtain rfl : (first, index) :: (inner ++ (close, closeIndex) :: rest) = after := hlines
      have hwhole : ProgramRead ((first, index) :: (inner ++ (close, closeIndex) :: rest)) _ _ :=
        .declaration hheading hinner hending hrest
      exact ⟨_, _, Balance.start, .line hnew hwhole, rfl,
        .main (.first (forall_lt_line hwhole.line_mem hafter))⟩
    | cons other before =>
      obtain ⟨rfl, htail⟩ := List.cons.inj hlines
      rw [List.forall_mem_cons] at hbefore
      have hopens : Balance.Moves index first Balance.start ⟨[], some ⟨index, first⟩⟩ :=
        .heading (LineClass.of_heading hheading.shape)
      obtain ⟨more, rfl, rfl⟩ | ⟨more, rfl, rfl⟩ := delimited_split htail
      · -- the place is inside the declaration
        obtain ⟨body', opened, hread, hinsert, hopen⟩ := hinner.insert hnew rfl hbefore.2
          (List.forall_mem_append.1 hafter).1
        have hthrough : Balance.start.through ((first, index) :: before) =
            .ok ⟨opened, some ⟨index, first⟩⟩ := by
          refine Balance.through_cons_eq_ok_iff.2 ⟨_, hopens, ?_⟩
          rw [hopen, List.append_nil]
        have hadds : ProgramInsert new k ((opened.map OpenLine.index).reverse)
            (some ⟨index, first⟩) ([] ++ (name, ⟨params, body⟩) :: functions) main
            ([] ++ (name, ⟨params, body'⟩) :: functions) main := .function hheading hinsert
        refine ⟨_, _, _, ?_, hthrough, hadds⟩
        have hrow : ProgramRead ((first, index) :: (before ++ (line, k) :: more ++
            (close, closeIndex) :: rest)) ((name, ⟨params, body'⟩) :: functions) main :=
          .declaration hheading hread hending hrest
        rw [List.append_assoc] at hrow
        exact hrow
      · -- the place is after the declaration
        obtain ⟨_, hmore⟩ := List.forall_mem_append.1 hbefore.2
        obtain ⟨functions', main', a, hread, hopen, hinsert⟩ :=
          ih rfl (List.forall_mem_cons.1 hmore).2 hafter
        have hthrough : Balance.start.through
            ((first, index) :: (inner ++ (close, closeIndex) :: more)) = .ok a := by
          refine Balance.through_cons_eq_ok_iff.2 ⟨_, hopens, ?_⟩
          rw [Balance.through_append, hinner.balance]
          exact Balance.through_cons_eq_ok_iff.2
            ⟨_, .ending (LineClass.of_ending hending.shape), hopen⟩
        refine ⟨(name, ⟨params, body⟩) :: functions', main', a, ?_, hthrough,
          hinsert.declaration (name, ⟨params, body⟩)⟩
        rw [List.cons_append, List.append_assoc]
        exact .declaration hheading hinner hending hread

end Accepted

/-- The table of a program into which a line has been inserted: the statements of the line are added to
    the body that is open at its place, and the numbers of the lines after it are changed. -/
theorem parseProgram_insert {lines : List Text} {line : Text} {table : FunctionTable}
    (h : parseProgram lines = .ok table) (hk : k ≤ lines.length) (hnew : LineRead line k new) :
    ∃ a functions main functions' main', Balance.start.run 0 (lines.take k) = .ok a ∧
      (table.renumber (shiftFrom k)).entries = functions ++ [(mainName, ⟨[], main⟩)] ∧
      ProgramInsert new k ((a.blocks.map OpenLine.index).reverse) a.decl functions main
        functions' main' ∧
      parseProgram (insertLine lines k line) =
        .ok ⟨functions' ++ [(mainName, ⟨[], main'⟩)]⟩ := by
  obtain ⟨functions, main, hread, hdistinct, rfl⟩ := parseProgram_eq_ok_iff_read.1 h
  have hread := hread.renumber (shiftFrom k)
  rw [renumberLines_zipIdx hk] at hread
  obtain ⟨functions', main', a, hread', hopen, hinsert⟩ :=
    hread.insert hnew rfl (fun l => lt_of_mem_take) (fun l hl => List.le_snd_of_mem_zipIdx hl)
  refine ⟨a, _, _, functions', main', ?_, ?_, hinsert, ?_⟩
  · rw [Balance.run_eq_through]
    exact hopen
  · rw [FunctionTable.renumber, List.map_append]
    rfl
  · refine parseProgram_eq_ok_iff_read.2 ⟨functions', main', ?_, ?_, rfl⟩
    · rw [zipIdx_insertLine hk]
      exact hread'
    · rw [hinsert.names, List.map_map]
      exact hdistinct

/-! ## Silent lines -/

/-- A line that is blank or a comment. The list has the text of the comment. -/
inductive SilentLine (line : Text) : List Text → Prop where
  | blank (htrim : line.trim = []) : SilentLine line []
  | comment {rest : Text} (htrim : line.trim = '/' :: '/' :: rest) :
      SilentLine line [Text.trim rest]

theorem SilentLine.read {line : Text} {texts : List Text} (h : SilentLine line texts) (index : Nat) :
    LineRead line index (commentsAt index texts) := by
  cases h with
  | blank htrim => exact .blank (by simp [LineShape.of, htrim])
  | comment htrim => exact .comment (LineShape.of_eq_comment htrim)

theorem BodyInsert.grows {texts : List Text} {body body' : List Stmt}
    (h : BodyInsert (commentsAt k texts) k path body body') : BodyGrows id texts body body' := by
  induction h with
  | @here before after _ _ =>
    have hall := ((bodyGrows_refl before).append (bodyGrows_comments id texts k)).append
      (bodyGrows_refl after)
    simpa using hall
  | @inside before after body body' kind condition line path _ ih =>
    have hblock : BodyGrows id (texts ++ []) (.block kind condition body line :: after)
        (.block kind condition body' line :: after) := .block ih (bodyGrows_refl after)
    have hall := (bodyGrows_refl before).append hblock
    simpa using hall

/-- Functions into one of which comments are inserted have grown by these comments. -/
theorem ProgramInsert.grows {opened : Option OpenLine} {texts : List Text}
    {functions functions' : List (Text × Function)} {main main' : List Stmt}
    (h : ProgramInsert (commentsAt k texts) k path opened functions main functions' main') :
    EntriesGrow id texts (functions ++ [(mainName, ⟨[], main⟩)])
      (functions' ++ [(mainName, ⟨[], main'⟩)]) := by
  cases h with
  | main h =>
    have hall := (entriesGrow_refl functions).append (.cons mainName [] h.grows .nil)
    simpa using hall
  | @function _ before after _ body body' name params _ h =>
    have hfunction : EntriesGrow id (texts ++ []) ((name, ⟨params, body⟩) :: after)
        ((name, ⟨params, body'⟩) :: after) := .cons name params h.grows (entriesGrow_refl after)
    have hall := ((entriesGrow_refl before).append hfunction).append
      (entriesGrow_refl [(mainName, ⟨[], main⟩)])
    simpa using hall

end LogoLang
