import LogoLang.Proofs.Program.Grammar
import LogoLang.Proofs.Program.OpenBlocks
import LogoLang.Proofs.Syntax.Renumbering

set_option autoImplicit false

/-! # Programs as derivations

What a program's lines stand for can be said without the two stacks of assembly, by rules that follow
the structure of the lines: a body is a row of lines and blocks, and a program is a row of lines,
blocks and declarations. `parseProgram_eq_ok_iff_read` says that the phases accept exactly the lines
that the rules derive, with the table that the rules give. Lines carry their numbers, so that lines
can be moved without being read again. -/

namespace LogoLang

/-- Lines with their numbers. -/
abbrev NumberedLines := List (Text × Nat)

/-! ## Rules -/

/-- What a line adds to the body that it stands in, if it opens and closes nothing. -/
inductive LineRead (line : Text) (index : Nat) : List Stmt → Prop where
  | blank (hshape : LineShape.of line = .blank) : LineRead line index []
  | comment {text : Text} (hshape : LineShape.of line = .comment text) :
      LineRead line index [.comment text index]
  | statement {stmt : Stmt} {c : Cursor} (hshape : LineShape.of line = .statement)
      (hread : readStmt? line index = some (stmt, c)) (hleaf : stmt.isBlock = false)
      (hrest : Text.trimRight c.rest = []) (hflaw : stmt.firstFlaw? = none) :
      LineRead line index [stmt]

/-- A line that opens a block in both phases. -/
structure HeaderRead (line : Text) (index : Nat) (kind : BlockKind) (condition : Expr) : Prop where
  opener : LineClass.of line = .opener
  bracket : endsWithBracket line = true
  shape : LineShape.of line = .statement
  read : ∃ c, readStmt? line index = some (.block kind condition [] index, c) ∧
    Text.trimRight c.rest = ['[']
  flawless : condition.firstFlaw? = none

/-- A line that starts the declaration of a function. -/
structure HeadingRead (line name : Text) (params : List Label) : Prop where
  shape : LineShape.of line = .heading
  read : ∃ span c, readDecl? line = some (⟨.named name span, params⟩, c) ∧
    Text.trimRight c.rest = [] ∧ Decl.firstFlaw? ⟨.named name span, params⟩ = none

/-- A line that ends a declaration. -/
structure EndingRead (line : Text) : Prop where
  shape : LineShape.of line = .ending
  alone : afterEnd? line = none

/-- The statements of the lines of a body. -/
inductive BodyRead : NumberedLines → List Stmt → Prop where
  | nil : BodyRead [] []
  | line {line : Text} {index : Nat} {stmts body : List Stmt} {rest : NumberedLines}
      (hline : LineRead line index stmts) (hrest : BodyRead rest body) :
      BodyRead ((line, index) :: rest) (stmts ++ body)
  | block {line close : Text} {index closeIndex : Nat} {kind : BlockKind} {condition : Expr}
      {body after : List Stmt} {inner rest : NumberedLines}
      (hheader : HeaderRead line index kind condition) (hinner : BodyRead inner body)
      (hclose : LineShape.of close = .close) (hrest : BodyRead rest after) :
      BodyRead ((line, index) :: (inner ++ (close, closeIndex) :: rest))
        (.block kind condition body index :: after)

/-- The functions and the top-level statements of the lines of a program. -/
inductive ProgramRead : NumberedLines → List (Text × Function) → List Stmt → Prop where
  | nil : ProgramRead [] [] []
  | line {line : Text} {index : Nat} {stmts main : List Stmt} {functions : List (Text × Function)}
      {rest : NumberedLines} (hline : LineRead line index stmts)
      (hrest : ProgramRead rest functions main) :
      ProgramRead ((line, index) :: rest) functions (stmts ++ main)
  | block {line close : Text} {index closeIndex : Nat} {kind : BlockKind} {condition : Expr}
      {body main : List Stmt} {functions : List (Text × Function)} {inner rest : NumberedLines}
      (hheader : HeaderRead line index kind condition) (hinner : BodyRead inner body)
      (hclose : LineShape.of close = .close) (hrest : ProgramRead rest functions main) :
      ProgramRead ((line, index) :: (inner ++ (close, closeIndex) :: rest)) functions
        (.block kind condition body index :: main)
  | declaration {line close name : Text} {index closeIndex : Nat} {params : List Label}
      {body main : List Stmt} {functions : List (Text × Function)} {inner rest : NumberedLines}
      (hheading : HeadingRead line name params) (hinner : BodyRead inner body)
      (hending : EndingRead close) (hrest : ProgramRead rest functions main) :
      ProgramRead ((line, index) :: (inner ++ (close, closeIndex) :: rest))
        ((name, ⟨params, body⟩) :: functions) main

/-! ## Rows of lines -/

theorem BodyRead.append {lines more : NumberedLines} {body after : List Stmt}
    (h : BodyRead lines body) (hmore : BodyRead more after) :
    BodyRead (lines ++ more) (body ++ after) := by
  induction h with
  | nil => exact hmore
  | line hline _ ih =>
    rw [List.append_assoc]
    exact .line hline ih
  | block hheader hinner hclose _ _ ih =>
    rw [List.cons_append, List.append_assoc]
    exact .block hheader hinner hclose ih

/-- The lines of a body can stand at the top level. -/
theorem BodyRead.program {lines more : NumberedLines} {body main : List Stmt}
    {functions : List (Text × Function)} (h : BodyRead lines body)
    (hmore : ProgramRead more functions main) :
    ProgramRead (lines ++ more) functions (body ++ main) := by
  induction h with
  | nil => exact hmore
  | line hline _ ih =>
    rw [List.append_assoc]
    exact .line hline ih
  | block hheader hinner hclose _ _ ih =>
    rw [List.cons_append, List.append_assoc]
    exact .block hheader hinner hclose ih

/-- A block is a body of its own. -/
theorem BodyRead.ofBlock {line close : Text} {index : Nat} {kind : BlockKind} {condition : Expr}
    {body : List Stmt} {inner : NumberedLines} (hheader : HeaderRead line index kind condition)
    (hinner : BodyRead inner body) (hclose : LineShape.of close = .close) (closeIndex : Nat) :
    BodyRead ((line, index) :: (inner ++ [(close, closeIndex)])) [.block kind condition body index] :=
  .block hheader hinner hclose .nil

theorem BodyRead.ofLine {line : Text} {index : Nat} {stmts : List Stmt}
    (hline : LineRead line index stmts) : BodyRead [(line, index)] stmts := by
  have h := BodyRead.line hline .nil
  rwa [List.append_nil] at h

/-- Lines without a declaration are those of a body. -/
theorem programRead_nil_iff {lines : NumberedLines} {main : List Stmt} :
    ProgramRead lines [] main ↔ BodyRead lines main := by
  constructor
  · intro h
    generalize hnone : ([] : List (Text × Function)) = functions at h
    induction h with
    | nil => exact .nil
    | line hline _ ih => exact .line hline (ih hnone)
    | block hheader hinner hclose _ ih => exact .block hheader hinner hclose (ih hnone)
    | declaration => exact absurd hnone (by simp)
  · intro h
    have hrow := h.program .nil
    rwa [List.append_nil, List.append_nil] at hrow

/-! ## Classes of the lines -/

theorem LineRead.class {line : Text} {index : Nat} {stmts : List Stmt}
    (h : LineRead line index stmts) : LineClass.of line = .other := by
  cases h with
  | blank hshape => exact LineClass.of_blank hshape
  | comment hshape => exact LineClass.of_comment hshape
  | statement hshape hread hleaf _ hflaw => exact LineClass.of_leaf hshape hread hleaf hflaw

/-- The classes of numbered lines. -/
def classesOf (lines : NumberedLines) : List LineClass := lines.map fun line => LineClass.of line.1

theorem classesOf_append (lines more : NumberedLines) :
    classesOf (lines ++ more) = classesOf lines ++ classesOf more :=
  List.map_append

theorem BodyRead.shape {lines : NumberedLines} {body : List Stmt} (h : BodyRead lines body) :
    BodyShape (classesOf lines) := by
  induction h with
  | nil => exact .nil
  | line hline _ ih =>
    rw [classesOf, List.map_cons, hline.class]
    exact .other ih
  | block hheader _ hclose _ ihInner ih =>
    rw [classesOf, List.map_cons, hheader.opener, List.map_append, List.map_cons,
      LineClass.of_close hclose]
    exact .block ihInner ih

/-! ## Runs over numbered lines -/

/-- The effect of numbered lines on the balance check. -/
def Balance.through (s : Balance) (lines : NumberedLines) : Except Diagnostic Balance :=
  lines.foldlM (fun s line => s.step line.2 line.1) s

/-- The effect of numbered lines on what has been assembled. -/
def Assembly.through (s : Assembly) (lines : NumberedLines) : Except AssemblyFailure Assembly :=
  lines.foldlM (fun s line => s.step line.2 line.1) s

theorem Balance.run_eq_through (s : Balance) (index : Nat) (lines : List Text) :
    s.run index lines = s.through (lines.zipIdx index) := by
  induction lines generalizing s index with
  | nil => rfl
  | cons line rest ih =>
    rw [Balance.run_cons, Balance.through, List.zipIdx_cons, List.foldlM_cons]
    congr 1
    funext t
    exact ih t (index + 1)

theorem Balance.through_cons_eq_ok_iff {s t : Balance} {line : Text} {index : Nat}
    {rest : NumberedLines} :
    s.through ((line, index) :: rest) = .ok t ↔
      ∃ mid, Balance.Moves index line s mid ∧ mid.through rest = .ok t := by
  rw [Balance.through, List.foldlM_cons, Except.bind_eq_ok_iff]
  simp only [Balance.step_eq_ok_iff]
  rfl

theorem Balance.through_append (s : Balance) (lines more : NumberedLines) :
    s.through (lines ++ more) = s.through lines >>= fun t => t.through more :=
  List.foldlM_append

/-- Assembly stops with a failure, or it comes to the end of the lines. -/
theorem Assembly.run_eq_through (s : Assembly) (index : Nat) (lines : List Text) :
    s.through (lines.zipIdx index) =
      match s.run index lines with
      | (t, none) => .ok t
      | (_, some failure) => .error failure := by
  induction lines generalizing s index with
  | nil => rfl
  | cons line rest ih =>
    rw [Assembly.run, Assembly.through, List.zipIdx_cons, List.foldlM_cons]
    cases s.step index line with
    | ok t => exact ih t (index + 1)
    | error failure => rfl

theorem Assembly.run_eq_none_iff {s t : Assembly} {index : Nat} {lines : List Text} :
    s.run index lines = (t, none) ↔ s.through (lines.zipIdx index) = .ok t := by
  rw [Assembly.run_eq_through]
  obtain ⟨u, failure⟩ := s.run index lines
  cases failure <;> simp

theorem assemble_eq_through (lines : List Text) :
    assemble lines = Assembly.start.through lines.zipIdx >>= Assembly.finish := by
  rw [assemble, Assembly.ofLines, Assembly.run_eq_through]
  obtain ⟨s, failure⟩ := Assembly.start.run 0 lines
  cases failure <;> rfl

theorem Assembly.through_cons_eq_ok_iff {s t : Assembly} {line : Text} {index : Nat}
    {rest : NumberedLines} :
    s.through ((line, index) :: rest) = .ok t ↔
      ∃ mid, Assembly.Moves index line s mid ∧ mid.through rest = .ok t := by
  rw [Assembly.through, List.foldlM_cons, Except.bind_eq_ok_iff]
  simp only [Assembly.step_eq_ok_iff]
  rfl

theorem Assembly.through_append (s : Assembly) (lines more : NumberedLines) :
    s.through (lines ++ more) = s.through lines >>= fun t => t.through more :=
  List.foldlM_append

/-! ## Derived lines are taken in -/

/-- The lines of a body leave what is open as it was. -/
theorem BodyRead.balance {lines : NumberedLines} {body : List Stmt} (h : BodyRead lines body)
    (s : Balance) : s.through lines = .ok s := by
  induction h generalizing s with
  | nil => rfl
  | line hline _ ih => exact Balance.through_cons_eq_ok_iff.2 ⟨s, .other hline.class, ih s⟩
  | @block line close index closeIndex _ _ _ _ _ _ hheader _ hclose _ ihInner ih =>
    obtain ⟨blocks, decl⟩ := s
    refine Balance.through_cons_eq_ok_iff.2
      ⟨⟨⟨index, line⟩ :: blocks, decl⟩, .opener hheader.opener hheader.bracket, ?_⟩
    rw [Balance.through_append, ihInner]
    exact Balance.through_cons_eq_ok_iff.2 ⟨_, .closer (LineClass.of_close hclose), ih _⟩

/-- The statements of a line are added to the innermost body. -/
theorem LineRead.moves {line : Text} {index : Nat} {stmts : List Stmt}
    (h : LineRead line index stmts) (table : FunctionTable) (pending : List BlockHeader)
    (body : List Stmt) (outer : List (List Stmt)) (decl : Option Decl)
    (headings : List (Nat × Decl)) :
    Assembly.Moves index line ⟨table, pending, body :: outer, decl, headings⟩
      ⟨table, pending, (body ++ stmts) :: outer, decl, headings⟩ := by
  cases h with
  | blank hshape =>
    rw [List.append_nil]
    exact .blank hshape
  | comment hshape => exact .comment hshape
  | statement hshape hread hleaf hrest hflaw => exact .statement hshape hread hleaf hrest hflaw

/-- The statements of a body are added to the innermost body. -/
theorem BodyRead.assembly {lines : NumberedLines} {stmts : List Stmt} (h : BodyRead lines stmts) :
    ∀ (table : FunctionTable) (pending : List BlockHeader) (body : List Stmt)
      (outer : List (List Stmt)) (decl : Option Decl) (headings : List (Nat × Decl)),
      Assembly.through ⟨table, pending, body :: outer, decl, headings⟩ lines =
        .ok ⟨table, pending, (body ++ stmts) :: outer, decl, headings⟩ := by
  induction h with
  | nil =>
    intro table pending body outer decl headings
    rw [List.append_nil]
    rfl
  | line hline _ ih =>
    intro table pending body outer decl headings
    refine Assembly.through_cons_eq_ok_iff.2
      ⟨_, hline.moves table pending body outer decl headings, ?_⟩
    rw [ih, List.append_assoc]
  | block hheader _ hclose _ ihInner ih =>
    intro table pending body outer decl headings
    obtain ⟨c, hread, hrest⟩ := hheader.read
    refine Assembly.through_cons_eq_ok_iff.2
      ⟨_, .header hheader.shape hread hrest hheader.flawless, ?_⟩
    rw [Assembly.through_append, ihInner]
    refine Assembly.through_cons_eq_ok_iff.2 ⟨_, .close hclose, ?_⟩
    rw [ih, List.append_assoc]
    rfl

/-- The lines of a program leave nothing open. -/
theorem ProgramRead.balance {lines : NumberedLines} {functions : List (Text × Function)}
    {main : List Stmt} (h : ProgramRead lines functions main) :
    Balance.start.through lines = .ok Balance.start := by
  induction h with
  | nil => rfl
  | line hline _ ih => exact Balance.through_cons_eq_ok_iff.2 ⟨_, .other hline.class, ih⟩
  | block hheader hinner hclose _ ih =>
    refine Balance.through_cons_eq_ok_iff.2 ⟨_, .opener hheader.opener hheader.bracket, ?_⟩
    rw [Balance.through_append, hinner.balance]
    exact Balance.through_cons_eq_ok_iff.2 ⟨_, .closer (LineClass.of_close hclose), ih⟩
  | declaration hheading hinner hending _ ih =>
    refine Balance.through_cons_eq_ok_iff.2 ⟨_, .heading (LineClass.of_heading hheading.shape), ?_⟩
    rw [Balance.through_append, hinner.balance]
    exact Balance.through_cons_eq_ok_iff.2 ⟨_, .ending (LineClass.of_ending hending.shape), ih⟩

/-- The lines of a program add their functions to the table and their statements to the top-level
    body, as long as no name is declared twice. -/
theorem ProgramRead.assembly {lines : NumberedLines} {functions : List (Text × Function)}
    {main : List Stmt} (h : ProgramRead lines functions main) :
    ∀ (table : FunctionTable) (before : List Stmt) (headings : List (Nat × Decl)),
      (table.names ++ functions.map Prod.fst).Nodup →
      ∃ headings', Assembly.through ⟨table, [], [before], none, headings⟩ lines =
        .ok ⟨⟨table.entries ++ functions⟩, [], [before ++ main], none, headings'⟩ := by
  induction h with
  | nil =>
    intro table before headings _
    refine ⟨headings, ?_⟩
    rw [List.append_nil, List.append_nil]
    rfl
  | line hline _ ih =>
    intro table before headings hdistinct
    obtain ⟨headings', hrun⟩ := ih table (before ++ _) headings hdistinct
    refine ⟨headings', Assembly.through_cons_eq_ok_iff.2
      ⟨_, hline.moves table [] before [] none headings, ?_⟩⟩
    rw [hrun, List.append_assoc]
  | @block _ _ index _ kind condition body _ _ _ _ hheader hinner hclose _ ih =>
    intro table before headings hdistinct
    obtain ⟨headings', hrun⟩ :=
      ih table (before ++ [.block kind condition body index]) headings hdistinct
    obtain ⟨c, hread, hrest⟩ := hheader.read
    refine ⟨headings', Assembly.through_cons_eq_ok_iff.2
      ⟨_, .header hheader.shape hread hrest hheader.flawless, ?_⟩⟩
    rw [Assembly.through_append, hinner.assembly]
    refine Assembly.through_cons_eq_ok_iff.2 ⟨_, .close hclose, ?_⟩
    rw [List.append_assoc] at hrun
    exact hrun
  | @declaration _ _ name _ _ params body _ functions _ _ hheading hinner hending _ ih =>
    intro table before headings hdistinct
    have hnames : (table.names ++ name :: functions.map Prod.fst).Nodup := hdistinct
    have hnew : table.contains name = false := by
      -- the name is distinct from all that were declared before it
      rw [FunctionTable.contains_eq_false_iff]
      intro hmem
      exact (List.nodup_append.1 hnames).2.2 _ hmem _ List.mem_cons_self rfl
    have hdistinct' : (FunctionTable.names ⟨table.entries ++ [(name, ⟨params, body⟩)]⟩ ++
        functions.map Prod.fst).Nodup := by
      rw [FunctionTable.names_append, List.append_assoc]
      exact hnames
    obtain ⟨span, c, hread, hrest, hflaw⟩ := hheading.read
    obtain ⟨headings', hrun⟩ := ih _ before (_ :: headings) hdistinct'
    refine ⟨headings', Assembly.through_cons_eq_ok_iff.2
      ⟨_, .heading hheading.shape hread hrest hnew hflaw, ?_⟩⟩
    rw [Assembly.through_append, hinner.assembly]
    refine Assembly.through_cons_eq_ok_iff.2 ⟨_, .ending hending.shape hending.alone hnew, ?_⟩
    rw [List.append_assoc] at hrun
    exact hrun

/-! ## Lines that are taken in are derived -/

/-- What the lines to come do for the bodies that are open: those of the pending blocks, that of the
    declaration, and the top level. Each of them is filled up to its end. -/
inductive Continues : List BlockHeader → List (List Stmt) → Option Decl → NumberedLines →
    List (Text × Function) → List Stmt → Prop where
  | outside {before main : List Stmt} {lines : NumberedLines} {functions : List (Text × Function)}
      (hrest : ProgramRead lines functions main) :
      Continues [] [before] none lines functions (before ++ main)
  | inDeclaration {before body after main : List Stmt} {name close : Text} {span : Span}
      {params : List Label} {closeIndex : Nat} {inner rest : NumberedLines}
      {functions : List (Text × Function)} (hinner : BodyRead inner body)
      (hending : EndingRead close) (hrest : ProgramRead rest functions main) :
      Continues [] [before, after] (some ⟨.named name span, params⟩)
        (inner ++ (close, closeIndex) :: rest) ((name, ⟨params, before ++ body⟩) :: functions)
        (after ++ main)
  | inBlock {header : BlockHeader} {pending : List BlockHeader} {before body around main : List Stmt}
      {outer : List (List Stmt)} {decl : Option Decl} {close : Text} {closeIndex : Nat}
      {inner rest : NumberedLines} {functions : List (Text × Function)}
      (hinner : BodyRead inner body) (hclose : LineShape.of close = .close)
      (hrest : Continues pending ((around ++ [header.close (before ++ body)]) :: outer) decl rest
        functions main) :
      Continues (header :: pending) (before :: around :: outer) decl
        (inner ++ (close, closeIndex) :: rest) functions main

/-- The lines of a body go to the innermost body that is open. -/
theorem Continues.body {pending : List BlockHeader} {before stmts main : List Stmt}
    {outer : List (List Stmt)} {decl : Option Decl} {lines rest : NumberedLines}
    {functions : List (Text × Function)} (hbody : BodyRead lines stmts)
    (h : Continues pending ((before ++ stmts) :: outer) decl rest functions main) :
    Continues pending (before :: outer) decl (lines ++ rest) functions main := by
  cases h with
  | outside hrest =>
    rw [List.append_assoc]
    exact .outside (hbody.program hrest)
  | inDeclaration hinner hending hrest =>
    rw [← List.append_assoc, List.append_assoc before]
    exact .inDeclaration (hbody.append hinner) hending hrest
  | inBlock hinner hclose hrest =>
    rw [← List.append_assoc]
    rw [List.append_assoc] at hrest
    exact .inBlock (hbody.append hinner) hclose hrest

/-- A line that both phases take in, read with what the lines after it do. -/
theorem Continues.step {line : Text} {index : Nat} {a a' : Balance} {s s' : Assembly}
    {rest : NumberedLines} {functions : List (Text × Function)} {main : List Stmt}
    (haligned : Aligned a s) (hblocks : SameBlocks a s) (hvisible : isHiddenHeader line = false)
    (ha : Balance.Moves index line a a') (hs : Assembly.Moves index line s s')
    (h : Continues s'.pending s'.scopes s'.decl rest functions main) :
    ∃ new, s'.table.entries = s.table.entries ++ new ∧
      Continues s.pending s.scopes s.decl ((line, index) :: rest) (new ++ functions) main := by
  cases hs with
  | blank hshape =>
    obtain ⟨body, outer, hscopes⟩ := haligned.exists_body
    refine ⟨[], (List.append_nil _).symm, ?_⟩
    rw [hscopes] at h ⊢
    rw [← List.append_nil body] at h
    exact Continues.body (BodyRead.ofLine (.blank hshape)) h
  | comment hshape =>
    exact ⟨[], (List.append_nil _).symm, Continues.body (BodyRead.ofLine (.comment hshape)) h⟩
  | statement hshape hread hleaf hrest hflaw =>
    exact ⟨[], (List.append_nil _).symm,
      Continues.body (BodyRead.ofLine (.statement hshape hread hleaf hrest hflaw)) h⟩
  | header hshape hread hrest hflaw =>
    refine ⟨[], (List.append_nil _).symm, ?_⟩
    have hclass : LineClass.of line = .opener := by
      refine (LineClass.of_block hread rfl).2.resolve_right fun hother => ?_
      rw [(isHiddenHeader_of_block hread).2 hother] at hvisible
      exact absurd hvisible (by simp)
    cases ha with
    | opener _ hbracket =>
      have hheader : HeaderRead line index _ _ :=
        ⟨hclass, hbracket, hshape, ⟨_, hread, hrest⟩, hflaw⟩
      -- the block is a row of lines in the body around it
      cases h with
      | @inBlock _ _ _ _ _ _ _ _ _ closeIndex _ _ _ hinner hclose hafter =>
        have hblock := BodyRead.ofBlock hheader hinner hclose closeIndex
        have hrow := Continues.body hblock hafter
        rw [List.cons_append, List.append_assoc] at hrow
        exact hrow
    | closer h | heading h | ending h | other h =>
      rw [hclass] at h
      exact absurd h (by simp)
  | close hshape =>
    refine ⟨[], (List.append_nil _).symm, ?_⟩
    refine Continues.inBlock .nil hshape ?_
    rw [List.append_nil]
    exact h
  | @heading name span params c table pending scopes decl _ hshape hread hrest hnew hflaw =>
    refine ⟨[], (List.append_nil _).symm, ?_⟩
    have hclass := LineClass.of_heading hshape
    cases ha with
    | heading _ =>
      -- nothing is open in the check, hence nothing in assembly
      have hclosed : decl = none := by simpa using haligned.decl.symm
      have hnone : pending = [] := List.map_eq_nil_iff.1 hblocks.symm
      subst hclosed hnone
      obtain ⟨before, outer, rfl⟩ := haligned.exists_body
      cases h with
      | inDeclaration hinner hending hafter =>
        exact .outside (.declaration ⟨hshape, _, _, hread, hrest, hflaw⟩ hinner hending hafter)
    | opener h _ | closer h | ending h | other h =>
      rw [hclass] at h
      exact absurd h (by simp)
  | @ending name span params table pending body outer _ hshape hafter hnew =>
    have hclass := LineClass.of_ending hshape
    cases ha with
    | ending _ =>
      have hnone : pending = [] := List.map_eq_nil_iff.1 hblocks.symm
      subst hnone
      cases h with
      | @outside after main _ _ hrest =>
        refine ⟨[(name, ⟨params, body⟩)], rfl, ?_⟩
        have hdone : Continues [] [body, after] (some ⟨.named name span, params⟩)
            ([] ++ (line, index) :: rest) ((name, ⟨params, body ++ []⟩) :: functions)
            (after ++ main) := .inDeclaration .nil ⟨hshape, hafter⟩ hrest
        rw [List.append_nil] at hdone
        exact hdone
    | opener h _ | closer h | heading h | other h =>
      rw [hclass] at h
      exact absurd h (by simp)

theorem Continues.runs {lines : List Text} {index : Nat} {a : Balance} {s last : Assembly}
    {main : List Stmt} (haligned : Aligned a s) (hblocks : SameBlocks a s)
    (hvisible : ∀ line ∈ lines, isHiddenHeader line = false)
    (ha : a.run index lines = .ok Balance.start) (hs : s.run index lines = (last, none))
    (hpending : last.pending = []) (hdecl : last.decl = none) (hscopes : last.scopes = [main]) :
    ∃ functions, last.table.entries = s.table.entries ++ functions ∧
      Continues s.pending s.scopes s.decl (lines.zipIdx index) functions main := by
  induction lines generalizing index a s with
  | nil =>
    cases hs
    refine ⟨[], (List.append_nil _).symm, ?_⟩
    have hend : Continues [] [main] none [] [] (main ++ []) := .outside .nil
    rw [List.append_nil] at hend
    rw [hpending, hdecl, hscopes]
    exact hend
  | cons line rest ih =>
    obtain ⟨a₁, hmoveA, hrunA⟩ := Balance.run_cons_eq_ok_iff.1 ha
    obtain ⟨s₁, hmoveS, hrunS⟩ := Assembly.run_cons_eq_none_iff.1 hs
    rw [List.forall_mem_cons] at hvisible
    have hblocks₁ := hblocks.lockStep (lockStep_of_moves hvisible.1 hmoveA hmoveS)
    obtain ⟨functions, hentries, hrest⟩ :=
      ih (haligned.moves hmoveA hmoveS) hblocks₁ hvisible.2 hrunA hrunS
    obtain ⟨new, hnew, hstep⟩ :=
      Continues.step haligned hblocks hvisible.1 hmoveA hmoveS hrest
    refine ⟨new ++ functions, ?_, hstep⟩
    rw [hentries, hnew, List.append_assoc]

/-- **The phases accept what the rules derive.** The table has the functions in their order, and the
    top level last. -/
theorem parseProgram_eq_ok_iff_read {lines : List Text} {table : FunctionTable} :
    parseProgram lines = .ok table ↔
      ∃ functions main, ProgramRead lines.zipIdx functions main ∧
        (functions.map Prod.fst).Nodup ∧ table = ⟨functions ++ [(mainName, ⟨[], main⟩)]⟩ := by
  constructor
  · intro h
    obtain ⟨hcheck, hassemble⟩ := parseProgram_eq_ok_iff.1 h
    rw [checkBalance_eq_ok_iff_run] at hcheck
    obtain ⟨last, hrun, hfinish⟩ := assemble_eq_ok_iff.1 hassemble
    obtain ⟨main, outer, hdecl, hpending, hscopes, htop, rfl⟩ := Assembly.finish_eq_ok_iff.1 hfinish
    have haligned := aligned_start.runs hcheck hrun
    have houter : outer = [] := by
      have hlength := haligned.scopes
      rw [hdecl, hpending, hscopes] at hlength
      simpa using hlength
    subst houter
    have hvisible := not_isHiddenHeader_of_accepted hcheck hrun hpending
    obtain ⟨functions, hentries, hread⟩ :=
      Continues.runs aligned_start sameBlocks_start hvisible hcheck hrun hpending hdecl hscopes
    have hfunctions : last.table.entries = functions := hentries
    cases hread with
    | outside hmain =>
      refine ⟨functions, _, hmain, ?_, by rw [hfunctions, List.nil_append]⟩
      rw [← hfunctions]
      exact haligned.distinct
  · rintro ⟨functions, main, hread, hdistinct, rfl⟩
    have hcheck : Balance.start.run 0 lines = .ok Balance.start := by
      rw [Balance.run_eq_through]
      exact hread.balance
    obtain ⟨headings, hassembly⟩ := hread.assembly FunctionTable.empty [] [] hdistinct
    have hrun := Assembly.run_eq_none_iff.2 hassembly
    have htop := (aligned_start.runs hcheck hrun).top
    refine parseProgram_eq_ok_iff.2 ⟨checkBalance_eq_ok_iff_run.2 hcheck, ?_⟩
    refine assemble_eq_ok_iff.2 ⟨_, hrun, ?_⟩
    exact Assembly.finish_eq_ok_iff.2 ⟨main, [], rfl, rfl, rfl, htop, rfl⟩

/-- No name is taken twice, that of the top level included. -/
theorem nodup_names_of_parseProgram {lines : List Text} {table : FunctionTable}
    (h : parseProgram lines = .ok table) : table.names.Nodup := by
  obtain ⟨hcheck, hassemble⟩ := parseProgram_eq_ok_iff.1 h
  rw [checkBalance_eq_ok_iff_run] at hcheck
  obtain ⟨last, hrun, hfinish⟩ := assemble_eq_ok_iff.1 hassemble
  obtain ⟨main, outer, _, _, _, htop, rfl⟩ := Assembly.finish_eq_ok_iff.1 hfinish
  exact FunctionTable.nodup_append _ (aligned_start.runs hcheck hrun).distinct htop

/-! ## Other line numbers -/

/-- Numbered lines with other numbers. -/
def renumberLines (σ : Nat → Nat) (lines : NumberedLines) : NumberedLines :=
  lines.map fun line => (line.1, σ line.2)

theorem LineRead.renumber {line : Text} {index : Nat} {stmts : List Stmt}
    (h : LineRead line index stmts) (σ : Nat → Nat) :
    LineRead line (σ index) (renumberBody σ stmts) := by
  cases h with
  | blank hshape => exact .blank hshape
  | comment hshape => exact .comment hshape
  | statement hshape hread hleaf hrest hflaw =>
    exact .statement hshape (readStmt?_eq_some_renumber hread) (by simpa using hleaf) hrest
      (by simpa using hflaw)

theorem HeaderRead.renumber {line : Text} {index : Nat} {kind : BlockKind} {condition : Expr}
    (h : HeaderRead line index kind condition) (σ : Nat → Nat) :
    HeaderRead line (σ index) kind condition := by
  obtain ⟨c, hread, hrest⟩ := h.read
  exact ⟨h.opener, h.bracket, h.shape, ⟨c, readStmt?_eq_some_renumber hread, hrest⟩, h.flawless⟩

theorem BodyRead.renumber {lines : NumberedLines} {body : List Stmt} (h : BodyRead lines body)
    (σ : Nat → Nat) : BodyRead (renumberLines σ lines) (renumberBody σ body) := by
  induction h with
  | nil => exact .nil
  | line hline _ ih =>
    rw [renumberBody_append]
    exact .line (hline.renumber σ) ih
  | block hheader _ hclose _ ihInner ih =>
    rw [renumberLines, List.map_cons, List.map_append, List.map_cons]
    exact .block (hheader.renumber σ) ihInner hclose ih

theorem ProgramRead.renumber {lines : NumberedLines} {functions : List (Text × Function)}
    {main : List Stmt} (h : ProgramRead lines functions main) (σ : Nat → Nat) :
    ProgramRead (renumberLines σ lines) (functions.map (renumberEntry σ))
      (renumberBody σ main) := by
  induction h with
  | nil => exact .nil
  | line hline _ ih =>
    rw [renumberBody_append]
    exact .line (hline.renumber σ) ih
  | block hheader hinner hclose _ ih =>
    rw [renumberLines, List.map_cons, List.map_append, List.map_cons]
    exact .block (hheader.renumber σ) (hinner.renumber σ) hclose ih
  | declaration hheading hinner hending _ ih =>
    rw [renumberLines, List.map_cons, List.map_append, List.map_cons]
    exact .declaration hheading (hinner.renumber σ) hending ih

end LogoLang
