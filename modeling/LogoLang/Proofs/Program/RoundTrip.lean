import LogoLang.Proofs.Program.Aligned
import LogoLang.Proofs.Program.WrittenLine

set_option autoImplicit false

/-! # Written programs are read back

The lines of an abstract program are accepted, and their function table is the one that the program
describes, up to the places of its parts (`parseProgram_lines`). Both phases are followed over the
lines of a phrase at once: the balance check ends in the state in which it started, and assembly has
added the statements of the phrase to the innermost body. -/

namespace LogoLang

/-! ## Rows of lines -/

/-- Lines are taken in as statements: they leave the balance check in the state that it is in, and
    assembly adds to the innermost body statements with the given trees. -/
def LinesTakenAs (lines : List Text) (index : Nat) (trees : List Stmt) : Prop :=
  (∀ a : Balance, a.run index lines = .ok a) ∧ ∃ stmts, bareBody stmts = trees ∧
    ∀ (table : FunctionTable) (pending : List BlockHeader) (body : List Stmt)
      (outer : List (List Stmt)) (decl : Option Decl) (headings : List (Nat × Decl)),
      Assembly.run ⟨table, pending, body :: outer, decl, headings⟩ index lines =
        (⟨table, pending, (body ++ stmts) :: outer, decl, headings⟩, none)

theorem linesTakenAs_nil (index : Nat) : LinesTakenAs [] index [] := by
  refine ⟨fun a => rfl, [], rfl, fun table pending body outer decl headings => ?_⟩
  rw [List.append_nil]
  rfl

theorem TakenAs.lines {line : Text} {index : Nat} {tree : Stmt} (h : TakenAs line index tree) :
    LinesTakenAs [line] index [tree] := by
  obtain ⟨hclass, stmt, hbare, hmoves⟩ := h
  refine ⟨fun a => ?_, [stmt], ?_, fun table pending body outer decl headings => ?_⟩
  · exact Balance.run_cons_eq_ok_iff.2 ⟨a, .other hclass, rfl⟩
  · rw [bareBody, bareBody, hbare]
  · exact Assembly.run_cons_eq_none_iff.2 ⟨_, hmoves table pending body outer decl headings, rfl⟩

theorem LinesTakenAs.append {lines more : List Text} {index : Nat} {trees moreTrees : List Stmt}
    (h : LinesTakenAs lines index trees)
    (hmore : LinesTakenAs more (index + lines.length) moreTrees) :
    LinesTakenAs (lines ++ more) index (trees ++ moreTrees) := by
  obtain ⟨hcheck, stmts, hbare, hrun⟩ := h
  obtain ⟨hcheck', stmts', hbare', hrun'⟩ := hmore
  refine ⟨fun a => ?_, stmts ++ stmts', ?_, fun table pending body outer decl headings => ?_⟩
  · rw [Balance.run_append, hcheck a]
    exact hcheck' a
  · rw [bareBody_append, hbare, hbare']
  · rw [Assembly.run_append (hrun table pending body outer decl headings), hrun', List.append_assoc]

/-- The lines of a block: its header, the lines of its body, and the bracket. -/
theorem LinesTakenAs.block {lines : List Text} {index : Nat} {trees : List Stmt} (kind : BlockKind)
    (condition : Term) (h : LinesTakenAs lines (index + 1) trees) :
    LinesTakenAs (headerLine kind condition :: (lines ++ [[']']])) index
      [.block kind condition.expr trees index] := by
  obtain ⟨hcheck, stmts, hbare, hrun⟩ := h
  obtain ⟨hclass, e, he, hmoves⟩ := moves_of_headerLine kind condition index
  have hshape : LineShape.of [']'] = .close := by decide
  refine ⟨?_, [.block kind e stmts index], ?_, ?_⟩
  · rintro ⟨blocks, opened⟩
    have hopen : Balance.Moves index (headerLine kind condition) ⟨blocks, opened⟩
        ⟨⟨index, headerLine kind condition⟩ :: blocks, opened⟩ :=
      .opener hclass (endsWithBracket_headerLine kind condition)
    exact Balance.run_delimited hopen (hcheck _) (.closer (LineClass.of_close hshape)) rfl
  · rw [bareBody, bareBody, Stmt.bare, he, hbare]
  · intro table pending body outer decl headings
    exact Assembly.run_delimited (hmoves table pending (body :: outer) decl headings)
      (hrun table _ [] (body :: outer) decl headings) (.close hshape)

/-! ## Phrases -/

mutual

theorem Phrase.linesTakenAs (p : Phrase) (index : Nat) :
    LinesTakenAs p.lines index [p.stmt index] := by
  cases p with
  | block kind condition body => exact (linesTakenAs_body body (index + 1)).block kind condition
  | assign kind target value => exact (takenAs_assign kind target value index).lines
  | pen down => exact (takenAs_pen down index).lines
  | command cmd value => exact (takenAs_command cmd value index).lines
  | call name args => exact (takenAs_call name args index).lines
  | comment remark => exact (takenAs_comment remark index).lines

theorem linesTakenAs_body (body : List Phrase) (index : Nat) :
    LinesTakenAs (bodyLines body) index (bodyStmts index body) := by
  cases body with
  | nil => exact linesTakenAs_nil index
  | cons p rest => exact (p.linesTakenAs index).append (linesTakenAs_body rest _)

end

/-! ## Declarations -/

theorem checkBalance_declaration (d : Declaration) (index : Nat) :
    Balance.start.run index d.lines = .ok Balance.start := by
  obtain ⟨hclass, _⟩ := moves_of_heading d index
  obtain ⟨hcheck, _⟩ := linesTakenAs_body d.body (index + 1)
  have hend : LineShape.of endKeyword = .ending := by decide
  exact Balance.run_delimited (.heading hclass) (hcheck _) (.ending (LineClass.of_ending hend)) rfl

/-- The lines of a declaration add its function to the table. -/
theorem assemble_declaration (d : Declaration) (index : Nat) {table : FunctionTable}
    (hnew : table.contains d.name.text = false) (main : List Stmt) (headings : List (Nat × Decl)) :
    ∃ f headings', f.bare = d.function index ∧
      Assembly.run ⟨table, [], [main], none, headings⟩ index d.lines =
        (⟨⟨table.entries ++ [(d.name.text, f)]⟩, [], [main], none, headings'⟩, none) := by
  obtain ⟨_, span, params, hparams, hmoves⟩ := moves_of_heading d index
  obtain ⟨_, stmts, hstmts, hrun⟩ := linesTakenAs_body d.body (index + 1)
  have hend : LineShape.of endKeyword = .ending := by decide
  refine ⟨⟨params, stmts⟩, (index, ⟨.named d.name.text span, params⟩) :: headings, ?_, ?_⟩
  · rw [Function.bare, hparams, hstmts]
    rfl
  · exact Assembly.run_delimited (hmoves table [] [main] none headings hnew)
      (hrun table [] [] [main] _ _) (.ending hend (by decide) hnew)

/-! ## Programs -/

theorem checkBalance_items (items : List Item) (index : Nat) :
    Balance.start.run index (items.flatMap Item.lines) = .ok Balance.start := by
  induction items generalizing index with
  | nil => rfl
  | cons item rest ih =>
    rw [List.flatMap_cons, Balance.run_append]
    cases item with
    | phrase p =>
      rw [Item.lines, (p.linesTakenAs index).1]
      exact ih _
    | declaration d =>
      rw [Item.lines, checkBalance_declaration d index]
      exact ih _

/-- The lines of items add to the table and to the top-level body what the items describe, as long
    as no name is declared twice. -/
theorem assemble_items (items : List Item) (index : Nat) {table : FunctionTable}
    (hdistinct : (table.names ++ items.filterMap Item.name?).Nodup) (main : List Stmt)
    (headings : List (Nat × Decl)) :
    ∃ functions stmts headings', functions.map bareEntry = functionsOf index items ∧
      bareBody stmts = mainOf index items ∧
      Assembly.run ⟨table, [], [main], none, headings⟩ index (items.flatMap Item.lines) =
        (⟨⟨table.entries ++ functions⟩, [], [main ++ stmts], none, headings'⟩, none) := by
  induction items generalizing index table main headings with
  | nil =>
    refine ⟨[], [], headings, rfl, rfl, ?_⟩
    rw [List.append_nil, List.append_nil]
    rfl
  | cons item rest ih =>
    rw [List.flatMap_cons]
    cases item with
    | phrase p =>
      obtain ⟨_, stmts, hstmts, hrun⟩ := p.linesTakenAs index
      have hrun := hrun table [] main [] none headings
      obtain ⟨functions, more, headings', hfunctions, hmore, hrest⟩ :=
        ih (index + p.lines.length) hdistinct (main ++ stmts) headings
      refine ⟨functions, stmts ++ more, headings', hfunctions, ?_, ?_⟩
      · rw [bareBody_append, hstmts, hmore]
        rfl
      · rw [Item.lines, Assembly.run_append hrun, hrest, List.append_assoc]
    | declaration d =>
      have hnames : (table.names ++ d.name.text :: rest.filterMap Item.name?).Nodup := hdistinct
      have hnew : table.contains d.name.text = false := by
        -- the name is distinct from all that were declared before it
        rw [FunctionTable.contains_eq_false_iff]
        intro hmem
        exact (List.nodup_append.1 hnames).2.2 _ hmem _ (List.mem_cons_self ..) rfl
      obtain ⟨f, headings₁, hf, hrun⟩ := assemble_declaration d index hnew main headings
      have hdistinct' : (FunctionTable.names ⟨table.entries ++ [(d.name.text, f)]⟩ ++
          rest.filterMap Item.name?).Nodup := by
        rw [FunctionTable.names_append, List.append_assoc]
        exact hnames
      obtain ⟨functions, more, headings', hfunctions, hmore, hrest⟩ :=
        ih (index + d.lines.length) hdistinct' main headings₁
      refine ⟨(d.name.text, f) :: functions, more, headings', ?_, hmore, ?_⟩
      · rw [List.map_cons, hfunctions, bareEntry, hf]
        rfl
      · rw [Item.lines, Assembly.run_append hrun, hrest]
        simp

/-- **Whole programs are read back**: the lines of an abstract program are accepted, and the
    function table that they give is that of the program, up to the places. -/
theorem parseProgram_lines (p : AbstractProgram) :
    ∃ table, parseProgram p.lines = .ok table ∧ table.bare = p.table := by
  have hcheck := checkBalance_items p.items 0
  have hdistinct : (FunctionTable.empty.names ++ p.items.filterMap Item.name?).Nodup := p.distinct
  obtain ⟨functions, main, headings, hfunctions, hmain, hrun⟩ :=
    assemble_items p.items 0 hdistinct [] []
  have htop := (aligned_start.runs hcheck hrun).top
  refine ⟨⟨functions ++ [(mainName, ⟨[], main⟩)]⟩, ?_, ?_⟩
  · refine parseProgram_eq_ok_iff.2 ⟨checkBalance_eq_ok_iff_run.2 hcheck, ?_⟩
    refine assemble_eq_ok_iff.2 ⟨_, hrun, ?_⟩
    exact Assembly.finish_eq_ok_iff.2 ⟨main, [], rfl, rfl, rfl, htop, rfl⟩
  · rw [FunctionTable.bare, List.map_append, hfunctions, AbstractProgram.table, ← hmain]
    rfl

end LogoLang
