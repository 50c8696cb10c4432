import LogoLang.Proofs.Emit.Reading
import LogoLang.Proofs.Session.Comments
import LogoLang.Proofs.Session.WellFormed

set_option autoImplicit false

/-! # The block structure of emitted programs

Each function of an emitted program can be read back from the physical lines of its code, comments left
out. Their depths keep to the rules of indentation, and the trees that they stand for are the statements
of the function, with a line that does nothing in each body that has none
(`emitted_functions_mirror_program`). -/

namespace LogoLang

/-- What the code of a function shows of its body: after the first line, each physical line is a depth
    and code. Those that are no comments keep to the rules of indentation. As trees they are the
    statements, with a line that does nothing in the bodies that are bare and nowhere else. -/
structure Mirrors (table : FunctionTable) (entry : Text × Function) (code : Text) : Prop where
  rows : ∃ rest, code.rows = signature entry.1 entry.2 :: rest ∧
    ∀ row ∈ rest, (readRow row).toText = row
  nonempty : readDef code ≠ []
  indented : Indented 1 (readDef code)
  nested : ∃ scope trees, BodyShown table passIfBare entry.2.scope entry.2.body scope trees ∧
    nest (readDef code) = passIfBare entry.2.body trees
  statements : ∃ scope, BodyShown table (fun _ trees => trees) entry.2.scope entry.2.body scope
    (dropPass (nest (readDef code)))

/-- The code of a function shows its body if all parts are well formed and the comments have no line
    ends in them. -/
theorem EntryEmitted.mirrors {table : FunctionTable} {entry : Text × Function} {code : Text}
    (hname : isValidName entry.1 = true ∨ entry.1 = mainName)
    (hparams : ∀ param ∈ entry.2.params, param.IsName)
    (hform : ∀ stmt ∈ allStmts entry.2.body, stmt.WellFormed)
    (hcomments : ∀ text ∈ bodyComments entry.2.body, Text.OneRow text)
    (h : EntryEmitted table entry code) : Mirrors table entry code := by
  obtain ⟨lines, hlines, rfl⟩ := h
  obtain ⟨scope, trees, hshown, hcode, hread⟩ := exists_shown_of_emitLines hform hcomments hlines
  have hdef : readDef (functionText entry.1 entry.2 lines) =
      writeTrees 1 (passIfBare entry.2.body trees) := by
    rw [readDef_functionText hname hparams hread, hcode]
  have hnest : nest (readDef (functionText entry.1 entry.2 lines)) =
      passIfBare entry.2.body trees := by
    rw [hdef, nest_writeTrees]
  refine ⟨⟨_, rows_functionText hname hparams hread, ?_⟩, ?_, ?_, ⟨scope, trees, hshown, hnest⟩, ?_⟩
  · intro row hrow
    obtain ⟨line, hline, rfl⟩ := List.mem_map.1 hrow
    rw [(hread line hline).readRow]
  · rw [hdef]
    exact mt writeTrees_eq_nil_iff.1 hshown.passIfBare_ne_nil
  · rw [hdef]
    exact writeTrees_indented (Nat.le_refl 1) (properTrees_passIfBare _ (hshown.proper hform))
  · rw [hnest, hshown.dropPass_passIfBare]
    exact ⟨scope, hshown.dropPass hform⟩

/-- **The emitted functions have the block structure of the program**, for a program that is cut into
    lines by its line boundaries. -/
theorem emitted_functions_mirror_program {source : Source} (hcut : source.IsCut)
    {table : FunctionTable} (h : parseProgram source.toLines = .ok table) {options : Options}
    {name : Setting} {module : Text}
    (hemit : (Session.emit ⟨options, name, source.toLines, table⟩).result = .ok module) :
    ∃ codes, table.emit.result = .ok codes ∧ List.Forall₂ (Mirrors table) table.entries codes ∧
      module = moduleText codes (Session.emit ⟨options, name, source.toLines, table⟩).methods
        options.canvas.1 options.canvas.2 := by
  obtain ⟨codes, hcodes⟩ := Session.exists_codes_of_emit hemit
  have hmodule := (Session.emit_of_ok hcodes).symm.trans hemit
  have hform := (takenFrom_of_parseProgram h).wellFormed
  have hcomments := oneRow_of_isCut hcut h
  have hemitted : List.Forall₂ (EntryEmitted table) table.entries codes :=
    emitFunctions_eq_ok_iff.1 hcodes
  have hboth := (List.forall₂_and_left _ _).2 ⟨fun entry hentry => hentry, hemitted⟩
  refine ⟨codes, hcodes, hboth.imp ?_, (Except.ok.inj hmodule).symm⟩
  rintro entry code ⟨hentry, hcode⟩
  refine hcode.mirrors (hform.names entry hentry) (hform.params entry hentry) ?_ ?_
  · intro stmt hstmt
    exact hform.stmts stmt (List.mem_flatMap.2 ⟨entry, hentry, hstmt⟩)
  · intro text htext
    rw [table.comments_eq] at hcomments
    exact hcomments text (List.mem_flatMap.2 ⟨entry, hentry, htext⟩)

/-- A function with a block that holds a comment only, and a block in a block. -/
theorem emitted_functions_mirror_program_nested :
    ∃ source table, source = Source.text ("TO f\nWHILE \"TRUE [\n// wait\n]\nEND\n" ++
        "IF \"TRUE [\nIF \"TRUE [\n]\nf\n]").toList ∧
      parseProgram source.toLines = .ok table ∧
      ∀ options name, ∃ module,
        (Session.emit ⟨options, name, source.toLines, table⟩).result = .ok module ∧
        List.Forall₂ (Mirrors table) table.entries
          [("def fn_f(draw):\n" ++ "    while True:\n" ++ "        # wait\n" ++
              "        pass\n").toList,
            ("def process(draw):\n" ++ "    if True:\n" ++ "        if True:\n" ++
              "            pass\n" ++ "        fn_f(draw)\n").toList] := by
  obtain ⟨source, hsource⟩ : ∃ source, source = Source.text
      ("TO f\nWHILE \"TRUE [\n// wait\n]\nEND\n" ++
        "IF \"TRUE [\nIF \"TRUE [\n]\nf\n]").toList := ⟨_, rfl⟩
  have hcut : source.IsCut := by
    rw [hsource]
    trivial
  obtain ⟨table, htable, hcheck⟩ := Except.exists_of_any (m := parseProgram source.toLines)
    (p := fun table => table.emit.result.toOption ==
      some [("def fn_f(draw):\n" ++ "    while True:\n" ++ "        # wait\n" ++
          "        pass\n").toList,
        ("def process(draw):\n" ++ "    if True:\n" ++ "        if True:\n" ++
          "            pass\n" ++ "        fn_f(draw)\n").toList]) (by
      rw [hsource]
      decide +kernel)
  have hcodes := Except.eq_ok_of_toOption (eq_of_beq hcheck)
  refine ⟨source, table, hsource, htable, fun options name => ?_⟩
  have hmodule := Session.emit_of_ok (s := ⟨options, name, source.toLines, table⟩) hcodes
  obtain ⟨codes, hcodes', hmirrors, _⟩ := emitted_functions_mirror_program hcut htable hmodule
  obtain rfl := Except.ok.inj (hcodes'.symm.trans hcodes)
  exact ⟨_, hmodule, hmirrors⟩

end LogoLang
