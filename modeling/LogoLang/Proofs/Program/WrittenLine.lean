import LogoLang.Proofs.Program.LineView
import LogoLang.Proofs.Syntax.ReadBack

set_option autoImplicit false

/-! # Written lines are taken in

The lines of phrases and declarations as the two phases see them. A line is told by its first word,
and what is read from it is the tree of what was written, up to its places, with nothing left over
but the bracket of a block. -/

namespace LogoLang

/-! ## Lines by their first word -/

section Lines

variable {word tail : Text}

theorem firstWord_line (hne : word ≠ []) (hword : ∀ x ∈ word, isNameChar x = true)
    (htail : EndsWord tail) : firstWord (word ++ tail).trim = word := by
  have hstop : (Text.trimRight tail).takeWhile (!isSpace ·) = [] := by
    apply takeWhile_of_head_isSpace
    intro x hx
    obtain ⟨after, hafter⟩ := Text.trimRight_prefix tail
    apply htail
    rw [← hafter, List.head?_append, Option.mem_def.1 hx]
    rfl
  have hstart := (isWord_of_nameChars hne hword).dropWhile tail
  rw [firstWord_of_word hstart hne hword, hstop, List.append_nil]

/-- A line that starts with a word of name characters is a statement, unless the word is `TO` or
    `END`. -/
theorem LineShape.of_line (hne : word ≠ []) (hword : ∀ x ∈ word, isNameChar x = true)
    (htail : EndsWord tail) (hto : word ≠ toKeyword)
    (hend : word ≠ endKeyword) : LineShape.of (word ++ tail) = .statement := by
  have hfirst := firstWord_line hne hword htail
  have hhead : ∀ x ∈ (word ++ tail).trim.head?, isNameChar x = true := by
    rw [← head?_firstWord_trim, hfirst]
    exact fun x hx => hword x (List.mem_of_mem_head? hx)
  have hblank : (word ++ tail).trim ≠ [] := by
    intro hnil
    rw [hnil] at hfirst
    exact hne hfirst.symm
  apply LineShape.of_eq_statement hblank
  · exact fun hslash => absurd (hhead _ hslash) (by decide)
  · exact fun hbracket => absurd (hhead _ hbracket) (by decide)
  · rw [hfirst]
    exact hto
  · rw [hfirst]
    exact hend

end Lines

/-! ## Statements -/

theorem readFunctionName?_of_name (name : Name) {c : Cursor} {tail : Text}
    (hrest : c.rest.dropWhile isSpace = name.text ++ tail) (htail : EndsWord tail) :
    readFunctionName? c = some (.named name.text (c.skipSpaces.spanOf name.text.length),
      c.skipSpaces.after name.text.length) := by
  have htake : (c.rest.dropWhile isSpace).takeWhile (!isSpace ·) = name.text := by
    rw [hrest, takeWhile_word fun x hx => isSpace_of_isNameChar (name.chars x hx),
      takeWhile_of_head_isSpace htail, List.append_nil]
  have hlabel : Label.ofName name.text (c.skipSpaces.spanOf name.text.length) =
      .named name.text (c.skipSpaces.spanOf name.text.length) := by
    rw [Label.ofName, if_pos name.valid]
  exact readFunctionName?_eq_some_iff.2 ⟨name.text, name.ne_nil, htake.symm, hlabel.symm, rfl⟩

theorem readFunctionName?_print (name : Name) {c : Cursor} {tail : Text}
    (hrest : c.rest.dropWhile isSpace = name.text ++ tail)
    (htail : EndsWord tail) :
    ∃ span c', readFunctionName? c = some (.named name.text span, c') ∧
      c'.rest = tail.dropWhile isSpace :=
  ⟨_, _, readFunctionName?_of_name name hrest htail, Cursor.after_word_rest hrest⟩

theorem readOperand_print (t : Term) {c : Cursor} {tail : Text}
    (hrest : c.rest.dropWhile isSpace = t.print ++ tail)
    (htail : EndsWord tail) :
    ∃ e c', readOperand c = (e, c') ∧ e.bare = t.expr ∧ c'.rest = tail.dropWhile isSpace := by
  obtain ⟨e, c', hread, he, hc⟩ := readExpr?_print t hrest htail
  refine ⟨e, c', ?_, he, hc⟩
  rw [readOperand, hread, Option.getD_some]

/-- A line that starts with a command word is read in the form that belongs to it, from behind the
    word. -/
theorem readStmt?_commandWord {keyword tail : Text} {form : StmtForm} (index : Nat)
    (hmem : (keyword, form) ∈ stmtKeywords) (htail : EndsWord tail) :
    readStmt? (keyword ++ tail) index =
      some (form.read (Cursor.skipSpaces ⟨keyword.length, tail⟩) index) := by
  obtain ⟨hne, hword⟩ := stmtKeywords_nameChars _ hmem
  have hrest : (Cursor.start (keyword ++ tail)).rest.dropWhile isSpace = keyword ++ tail :=
    (isWord_of_nameChars hne hword).dropWhile tail
  have hskip : (Cursor.start (keyword ++ tail)).skipSpaces = Cursor.start (keyword ++ tail) := by
    rw [Cursor.skipSpaces, takeWhile_of_head]
    · rfl
    · rw [Cursor.start_rest] at hrest ⊢
      rw [← hrest]
      exact head_dropWhile_isSpace _
  rw [readStmt?, Cursor.oneOf?_of_mem stmtKeywords_table hmem hrest htail, hskip, Cursor.after,
    Cursor.advance, Cursor.start, List.drop_left, Nat.zero_add]

theorem readStmt?_keyword {keyword tail : Text} {form : StmtForm} (index : Nat)
    (hmem : (keyword, form) ∈ stmtKeywords) (htail : EndsWord tail) :
    ∃ c, readStmt? (keyword ++ tail) index = some (form.read c index) ∧
      c.rest = tail.dropWhile isSpace :=
  ⟨_, readStmt?_commandWord index hmem htail, Cursor.skipSpaces_rest _⟩

theorem Term.firstFlaw?_expr (t : Term) : t.expr.firstFlaw? = none := by
  induction t with
  | truth | number | var | query => rfl
  | binary op left right ihl ihr =>
    rw [Term.expr, Expr.firstFlaw?, ihl, ihr]
    rfl

/-- A line is taken in as a statement of its own: the balance check passes over it, and assembly
    adds to the innermost body a statement with the given tree. -/
def TakenAs (line : Text) (index : Nat) (tree : Stmt) : Prop :=
  LineClass.of line = .other ∧ ∃ stmt, stmt.bare = tree ∧
    ∀ (table : FunctionTable) (pending : List BlockHeader) (body : List Stmt)
      (outer : List (List Stmt)) (decl : Option Decl) (headings : List (Nat × Decl)),
      Assembly.Moves index line ⟨table, pending, body :: outer, decl, headings⟩
        ⟨table, pending, (body ++ [stmt]) :: outer, decl, headings⟩

theorem takenAs_of_read {line : Text} {index : Nat} {stmt tree : Stmt} {c : Cursor}
    (hshape : LineShape.of line = .statement) (hread : readStmt? line index = some (stmt, c))
    (hrest : c.rest = []) (hleaf : stmt.isBlock = false) (hbare : stmt.bare = tree)
    (hflaw : tree.firstFlaw? = none) : TakenAs line index tree := by
  have hflaw' : stmt.firstFlaw? = none := by
    rw [← hbare, Stmt.firstFlaw?_bare] at hflaw
    exact Option.map_eq_none_iff.1 hflaw
  refine ⟨LineClass.of_leaf hshape hread hleaf hflaw', stmt, hbare, fun _ _ _ _ _ _ => ?_⟩
  exact .statement hshape hread hleaf (by rw [hrest, Text.trimRight_nil]) hflaw'

theorem stmtKeywords_free :
    ∀ entry ∈ stmtKeywords, entry.1 ≠ toKeyword ∧ entry.1 ≠ endKeyword := by
  decide

theorem LineShape.of_keyword {keyword tail : Text} {form : StmtForm}
    (hmem : (keyword, form) ∈ stmtKeywords) (htail : EndsWord tail) :
    LineShape.of (keyword ++ tail) = .statement := by
  obtain ⟨hne, hword⟩ := stmtKeywords_nameChars _ hmem
  obtain ⟨hto, hend⟩ := stmtKeywords_free _ hmem
  exact LineShape.of_line hne hword htail hto hend

theorem AssignKind.keyword_mem (kind : AssignKind) :
    (kind.keyword, StmtForm.assign kind) ∈ stmtKeywords := by
  cases kind <;> decide

theorem penKeyword_mem (down : Bool) : (penKeyword down, StmtForm.pen down) ∈ stmtKeywords := by
  cases down <;> decide

theorem Command.keyword_mem (cmd : Command) :
    (cmd.keyword, StmtForm.command cmd) ∈ stmtKeywords := by
  cases cmd <;> decide

theorem BlockKind.keyword_mem (kind : BlockKind) :
    (kind.keyword, StmtForm.block kind) ∈ stmtKeywords := by
  cases kind <;> decide

theorem takenAs_assign (kind : AssignKind) (target : Name) (value : Term) (index : Nat) :
    TakenAs (kind.keyword ++ ' ' :: target.quoted ++ ' ' :: value.print) index
      (.assign kind target.label value.expr index) := by
  have hline : kind.keyword ++ ' ' :: target.quoted ++ ' ' :: value.print =
      kind.keyword ++ ' ' :: (target.quoted ++ ' ' :: (value.print ++ [])) := by
    simp
  have htail := endsWord_space (target.quoted ++ ' ' :: (value.print ++ []))
  rw [hline]
  obtain ⟨c, hread, hc⟩ := readStmt?_keyword index kind.keyword_mem htail
  have hrest : c.rest.dropWhile isSpace = target.quoted ++ ' ' :: (value.print ++ []) := by
    rw [hc, List.dropWhile_idempotent, target.isWord_quoted.dropWhile_space]
  obtain ⟨span, c₁, htarget, hc₁⟩ := readTarget?_print target hrest (endsWord_space _)
  have hrest₁ : c₁.rest.dropWhile isSpace = value.print ++ [] := by
    rw [hc₁, List.dropWhile_idempotent, value.isWord_print.dropWhile_space]
  obtain ⟨e, c₂, hvalue, he, hc₂⟩ := readOperand_print value hrest₁ endsWord_nil
  have hform : (StmtForm.assign kind).read c index =
      (.assign kind (.named target.text span) e index, c₂) := by
    simp only [StmtForm.read, readTarget, htarget, Option.getD_some, hvalue]
  rw [hform] at hread
  have hbare : (Stmt.assign kind (.named target.text span) e index).bare =
      .assign kind target.label value.expr index := by
    rw [Stmt.bare, he]
    rfl
  exact takenAs_of_read (LineShape.of_keyword kind.keyword_mem htail) hread hc₂ rfl hbare
    value.firstFlaw?_expr

theorem takenAs_pen (down : Bool) (index : Nat) :
    TakenAs (penKeyword down) index (.pen down index) := by
  obtain ⟨c, hread, hc⟩ := readStmt?_keyword index (penKeyword_mem down) endsWord_nil
  have hshape := LineShape.of_keyword (penKeyword_mem down) endsWord_nil
  rw [List.append_nil] at hread hshape
  exact takenAs_of_read hshape hread hc rfl rfl rfl

theorem takenAs_command (cmd : Command) (value : Term) (index : Nat) :
    TakenAs (cmd.keyword ++ ' ' :: value.print) index (.command cmd value.expr index) := by
  rw [← List.append_nil value.print]
  have htail := endsWord_space (value.print ++ [])
  obtain ⟨c, hread, hc⟩ := readStmt?_keyword index cmd.keyword_mem htail
  have hrest : c.rest.dropWhile isSpace = value.print ++ [] := by
    rw [hc, List.dropWhile_idempotent, value.isWord_print.dropWhile_space]
  obtain ⟨e, c₁, hvalue, he, hc₁⟩ := readOperand_print value hrest endsWord_nil
  have hform : (StmtForm.command cmd).read c index = (.command cmd e index, c₁) := by
    simp only [StmtForm.read, hvalue]
  rw [hform] at hread
  have hbare : (Stmt.command cmd e index).bare = .command cmd value.expr index := by
    rw [Stmt.bare, he]
  exact takenAs_of_read (LineShape.of_keyword cmd.keyword_mem htail) hread hc₁ rfl hbare
    value.firstFlaw?_expr

/-- The name of a function is no command word, and a command word that is only a part of it is not read
    either. -/
theorem CallName.oneOf?_stmtKeywords (name : CallName) {tail : Text} (htail : EndsWord tail) :
    (Cursor.start (name.text ++ tail)).oneOf? stmtKeywords = none := by
  have hrest : (Cursor.start (name.text ++ tail)).rest.dropWhile isSpace = name.text ++ tail :=
    name.isWord_text.dropWhile tail
  have hlookup : stmtKeywords.lookup name.text = none := by
    rw [List.lookup_eq_none_iff]
    intro entry hentry
    have hmem : entry.1 ∈ reservedWords :=
      List.mem_cons_of_mem _ (List.mem_cons_of_mem _ (List.mem_map_of_mem hentry))
    have hne : name.text ≠ entry.1 := fun heq => name.free (heq ▸ hmem)
    simpa using hne
  rw [Cursor.oneOf?_of_word hrest name.chars (fun x hx => isNameChar_of_isSpace (htail x hx))
    stmtKeywords_nameChars, hlookup]
  rfl

/-- A line that starts with the name of a function is read as a call. -/
theorem readStmt?_callName (name : CallName) {tail : Text} (index : Nat)
    (htail : EndsWord tail) :
    ∃ span c, c.rest = tail.dropWhile isSpace ∧ readStmt? (name.text ++ tail) index =
      some (.call (.named name.text span) (readExprs c).1 index, (readExprs c).2) := by
  have hrest : (Cursor.start (name.text ++ tail)).rest.dropWhile isSpace = name.text ++ tail :=
    name.isWord_text.dropWhile tail
  obtain ⟨span, c, hname, hc⟩ := readFunctionName?_print name.toName hrest htail
  refine ⟨span, c, hc, ?_⟩
  simp only [readStmt?, name.oneOf?_stmtKeywords htail, readCall?, hname, Option.map_some]

theorem takenAs_call (name : CallName) (args : List Term) (index : Nat) :
    TakenAs (name.text ++ spaced (args.map Term.print)) index
      (.call name.label (args.map Term.expr) index) := by
  have htail := endsWord_spaced (args.map Term.print)
  obtain ⟨span, c, hc, hread⟩ := readStmt?_callName name index htail
  obtain ⟨es, c₁, hargs, hes, hc₁⟩ := readExprs_print args hc
  rw [hargs] at hread
  have hbare : (Stmt.call (.named name.text span) es index).bare =
      .call name.label (args.map Term.expr) index := by
    rw [Stmt.bare, hes]
    rfl
  have hflaw : (args.map Term.expr).findSome? Expr.firstFlaw? = none := by
    simp [List.findSome?_eq_none_iff, Term.firstFlaw?_expr]
  have hto : name.text ≠ toKeyword := fun heq => name.free (heq ▸ by decide)
  have hend : name.text ≠ endKeyword := fun heq => name.free (heq ▸ by decide)
  exact takenAs_of_read (LineShape.of_line name.ne_nil name.chars htail hto hend) hread hc₁ rfl
    hbare hflaw

theorem takenAs_comment (remark : Remark) (index : Nat) :
    TakenAs ("// ".toList ++ remark.text) index (.comment remark.text index) := by
  have htrim : Text.trim ("// ".toList ++ remark.text) =
      '/' :: '/' :: Text.trimRight (' ' :: remark.text) := by
    have hslash : isBlank '/' = false := by decide
    show Text.trim ('/' :: '/' :: ' ' :: remark.text) = _
    rw [Text.trim_cons hslash]
    exact congrArg _ (Text.trimRight_append_of_last (t := []) hslash _)
  have htext : Text.trim (Text.trimRight (' ' :: remark.text)) = remark.text := by
    rw [Text.trim_trimRight, Text.trim_cons_of_isBlank (by decide), remark.trimmed]
  have hshape : LineShape.of ("// ".toList ++ remark.text) = .comment remark.text := by
    rw [LineShape.of_eq_comment htrim, htext]
  refine ⟨LineClass.of_comment hshape, .comment remark.text index, rfl, fun _ _ _ _ _ _ => ?_⟩
  exact .comment hshape

/-! ## Headers and headings -/

/-- A line that starts with the word of a block starts one for the balance check. -/
theorem LineClass.of_blockKeyword (kind : BlockKind) {tail : Text} (htail : EndsWord tail) :
    LineClass.of (kind.keyword ++ tail) = .opener := by
  obtain ⟨hne, hword⟩ := stmtKeywords_nameChars _ kind.keyword_mem
  rw [LineClass.of_eq_opener_iff, firstWord_line hne hword htail]
  cases kind <;> decide

theorem endsWithBracket_blockKeyword (kind : BlockKind) (text : Text) :
    endsWithBracket (kind.keyword ++ (text ++ ['['])) = true := by
  obtain ⟨hne, hword⟩ := stmtKeywords_nameChars _ kind.keyword_mem
  have hstart := (isWord_of_nameChars hne hword).dropWhile (text ++ ['['])
  rw [endsWithBracket, Text.trim_of_word hstart hne hword,
    Text.trimRight_append_of_last (by decide), Text.trimRight_nil, ← List.append_assoc,
    List.getLast?_concat]
  rfl

theorem endsWithBracket_headerLine (kind : BlockKind) (condition : Term) :
    endsWithBracket (headerLine kind condition) = true := by
  have hline : headerLine kind condition =
      kind.keyword ++ (' ' :: (condition.print ++ [' ']) ++ ['[']) := by
    simp [headerLine]
  rw [hline]
  exact endsWithBracket_blockKeyword kind _

/-- The header of a block is taken in by both phases. -/
theorem moves_of_headerLine (kind : BlockKind) (condition : Term) (index : Nat) :
    LineClass.of (headerLine kind condition) = .opener ∧ ∃ e, e.bare = condition.expr ∧
      ∀ (table : FunctionTable) (pending : List BlockHeader) (scopes : List (List Stmt))
        (decl : Option Decl) (headings : List (Nat × Decl)),
        Assembly.Moves index (headerLine kind condition) ⟨table, pending, scopes, decl, headings⟩
          ⟨table, ⟨kind, e, index⟩ :: pending, [] :: scopes, decl, headings⟩ := by
  have hline : headerLine kind condition =
      kind.keyword ++ ' ' :: (condition.print ++ [' ', '[']) := by
    simp [headerLine]
  have htail := endsWord_space (condition.print ++ [' ', '['])
  have hshape := LineShape.of_keyword kind.keyword_mem htail
  have hclass := LineClass.of_blockKeyword kind htail
  obtain ⟨c, hread, hc⟩ := readStmt?_keyword index kind.keyword_mem htail
  have hrest : c.rest.dropWhile isSpace = condition.print ++ [' ', '['] := by
    rw [hc, List.dropWhile_idempotent, condition.isWord_print.dropWhile_space]
  obtain ⟨e, c₁, hoperand, he, hc₁⟩ := readOperand_print condition hrest (endsWord_space _)
  have hform : (StmtForm.block kind).read c index = (.block kind e [] index, c₁) := by
    simp only [StmtForm.read, hoperand]
  rw [hform] at hread
  have hflaw : e.firstFlaw? = none := by
    have hbare := condition.firstFlaw?_expr
    rw [← he, Expr.firstFlaw?_bare] at hbare
    exact Option.map_eq_none_iff.1 hbare
  rw [hline]
  refine ⟨hclass, e, he, fun _ _ _ _ _ => .header hshape hread ?_ hflaw⟩
  rw [hc₁]
  rfl

theorem Declaration.heading_eq (d : Declaration) :
    d.heading = toKeyword ++ ' ' :: (d.name.text ++ spaced (d.params.map Name.quoted)) := by
  rw [Declaration.heading, List.append_assoc, List.cons_append]

theorem readDecl?_heading (d : Declaration) :
    ∃ span params c, readDecl? d.heading = some (⟨.named d.name.text span, params⟩, c) ∧
      params.map Label.bare = d.params.map Name.label ∧ c.rest = [] := by
  have htail := endsWord_space (d.name.text ++ spaced (d.params.map Name.quoted))
  have hstart : (Cursor.start d.heading).rest.dropWhile isSpace =
      toKeyword ++ ' ' :: (d.name.text ++ spaced (d.params.map Name.quoted)) := by
    rw [Cursor.start_rest, d.heading_eq]
    exact (isWord_of_nameChars (by decide) toKeyword_nameChars).dropWhile _
  have hrest : ((Cursor.start d.heading).skipSpaces.after toKeyword.length).rest.dropWhile isSpace =
      d.name.text ++ spaced (d.params.map Name.quoted) := by
    rw [Cursor.after_word_rest hstart, List.dropWhile_idempotent,
      d.name.isWord_text.dropWhile_space]
  obtain ⟨span, c₁, hname, hc₁⟩ := readFunctionName?_print d.name hrest (endsWord_spaced _)
  obtain ⟨params, c₂, hparams, hbare, hc₂⟩ := readParams_print d.params hc₁
  refine ⟨span, params, c₂, ?_, hbare, hc₂⟩
  rw [readDecl?, Cursor.keyword?_self hstart htail]
  simp only [Option.map_some, hname, Option.getD_some, hparams]

/-- The heading of a declaration is taken in by both phases, if its name is new. -/
theorem moves_of_heading (d : Declaration) (index : Nat) :
    LineClass.of d.heading = .heading ∧
      ∃ span params, params.map Label.bare = d.params.map Name.label ∧
        ∀ (table : FunctionTable) (pending : List BlockHeader) (scopes : List (List Stmt))
          (decl : Option Decl) (headings : List (Nat × Decl)),
          table.contains d.name.text = false →
          Assembly.Moves index d.heading ⟨table, pending, scopes, decl, headings⟩
            ⟨table, pending, [] :: scopes, some ⟨.named d.name.text span, params⟩,
              (index, ⟨.named d.name.text span, params⟩) :: headings⟩ := by
  have hfirst : firstWord (Text.trim d.heading) = toKeyword := by
    rw [d.heading_eq]
    exact firstWord_line (by decide) toKeyword_nameChars (endsWord_space _)
  obtain ⟨span, params, c, hread, hbare, hc⟩ := readDecl?_heading d
  have hparams : params.findSome? Label.flaw? = none := by
    rw [List.findSome?_eq_none_iff]
    intro param hparam
    have hmem : param.bare ∈ d.params.map Name.label := hbare ▸ List.mem_map_of_mem hparam
    obtain ⟨name, _, hlabel⟩ := List.mem_map.1 hmem
    obtain ⟨_, rfl⟩ := Label.exists_named_of_bare hlabel.symm
    rfl
  refine ⟨LineClass.of_eq_heading_iff.2 hfirst, span, params, hbare, fun _ _ _ _ _ hnew => ?_⟩
  exact .heading (LineShape.of_eq_heading hfirst) hread (by rw [hc, Text.trimRight_nil]) hnew
    hparams

end LogoLang
