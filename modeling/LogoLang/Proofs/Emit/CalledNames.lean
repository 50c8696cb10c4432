import LogoLang.Proofs.Emit.Methods
import LogoLang.Proofs.Emit.Structure

set_option autoImplicit false

/-! # The methods that emitted code calls

Code is read as words of name characters and dots, and each word that begins with the name of the turtle
and a dot is a call of a method (`calledNames`). The code of an expression calls the methods that the
expression needs, as often as it needs them, and the lines of a body those that its statements need, in
the order of the text (`calledNames_of_emitBody`). -/

namespace LogoLang

/-! ## Words and calls -/

/-- Whether a character stands between two words of code. -/
def isWordBreak (c : Char) : Bool := !(isNameChar c || c == '.')

/-- The method that a word of code calls, if it calls one. -/
def calledName? (word : Text) : Option Text :=
  if "draw.".toList.isPrefixOf word then some (word.drop 5) else none

/-- The names of the methods that code calls, in order. -/
def calledNames (code : Text) : List Text := (code.splitOnP isWordBreak).filterMap calledName?

theorem calledNames_append {c : Char} (hc : isWordBreak c = true) (code rest : Text) :
    calledNames (code ++ c :: rest) = calledNames code ++ calledNames rest := by
  unfold calledNames
  rw [List.splitOnP_append_cons code rest hc, List.filterMap_append]

@[simp]
theorem calledNames_nil : calledNames [] = [] := rfl

theorem calledNames_cons {c : Char} (hc : isWordBreak c = true) (code : Text) :
    calledNames (c :: code) = calledNames code := by
  have h := calledNames_append hc [] code
  rwa [List.nil_append, calledNames_nil, List.nil_append] at h

theorem calledNames_concat {c : Char} (hc : isWordBreak c = true) (code : Text) :
    calledNames (code ++ [c]) = calledNames code := by
  rw [calledNames_append hc, calledNames_nil, List.append_nil]

theorem mem_of_mem_splitOnP {α : Type} {p : α → Bool} {l piece : List α}
    (h : piece ∈ l.splitOnP p) : ∀ a ∈ piece, a ∈ l := by
  induction l generalizing piece with
  | nil =>
    rw [List.splitOnP_nil, List.mem_singleton] at h
    simp [h]
  | cons b rest ih =>
    rw [List.splitOnP_cons_eq_if_modifyHead] at h
    split at h
    · rcases List.mem_cons.1 h with rfl | h
      · simp
      · exact fun a ha => List.mem_cons_of_mem b (ih h a ha)
    · obtain ⟨first, others, hpieces⟩ := List.exists_cons_of_ne_nil (List.splitOnP_ne_nil p rest)
      rw [hpieces, List.modifyHead_cons] at h
      rw [hpieces] at ih
      rcases List.mem_cons.1 h with rfl | h
      · refine List.forall_mem_cons.2 ⟨List.mem_cons_self, fun a ha => ?_⟩
        exact List.mem_cons_of_mem b (ih List.mem_cons_self a ha)
      · exact fun a ha => List.mem_cons_of_mem b (ih (List.mem_cons_of_mem _ h) a ha)

/-- Code that lacks a character of every call calls nothing. -/
theorem calledNames_eq_nil {c : Char} (hc : c ∈ "draw.".toList) {code : Text} (h : c ∉ code) :
    calledNames code = [] := by
  unfold calledNames
  rw [List.filterMap_eq_nil_iff]
  intro word hword
  unfold calledName?
  refine if_neg fun hprefix => ?_
  exact h (mem_of_mem_splitOnP hword c ((List.isPrefixOf_iff_prefix.1 hprefix).subset hc))

/-! ## Pieces of code -/

theorem calledNames_parenthesized (code rest : Text) :
    calledNames (code ++ parenthesized rest) = calledNames code ++ calledNames rest := by
  unfold parenthesized
  rw [List.cons_append, calledNames_append (by decide), calledNames_concat (by decide)]

theorem calledNames_roundedCode (code : Text) :
    calledNames (roundedCode code) = calledNames code := by
  unfold roundedCode
  rw [calledNames_parenthesized, calledNames_eq_nil (c := 'w') (by decide) (by decide),
    List.nil_append]

theorem calledNames_join (parts : List Text) :
    calledNames (Text.join ", ".toList parts) = parts.flatMap calledNames := by
  fun_induction Text.join ", ".toList parts with
  | case1 => rfl
  | case2 part => rw [List.flatMap_singleton]
  | case3 part rest _ ih =>
    have hsep : part ++ ", ".toList ++ Text.join ", ".toList rest =
        part ++ ',' :: ' ' :: Text.join ", ".toList rest := by simp
    rw [hsep, calledNames_append (by decide), calledNames_cons (by decide), ih, List.flatMap_cons]

/-- The symbol of an operator stands between two spaces. -/
theorem calledNames_infixed (op : BinaryOp) (a b : Text) :
    calledNames (a ++ op.symbol ++ b) = calledNames a ++ calledNames b := by
  obtain ⟨sign, hsign, hcalls⟩ : ∃ sign, op.symbol = ' ' :: sign ++ [' '] ∧ calledNames sign = [] :=
    ⟨op.symbol.tail.dropLast, by cases op <;> decide, by cases op <;> decide⟩
  have hcode : a ++ op.symbol ++ b = a ++ ' ' :: (sign ++ ' ' :: b) := by simp [hsign]
  rw [hcode, calledNames_append (by decide), calledNames_append (by decide), hcalls, List.nil_append]

theorem calledNames_emitCall (method : Method) (args : List Text) :
    calledNames ("draw.".toList ++ method.name ++ parenthesized (Text.join ", ".toList args)) =
      method.name :: args.flatMap calledNames := by
  have hname : calledNames ("draw.".toList ++ method.name) = [method.name] := by
    cases method <;> decide
  rw [calledNames_parenthesized, hname, calledNames_join, List.singleton_append]

theorem calledNames_variableName {name : Text} (h : isValidName name = true) :
    calledNames (variableName name) = [] := by
  refine calledNames_eq_nil (c := '.') (by decide) fun hmem => ?_
  rcases List.mem_append.1 hmem with hmem | hmem
  · exact absurd hmem (by decide)
  · exact absurd ((isNameChar_of_isValidName h).2 _ hmem) (by decide)

theorem calledNames_functionName {name : Text} (h : isValidName name = true) :
    calledNames (functionName name) = [] := by
  refine calledNames_eq_nil (c := '.') (by decide) fun hmem => ?_
  unfold functionName at hmem
  split at hmem
  · exact absurd hmem (by decide)
  · rcases List.mem_append.1 hmem with hmem | hmem
    · exact absurd hmem (by decide)
    · exact absurd ((isNameChar_of_isValidName h).2 _ hmem) (by decide)

theorem calledNames_numberCode (x : Float) : calledNames (numberCode x) = [] := by
  have hnumeral : ∀ y, 'w' ∉ Text.ofDouble y := fun y hmem =>
    absurd (Text.isNumeral_ofDouble y _ hmem) (by decide)
  have hshort : calledNames (shortCode x) = [] := by
    refine calledNames_eq_nil (c := 'w') (by decide) ?_
    unfold shortCode
    split
    · exact hnumeral _
    · simp [hnumeral]
  unfold numberCode
  split
  · exact hshort
  · rw [calledNames_roundedCode, hshort]

/-! ## Expressions -/

section Expressions

variable {scope scope' : Scope} {table : FunctionTable}

theorem BinaryOp.calledNames_of_emit {op : BinaryOp} {left right : Expr} {span : Span}
    {a b code : Code} (h : (op.emit left right span a b).result = .ok code) :
    calledNames code.text = calledNames a.text ++ calledNames b.text := by
  have hparenthesized : calledNames (parenthesized (a.text ++ op.symbol ++ b.text)) =
      calledNames a.text ++ calledNames b.text := by
    rw [← calledNames_infixed, ← List.nil_append (parenthesized _), calledNames_parenthesized,
      calledNames_nil, List.nil_append]
  rw [BinaryOp.text_of_emit h]
  split
  · rw [calledNames_roundedCode, calledNames_infixed]
  · exact hparenthesized

/-- **The code of an expression calls the methods that the expression needs**, in order. -/
theorem Expr.calledNames_of_emit {expr : Expr} {code : Code}
    (hnames : ∀ name span, .var name span ∈ expr.nodes → isValidName name = true)
    (h : (expr.emit scope).result = .ok code) :
    calledNames code.text = expr.needs.map Method.name := by
  induction expr generalizing code with
  | truth value span =>
    cases h
    have htruth : calledNames (Text.ofBool value) = [] := by cases value <;> decide
    exact htruth
  | number value span =>
    cases h
    exact calledNames_numberCode value
  | malformed flaw => exact absurd h (by simp [Expr.emit])
  | var name span =>
    unfold Expr.emit at h
    split at h
    · exact absurd h (by simp)
    · cases h
      exact calledNames_variableName (hnames name span (Expr.self_mem_nodes _))
  | query q span =>
    unfold Expr.emit at h
    obtain ⟨call, hcall, h⟩ := Traced.bind_eq_ok_iff.1 h
    obtain rfl := Except.ok.inj ((emitCall_result q.method []).symm.trans hcall)
    have hcalls := calledNames_emitCall q.method []
    rw [Query.method_eq] at hcalls h
    cases q with
    | x | y =>
      cases h
      exact (calledNames_roundedCode _).trans hcalls
    | heading | color =>
      cases h
      exact hcalls
  | binary op left right span ihleft ihright =>
    unfold Expr.emit at h
    obtain ⟨a, ha, h⟩ := Traced.bind_eq_ok_iff.1 h
    obtain ⟨b, hb, h⟩ := Traced.bind_eq_ok_iff.1 h
    have hleft := ihleft (fun name span hmem => hnames name span (by simp [Expr.nodes, hmem])) ha
    have hright := ihright (fun name span hmem => hnames name span (by simp [Expr.nodes, hmem])) hb
    rw [BinaryOp.calledNames_of_emit h, hleft, hright, Expr.needs, List.map_append]

theorem Expr.calledNames_of_emitNumber {expr : Expr} {text : Text} (hform : expr.WellFormed)
    (h : (expr.emitNumber scope).result = .ok text) :
    calledNames text = expr.needs.map Method.name := by
  unfold Expr.emitNumber at h
  obtain ⟨code, hcode, h⟩ := Traced.bind_eq_ok_iff.1 h
  split at h
  · exact absurd h (by simp)
  · cases h
    exact Expr.calledNames_of_emit hform.names hcode

theorem Expr.calledNames_of_emitTruth {expr : Expr} {text : Text} (hform : expr.WellFormed)
    (h : (expr.emitTruth scope).result = .ok text) :
    calledNames text = expr.needs.map Method.name := by
  unfold Expr.emitTruth at h
  obtain ⟨code, hcode, h⟩ := Traced.bind_eq_ok_iff.1 h
  split at h
  · cases h
    exact Expr.calledNames_of_emit hform.names hcode
  · exact absurd h (by simp)

theorem calledNames_of_emitNumbers {args : List Expr} {texts : List Text}
    (hform : ∀ arg ∈ args, arg.WellFormed) (h : (emitNumbers scope args).result = .ok texts) :
    texts.flatMap calledNames = (args.flatMap Expr.needs).map Method.name := by
  induction args generalizing texts with
  | nil =>
    cases h
    rfl
  | cons arg rest ih =>
    unfold emitNumbers at h
    obtain ⟨text, htext, h⟩ := Traced.bind_eq_ok_iff.1 h
    obtain ⟨texts', htexts, h⟩ := Traced.bind_eq_ok_iff.1 h
    obtain ⟨harg, hrest⟩ := List.forall_mem_cons.1 hform
    cases h
    rw [List.flatMap_cons, Expr.calledNames_of_emitNumber harg htext, ih hrest htexts,
      List.flatMap_cons, List.map_append]

/-! ## Statements -/

theorem calledNames_of_emitAssign {kind : AssignKind} {target : Label} {value : Expr} {code : Text}
    (htarget : target.IsName) (hvalue : value.WellFormed)
    (h : (emitAssign scope kind target value).result = .ok (scope', code)) :
    calledNames code = value.needs.map Method.name := by
  obtain ⟨name, span, rfl, hname⟩ := htarget
  have hassign : ∀ right, calledNames (variableName name ++ " = ".toList ++ right) =
      calledNames right := by
    intro right
    have hcode : variableName name ++ " = ".toList ++ right =
        variableName name ++ ' ' :: '=' :: ' ' :: right := by simp
    rw [hcode, calledNames_append (by decide), calledNames_variableName hname,
      calledNames_cons (by decide), calledNames_cons (by decide), List.nil_append]
  cases kind with
  | make =>
    simp only [emitAssign, Traced.bind_eq_ok_iff] at h
    obtain ⟨valueCode, hcode, _, htarget, h⟩ := h
    cases htarget
    cases h
    rw [hassign, Expr.calledNames_of_emit hvalue.names hcode]
  | increase =>
    simp only [emitAssign, Traced.bind_eq_ok_iff] at h
    obtain ⟨_, htarget, h⟩ := h
    cases htarget
    split at h
    · exact absurd h (by simp)
    · exact absurd h (by simp)
    · obtain ⟨number, hnumber, h⟩ := Traced.bind_eq_ok_iff.1 h
      cases h
      have hsum := calledNames_infixed .add (variableName name) number
      rw [hassign, calledNames_roundedCode]
      refine hsum.trans ?_
      rw [calledNames_variableName hname, Expr.calledNames_of_emitNumber hvalue hnumber,
        List.nil_append]

theorem calledNames_of_emitFunctionCall {label : Label} {args : List Expr} {code : Text}
    (hlabel : label.IsName) (hargs : ∀ arg ∈ args, arg.WellFormed)
    (h : (emitFunctionCall table scope label args).result = .ok code) :
    calledNames code = (args.flatMap Expr.needs).map Method.name := by
  obtain ⟨name, span, rfl, hname⟩ := hlabel
  unfold emitFunctionCall at h
  obtain ⟨_, hlabel, h⟩ := Traced.bind_eq_ok_iff.1 h
  cases hlabel
  split at h
  · exact absurd h (by simp)
  · split at h
    · exact absurd h (by simp)
    · split at h
      · exact absurd h (by simp)
      · obtain ⟨codes, hcodes, h⟩ := Traced.bind_eq_ok_iff.1 h
        cases h
        rw [calledNames_parenthesized, calledNames_functionName hname, List.nil_append,
          calledNames_join, List.flatMap_cons, calledNames_of_emitNumbers hargs hcodes,
          calledNames_eq_nil (c := '.') (by decide) (by decide), List.nil_append]

theorem calledNames_header (kind : BlockKind) (code : Text) :
    calledNames (kind.word ++ code ++ [':']) = calledNames code := by
  rw [calledNames_concat (by decide)]
  obtain ⟨word, hword, hcalls⟩ : ∃ word, kind.word = word ++ [' '] ∧ calledNames word = [] :=
    ⟨kind.word.dropLast, by cases kind <;> decide, by cases kind <;> decide⟩
  rw [hword, List.append_assoc, List.singleton_append, calledNames_append (by decide), hcalls,
    List.nil_append]

/-- The methods called in lines of code, comments left out. -/
def linesCalledNames (lines : List CodeLine) : List Text :=
  (codeLines lines).flatMap fun line => calledNames line.code

theorem linesCalledNames_append (lines more : List CodeLine) :
    linesCalledNames (lines ++ more) = linesCalledNames lines ++ linesCalledNames more := by
  rw [linesCalledNames, codeLines_append, List.flatMap_append]
  rfl

theorem linesCalledNames_singleton {line : CodeLine} (h : line.isComment = false) :
    linesCalledNames [line] = calledNames line.code := by
  rw [linesCalledNames, codeLines_singleton h, List.flatMap_singleton]

/-- The line that does nothing calls nothing. -/
theorem linesCalledNames_closeBody (depth : Nat) (lines : List CodeLine) :
    linesCalledNames (closeBody depth lines) = linesCalledNames lines := by
  unfold closeBody
  split
  · have hpass : calledNames (passLine depth).code = [] :=
      calledNames_eq_nil (c := 'w') (by decide) (by decide : 'w' ∉ "pass".toList)
    rw [linesCalledNames_append, linesCalledNames_singleton (passLine_readable depth).2, hpass,
      List.append_nil]
  · rfl

/-- The line of a statement without a body, other than a comment, calls what the statement needs. -/
theorem Stmt.calledNames_of_emit {stmt : Stmt} {depth : Nat} {code : Text}
    (hleaf : stmt.isBlock = false) (hcomment : stmt.comment? = none) (hform : stmt.WellFormed)
    (h : (stmt.emit table depth scope).result = .ok (scope', [⟨depth, code⟩])) :
    calledNames code = stmt.needs.map Method.name := by
  cases stmt with
  | block kind condition body line => exact absurd hleaf (by simp [Stmt.isBlock])
  | comment text line => exact absurd hcomment (by simp [Stmt.comment?])
  | assign kind target value line =>
    simp only [Stmt.emit, Traced.bind_eq_ok_iff, Prod.exists] at h
    obtain ⟨scope₁, text, hassign, h⟩ := h
    cases h
    exact calledNames_of_emitAssign (hform.labels target (List.mem_singleton_self _))
      (hform.exprs value (List.mem_singleton_self _)) (Emitting.inLine_eq_ok_iff.1 hassign)
  | pen down line =>
    cases h
    cases down with
    | true => exact calledNames_emitCall .penDown []
    | false => exact calledNames_emitCall .penUp []
  | command cmd value line =>
    simp only [Stmt.emit, Traced.bind_eq_ok_iff] at h
    obtain ⟨number, hnumber, call, hcall, h⟩ := h
    cases h
    have hvalue := Expr.calledNames_of_emitNumber (hform.exprs value (List.mem_singleton_self _))
      (Emitting.inLine_eq_ok_iff.1 hnumber)
    have hargs : cmd.method.2.flatMap calledNames = [] := by cases cmd <;> decide
    obtain rfl := Except.ok.inj
      ((emitCall_result _ _).symm.trans (Emitting.inLine_eq_ok_iff.1 hcall))
    rw [calledNames_emitCall, List.flatMap_append, hargs, List.flatMap_singleton, List.nil_append,
      hvalue, Command.method_fst, Stmt.needs, List.map_cons]
  | call label args line =>
    simp only [Stmt.emit, Traced.bind_eq_ok_iff] at h
    obtain ⟨text, hcall, h⟩ := h
    cases h
    exact calledNames_of_emitFunctionCall (hform.labels label (List.mem_singleton_self _))
      (fun arg harg => hform.exprs arg harg) (Emitting.inLine_eq_ok_iff.1 hcall)

/-- **The lines of a body call the methods that its statements need**, in the order of the text. -/
theorem calledNames_of_emitBody {body : List Stmt} {depth : Nat} {scope scope' : Scope}
    {lines : List CodeLine} (hform : ∀ stmt ∈ allStmts body, stmt.WellFormed)
    (h : (emitBody table depth scope body).result = .ok (scope', lines)) :
    linesCalledNames lines = ((allStmts body).flatMap Stmt.needs).map Method.name := by
  cases body with
  | nil =>
    cases h
    rfl
  | cons stmt rest =>
    simp only [emitBody, Traced.bind_eq_ok_iff, Prod.exists] at h
    obtain ⟨scope₁, first, hfirst, scope₂, others, hothers, h⟩ := h
    cases h
    rw [linesCalledNames_append, allStmts, List.flatMap_append, List.map_append]
    cases stmt with
    | block kind condition body line =>
      obtain ⟨hcondition, hinner, hrest⟩ := forall_wellFormed_block hform
      simp only [Stmt.emit, Traced.bind_eq_ok_iff, Emitting.inLine_eq_ok_iff, Prod.exists] at hfirst
      obtain ⟨code, hcode, scope₂, lines, hbody, h⟩ := hfirst
      cases h
      have hheader : HeaderCode (kind.word ++ code ++ [':']) :=
        headerCode_of_emitTruth hcondition hcode
      rw [calledNames_of_emitBody hrest hothers, ← List.singleton_append, linesCalledNames_append,
        linesCalledNames_singleton (hheader.readable depth).2, calledNames_header,
        Expr.calledNames_of_emitTruth hcondition hcode, linesCalledNames_closeBody,
        calledNames_of_emitBody hinner hbody, Stmt.all, List.flatMap_cons, List.map_append]
      rfl
    | comment text line =>
      obtain ⟨_, hrest⟩ := forall_wellFormed_cons hform
      cases hfirst
      rw [calledNames_of_emitBody hrest hothers]
      simp [linesCalledNames, codeLines, Stmt.all, Stmt.needs]
    | assign | pen | command | call =>
      obtain ⟨hstmt, hrest⟩ := forall_wellFormed_cons hform
      obtain ⟨code, hcode, rfl, _⟩ := Stmt.exists_code_of_emit rfl rfl hstmt hfirst
      rw [linesCalledNames_singleton (hcode.readable depth).2,
        Stmt.calledNames_of_emit rfl rfl hstmt hfirst, calledNames_of_emitBody hrest hothers,
        Stmt.all, List.flatMap_singleton]

theorem calledNames_of_emitLines {f : Function} {lines : List CodeLine}
    (hform : ∀ stmt ∈ allStmts f.body, stmt.WellFormed)
    (h : (f.emitLines table).result = .ok lines) :
    linesCalledNames lines = ((allStmts f.body).flatMap Stmt.needs).map Method.name := by
  simp only [Function.emitLines, Traced.bind_eq_ok_iff, Prod.exists] at h
  obtain ⟨scope, inner, hbody, h⟩ := h
  cases h
  rw [linesCalledNames_closeBody, calledNames_of_emitBody hform hbody]

end Expressions

end LogoLang
