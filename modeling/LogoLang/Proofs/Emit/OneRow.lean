import LogoLang.Proofs.Emit.Statement
import LogoLang.Proofs.Number.Numerals
import LogoLang.Proofs.Syntax.Comments
import LogoLang.Proofs.Text.Rows

set_option autoImplicit false

/-! # Code on one physical line

The code of a well-formed expression has no line end in it (`Expr.oneRow_of_emit`). So a statement
without a body that is emitted, other than a comment, is one physical line of code, which starts as no
comment and no header does (`Stmt.exists_code_of_emit`). -/

namespace LogoLang

/-! ## Names and numbers -/

theorem oneRow_of_isValidName {name : Text} (h : isValidName name = true) : name.OneRow := by
  intro c hc
  have hname := (isNameChar_of_isValidName h).2 c hc
  constructor
  · rintro rfl
    exact absurd hname (by decide)
  · rintro rfl
    exact absurd hname (by decide)

theorem IsNumeral.oneRow {t : Text} (h : IsNumeral t) : t.OneRow := by
  intro c hc
  constructor
  · rintro rfl
    exact absurd (h _ hc) (by decide)
  · rintro rfl
    exact absurd (h _ hc) (by decide)

theorem oneRow_parenthesized {code : Text} (h : code.OneRow) : (parenthesized code).OneRow := by
  have hopen : Text.OneRow ['('] := by decide
  have hclose : Text.OneRow [')'] := by decide
  exact (hopen.append h).append hclose

theorem oneRow_roundedCode {code : Text} (h : code.OneRow) : (roundedCode code).OneRow := by
  have hword : Text.OneRow "_f32".toList := by decide
  exact hword.append (oneRow_parenthesized h)

theorem oneRow_variableName {name : Text} (h : isValidName name = true) :
    (variableName name).OneRow := by
  have hword : Text.OneRow "v_".toList := by decide
  exact hword.append (oneRow_of_isValidName h)

theorem oneRow_join {parts : List Text} (h : ∀ part ∈ parts, Text.OneRow part) :
    (Text.join ", ".toList parts).OneRow := by
  have hsep : Text.OneRow ", ".toList := by decide
  fun_induction Text.join ", ".toList parts with
  | case1 => exact Text.oneRow_nil
  | case2 part => exact List.forall_mem_singleton.1 h
  | case3 part rest _ ih =>
    obtain ⟨hpart, hrest⟩ := List.forall_mem_cons.1 h
    exact (hpart.append hsep).append (ih hrest)

theorem oneRow_numberCode (x : Float) : (numberCode x).OneRow := by
  have hshort : (shortCode x).OneRow := by
    rw [shortCode]
    by_cases hfinite : isFinite x = true
    · rw [if_pos hfinite]
      exact (Text.isNumeral_ofDouble _).oneRow
    · rw [if_neg hfinite]
      have hstart : Text.OneRow ("float(".toList ++ ['\'']) := by decide
      have hend : Text.OneRow "')".toList := by decide
      have hall := (hstart.append (Text.isNumeral_ofDouble x).oneRow).append hend
      simpa using hall
  rw [numberCode]
  split
  · exact hshort
  · exact oneRow_roundedCode hshort

/-! ## Expressions -/

section Expressions

variable {scope : Scope}

theorem oneRow_symbol (op : BinaryOp) : op.symbol.OneRow := by
  cases op <;> decide

theorem oneRow_methodName (method : Method) : method.name.OneRow := by
  cases method <;> decide

theorem oneRow_of_emitCall {method : Method} {args : List Text} {call : Text}
    (hargs : ∀ arg ∈ args, Text.OneRow arg) (h : (emitCall method args).result = .ok call) :
    call.OneRow := by
  obtain rfl := Except.ok.inj ((emitCall_result method args).symm.trans h)
  have hword : Text.OneRow "draw.".toList := by decide
  exact (hword.append (oneRow_methodName method)).append (oneRow_parenthesized (oneRow_join hargs))

theorem BinaryOp.oneRow_of_emit {op : BinaryOp} {left right : Expr} {span : Span} {a b code : Code}
    (ha : a.text.OneRow) (hb : b.text.OneRow)
    (h : (op.emit left right span a b).result = .ok code) : code.text.OneRow := by
  have hinfixed : Text.OneRow (a.text ++ op.symbol ++ b.text) :=
    (ha.append (oneRow_symbol op)).append hb
  rw [BinaryOp.text_of_emit h]
  split
  · exact oneRow_roundedCode hinfixed
  · exact oneRow_parenthesized hinfixed

/-- **The code of a well-formed expression has no line end in it.** -/
theorem Expr.oneRow_of_emit {expr : Expr} {code : Code}
    (hnames : ∀ name span, .var name span ∈ expr.nodes → isValidName name = true)
    (h : (expr.emit scope).result = .ok code) : code.text.OneRow := by
  induction expr generalizing code with
  | truth value span =>
    cases h
    cases value <;> decide
  | number value span =>
    cases h
    exact oneRow_numberCode value
  | malformed flaw => exact absurd h (by simp [Expr.emit])
  | var name span =>
    rw [Expr.emit] at h
    split at h
    · exact absurd h (by simp)
    · cases h
      exact oneRow_variableName (hnames name span (Expr.self_mem_nodes _))
  | query q span =>
    simp only [Expr.emit, Traced.bind_eq_ok_iff] at h
    obtain ⟨call, hcall, h⟩ := h
    have hrow := oneRow_of_emitCall (by simp) hcall
    cases q with
    | x | y =>
      cases h
      exact oneRow_roundedCode hrow
    | heading | color =>
      cases h
      exact hrow
  | binary op left right span ihleft ihright =>
    simp only [Expr.emit, Traced.bind_eq_ok_iff] at h
    obtain ⟨a, ha, b, hb, hop⟩ := h
    have hleft : ∀ name span, .var name span ∈ left.nodes → isValidName name = true :=
      fun name span hmem => hnames name span (by simp [Expr.nodes, hmem])
    have hright : ∀ name span, .var name span ∈ right.nodes → isValidName name = true :=
      fun name span hmem => hnames name span (by simp [Expr.nodes, hmem])
    exact BinaryOp.oneRow_of_emit (ihleft hleft ha) (ihright hright hb) hop

theorem Expr.oneRow_of_emitNumber {expr : Expr} {text : Text} (hform : expr.WellFormed)
    (h : (expr.emitNumber scope).result = .ok text) : text.OneRow := by
  rw [Expr.emitNumber, Traced.bind_eq_ok_iff] at h
  obtain ⟨code, hcode, h⟩ := h
  split at h
  · exact absurd h (by simp)
  · cases h
    exact Expr.oneRow_of_emit hform.names hcode

theorem Expr.oneRow_of_emitTruth {expr : Expr} {text : Text} (hform : expr.WellFormed)
    (h : (expr.emitTruth scope).result = .ok text) : text.OneRow := by
  rw [Expr.emitTruth, Traced.bind_eq_ok_iff] at h
  obtain ⟨code, hcode, h⟩ := h
  split at h
  · cases h
    exact Expr.oneRow_of_emit hform.names hcode
  · exact absurd h (by simp)

theorem oneRow_of_emitNumbers {args : List Expr} {texts : List Text}
    (hform : ∀ arg ∈ args, arg.WellFormed) (h : (emitNumbers scope args).result = .ok texts) :
    ∀ text ∈ texts, Text.OneRow text := by
  induction args generalizing texts with
  | nil =>
    cases h
    simp
  | cons arg rest ih =>
    simp only [emitNumbers, Traced.bind_eq_ok_iff] at h
    obtain ⟨text, htext, texts', hrest, h⟩ := h
    cases h
    obtain ⟨harg, hargs⟩ := List.forall_mem_cons.1 hform
    exact List.forall_mem_cons.2 ⟨Expr.oneRow_of_emitNumber harg htext, ih hargs hrest⟩

end Expressions

/-! ## Statements -/

/-- Whether code is the header of a block. -/
def isHeaderCode (code : Text) : Bool :=
  "if ".toList.isPrefixOf code || "while ".toList.isPrefixOf code

/-- Code on one physical line that starts neither as a comment nor as a header does, nor as `pass`. -/
structure LeafCode (code : Text) : Prop where
  oneRow : code.OneRow
  first : ∃ c rest, code = c :: rest ∧ (c = 'v' ∨ c = 'd' ∨ c = 'f')

/-- Code on one physical line that is the header of a block. -/
structure HeaderCode (code : Text) : Prop where
  oneRow : code.OneRow
  first : ∃ c rest, code = c :: rest ∧ (c = 'i' ∨ c = 'w')
  header : isHeaderCode code = true

theorem LeafCode.not_header {code : Text} (h : LeafCode code) : isHeaderCode code = false := by
  obtain ⟨c, rest, rfl, hc⟩ := h.first
  rcases hc with rfl | rfl | rfl <;> rfl

theorem LeafCode.ne_pass {code : Text} (h : LeafCode code) : code ≠ "pass".toList := by
  obtain ⟨c, rest, rfl, hc⟩ := h.first
  rcases hc with rfl | rfl | rfl <;> simp

theorem HeaderCode.ne_pass {code : Text} (h : HeaderCode code) : code ≠ "pass".toList := by
  obtain ⟨c, rest, rfl, hc⟩ := h.first
  rcases hc with rfl | rfl <;> simp

section Statements

variable {table : FunctionTable} {scope scope' : Scope} {depth : Nat}

theorem leafCode_of_emitAssign {kind : AssignKind} {target : Label} {value : Expr} {code : Text}
    (htarget : target.IsName) (hvalue : value.WellFormed)
    (h : (emitAssign scope kind target value).result = .ok (scope', code)) : LeafCode code := by
  obtain ⟨name, span, rfl, hname⟩ := htarget
  have hvariable := oneRow_variableName hname
  have hequals : Text.OneRow " = ".toList := by decide
  cases kind with
  | make =>
    simp only [emitAssign, Traced.bind_eq_ok_iff] at h
    obtain ⟨valueCode, hcode, _, htarget, h⟩ := h
    cases htarget
    cases h
    exact ⟨(hvariable.append hequals).append (Expr.oneRow_of_emit hvalue.names hcode),
      'v', _, rfl, Or.inl rfl⟩
  | increase =>
    simp only [emitAssign, Traced.bind_eq_ok_iff] at h
    obtain ⟨_, htarget, h⟩ := h
    cases htarget
    split at h
    · exact absurd h (by simp)
    · exact absurd h (by simp)
    · obtain ⟨valueCode, hcode, h⟩ := Traced.bind_eq_ok_iff.1 h
      cases h
      have hplus : Text.OneRow " + ".toList := by decide
      have hsum := (hvariable.append hplus).append (Expr.oneRow_of_emitNumber hvalue hcode)
      exact ⟨(hvariable.append hequals).append (oneRow_roundedCode hsum), 'v', _, rfl, Or.inl rfl⟩

theorem leafCode_of_emitCall {method : Method} {args : List Text} {call : Text}
    (hargs : ∀ arg ∈ args, Text.OneRow arg) (h : (emitCall method args).result = .ok call) :
    LeafCode call := by
  refine ⟨oneRow_of_emitCall hargs h, ?_⟩
  obtain rfl := Except.ok.inj ((emitCall_result method args).symm.trans h)
  exact ⟨'d', _, rfl, Or.inr (Or.inl rfl)⟩

theorem leafCode_of_emitFunctionCall {label : Label} {args : List Expr} {code : Text}
    (hlabel : label.IsName) (hargs : ∀ arg ∈ args, arg.WellFormed)
    (h : (emitFunctionCall table scope label args).result = .ok code) : LeafCode code := by
  obtain ⟨name, span, rfl, hname⟩ := hlabel
  rw [emitFunctionCall, Traced.bind_eq_ok_iff] at h
  obtain ⟨_, hlabel, h⟩ := h
  cases hlabel
  split at h
  · exact absurd h (by simp)
  · split at h
    · exact absurd h (by simp)
    · split at h
      · exact absurd h (by simp)
      · obtain ⟨codes, hcodes, h⟩ := Traced.bind_eq_ok_iff.1 h
        cases h
        have hempty : name.isEmpty = false :=
          List.isEmpty_eq_false_iff.2 (isNameChar_of_isValidName hname).1
        have hword : Text.OneRow "fn_".toList := by decide
        have hdraw : Text.OneRow "draw".toList := by decide
        rw [functionName, hempty]
        refine ⟨?_, 'f', _, rfl, Or.inr (Or.inr rfl)⟩
        refine (hword.append (oneRow_of_isValidName hname)).append (oneRow_parenthesized ?_)
        exact oneRow_join (List.forall_mem_cons.2 ⟨hdraw, oneRow_of_emitNumbers hargs hcodes⟩)

/-- **A statement without a body that is emitted is one line of code**, which is the same at any depth of
    indentation. -/
theorem Stmt.exists_code_of_emit {stmt : Stmt} {lines : List CodeLine} (hleaf : stmt.isBlock = false)
    (hcomment : stmt.comment? = none) (hform : stmt.WellFormed)
    (h : (stmt.emit table depth scope).result = .ok (scope', lines)) :
    ∃ code, LeafCode code ∧ lines = [⟨depth, code⟩] ∧
      ∀ depth', (stmt.emit table depth' scope).result = .ok (scope', [⟨depth', code⟩]) := by
  cases stmt with
  | block kind condition body line => exact absurd hleaf (by simp [Stmt.isBlock])
  | comment text line => exact absurd hcomment (by simp [Stmt.comment?])
  | assign kind target value line =>
    simp only [Stmt.emit, Traced.bind_eq_ok_iff, Prod.exists] at h ⊢
    obtain ⟨scope₁, code, hassign, h⟩ := h
    cases h
    have hcode := leafCode_of_emitAssign (hform.labels target (List.mem_singleton_self _))
      (hform.exprs value (List.mem_singleton_self _)) (Emitting.inLine_eq_ok_iff.1 hassign)
    exact ⟨code, hcode, rfl, fun depth' => ⟨scope', code, hassign, rfl⟩⟩
  | pen down line =>
    simp only [Stmt.emit, Traced.bind_eq_ok_iff] at h ⊢
    obtain ⟨code, hcall, h⟩ := h
    cases h
    have hcode := leafCode_of_emitCall (by simp) (Emitting.inLine_eq_ok_iff.1 hcall)
    exact ⟨code, hcode, rfl, fun depth' => ⟨code, hcall, rfl⟩⟩
  | command cmd value line =>
    simp only [Stmt.emit, Traced.bind_eq_ok_iff] at h ⊢
    obtain ⟨number, hnumber, code, hcall, h⟩ := h
    cases h
    have hrow := Expr.oneRow_of_emitNumber (hform.exprs value (List.mem_singleton_self _))
      (Emitting.inLine_eq_ok_iff.1 hnumber)
    have hargs : ∀ arg ∈ cmd.method.2 ++ [number], Text.OneRow arg := by
      refine List.forall_mem_append.2 ⟨?_, List.forall_mem_singleton.2 hrow⟩
      cases cmd <;> decide
    have hcode := leafCode_of_emitCall hargs (Emitting.inLine_eq_ok_iff.1 hcall)
    exact ⟨code, hcode, rfl, fun depth' => ⟨number, hnumber, code, hcall, rfl⟩⟩
  | call label args line =>
    simp only [Stmt.emit, Traced.bind_eq_ok_iff] at h ⊢
    obtain ⟨code, hcall, h⟩ := h
    cases h
    have hcode := leafCode_of_emitFunctionCall (hform.labels label (List.mem_singleton_self _))
      (fun arg harg => hform.exprs arg harg) (Emitting.inLine_eq_ok_iff.1 hcall)
    exact ⟨code, hcode, rfl, fun depth' => ⟨code, hcall, rfl⟩⟩

theorem headerCode_of_emitTruth {kind : BlockKind} {condition : Expr} {code : Text}
    (hcondition : condition.WellFormed) (h : (condition.emitTruth scope).result = .ok code) :
    HeaderCode (kind.word ++ code ++ [':']) := by
  have hcode := Expr.oneRow_of_emitTruth hcondition h
  have hcolon : Text.OneRow [':'] := by decide
  have hword : kind.word.OneRow := by cases kind <;> decide
  refine ⟨(hword.append hcode).append hcolon, ?_, ?_⟩
  · cases kind with
    | branch => exact ⟨'i', _, rfl, Or.inl rfl⟩
    | loop => exact ⟨'w', _, rfl, Or.inr rfl⟩
  · cases kind <;> rfl

end Statements

end LogoLang
