import LogoLang.Proofs.Syntax.Excerpt

set_option autoImplicit false

/-! # Text that touches an expression

A text that starts with a character of neither names nor numbers, such as a bracket, ends the expression
before it without a space, unless the expression ends with the name of a variable
(`Cursor.Parses.touching`). Such a name goes on up to the next space or colon and takes in what touches
it (`Cursor.Parses.swallowing`). -/

namespace LogoLang

/-- Whether the last word of an expression is a variable. -/
def Expr.endsInVariable : Expr → Bool
  | .var _ _ => true
  | .binary _ _ right _ => right.endsInVariable
  | .truth _ _ | .number _ _ | .malformed _ | .query _ _ => false

section Touching

variable {distance : Nat} {line tail : Text} {c after : Cursor} {e : Expr}

/-! ## Variables -/

/-- The characters of a variable's word. -/
abbrev isVariableChar (x : Char) : Bool := !variableStops.contains x

theorem readVariable?_eq_some_iff : readVariable? c = some (e, after) ↔
    ∃ rest, c.skipSpaces.rest = ':' :: rest ∧ rest.takeWhile isVariableChar ≠ [] ∧
      e = (if isValidName (rest.takeWhile isVariableChar) then
          .var (rest.takeWhile isVariableChar)
            (c.skipSpaces.spanOf ((rest.takeWhile isVariableChar).length + 1))
        else .malformed
          ⟨.invalidName, c.skipSpaces.spanOf ((rest.takeWhile isVariableChar).length + 1)⟩) ∧
      after = c.skipSpaces.after ((rest.takeWhile isVariableChar).length + 1) := by
  simp only [readVariable?, List.isEmpty_iff]
  constructor
  · intro h
    split at h
    · next rest hrest =>
      split at h
      · exact absurd h (by simp)
      · next hne =>
        cases h
        exact ⟨rest, hrest, hne, rfl, rfl⟩
    · exact absurd h (by simp)
  · rintro ⟨rest, hrest, hne, rfl, rfl⟩
    simp only [hrest, if_neg hne]

/-- Behind the word of a variable the cursor is at the end of its text, but for spaces. -/
theorem Cursor.after_variable_rest {rest : Text} (hrest : c.skipSpaces.rest = ':' :: rest) :
    (c.skipSpaces.after ((rest.takeWhile isVariableChar).length + 1)).rest =
      (rest.dropWhile isVariableChar).dropWhile isSpace := by
  rw [Cursor.after_rest, hrest, List.drop_succ_cons, drop_length_takeWhile]

theorem endsInVariable_of_readVariable? (h : readVariable? c = some (e, after))
    (hflaw : e.firstFlaw? = none) : e.endsInVariable = true := by
  obtain ⟨rest, _, _, rfl, _⟩ := readVariable?_eq_some_iff.1 h
  split
  · rfl
  · next hinvalid =>
    rw [if_neg hinvalid] at hflaw
    exact absurd hflaw (by simp [Expr.firstFlaw?])

/-- A variable ends with its word if there is more of its text behind the word. -/
theorem takeWhile_append_of_dropWhile_ne_nil {p : Char → Bool} {text : Text}
    (h : text.dropWhile p ≠ []) : (text ++ tail).takeWhile p = text.takeWhile p := by
  rw [List.takeWhile_append, if_neg]
  intro hlength
  have hall : (text.takeWhile p ++ text.dropWhile p).length = text.length := by
    rw [List.takeWhile_append_dropWhile]
  rw [List.length_append, hlength] at hall
  exact h (List.length_eq_zero_iff.1 (by omega))

/-! ## What ends an expression -/

theorem readLeafBefore?_touching (hleaf : readLeafBefore? c = some (e, after))
    (hflaw : e.firstFlaw? = none) (htail : EndsToken tail)
    (hvar : e.endsInVariable = true → after.rest ≠ []) :
    readLeafBefore? (c.embed distance tail) = some (embedResult distance tail (e, after)) := by
  have hne : c.skipSpaces.rest ≠ [] := by
    have hread : readExpr? c = some (e, after) := by rw [readExpr?_eq, hleaf]
    exact skipSpaces_ne_nil_of_read hread
  simp only [readLeafBefore?, Option.or_eq_some_iff] at hleaf ⊢
  rw [readTruth?_embed hne htail, readNumberLiteral?_embed hne
    (takeWhile_append_of_head (fun x hx => (htail x hx).2) _)]
  rcases hleaf with htruth | ⟨htruth, hnumber | ⟨hnumber, hvariable⟩⟩
  · exact Or.inl (by rw [htruth, Option.map_some])
  · exact Or.inr ⟨by rw [htruth, Option.map_none], Or.inl (by rw [hnumber, Option.map_some])⟩
  · refine Or.inr ⟨by rw [htruth, Option.map_none], Or.inr ⟨by rw [hnumber, Option.map_none], ?_⟩⟩
    have hmore := hvar (endsInVariable_of_readVariable? hvariable hflaw)
    obtain ⟨rest, hrest, _, _, rfl⟩ := readVariable?_eq_some_iff.1 hvariable
    rw [Cursor.after_variable_rest hrest] at hmore
    have hdrop : rest.dropWhile isVariableChar ≠ [] := by
      intro hnil
      rw [hnil] at hmore
      exact hmore rfl
    have hword : (c.skipSpaces.rest.tail ++ tail).takeWhile isVariableChar =
        c.skipSpaces.rest.tail.takeWhile isVariableChar := by
      rw [hrest, List.tail_cons, takeWhile_append_of_dropWhile_ne_nil hdrop]
    rw [readVariable?_embed hne hword, hvariable, Option.map_some]

/-- An operator that stands in a text is read with its operands, which may be elsewhere. -/
theorem readExpr?_operator {op : BinaryOp} {span : Span} {c₁ : Cursor} (htail : EndsToken tail)
    (hop : c.oneOf? operatorKeywords = some (op, span, c₁)) :
    readExpr? (c.embed distance tail) = some
      (readOperands op (span.shift distance) (c₁.embed distance tail).skipSpaces) := by
  have hne : c.skipSpaces.rest ≠ [] := by
    intro hnil
    have hstop := (Cursor.passes_of_oneOf? (by decide) hop).2
    rw [hnil, List.length_nil] at hstop
    omega
  have hop' : (c.embed distance tail).oneOf? operatorKeywords =
      some (op, span.shift distance, (c₁.embed distance tail).skipSpaces) := by
    rw [Cursor.oneOf?_embed hne (by decide) htail, hop, Option.map_some]
  rw [readExpr?_eq, readLeafBefore?_eq_none_of_oneOf? (by decide) hop', hop']

/-- Behind an operand that is not the last one there is more text. -/
theorem Cursor.Parses.rest_ne_nil (h : c.Parses e after) (hflaw : e.firstFlaw? = none) :
    c.rest ≠ [] := by
  intro hnil
  have hread := h.readExpr?_eq_some hflaw
  rw [readExpr?, readExprWith?_nil hnil] at hread
  exact absurd hread (by simp)

/-- **An expression ends before a text that touches it**, as before a space, unless its last word is a
    variable at the very end of its own text. -/
theorem Cursor.Parses.touching (distance : Nat) (h : c.Parses e after) (hflaw : e.firstFlaw? = none)
    (htail : EndsToken tail) (hvar : e.endsInVariable = true → after.rest ≠ []) :
    readExpr? (c.embed distance tail) = some (embedResult distance tail (e, after)) := by
  induction h with
  | before hleaf => rw [readExpr?_eq, readLeafBefore?_touching hleaf hflaw htail hvar]
  | @binary c c₁ c₂ c₃ op span left right hbefore hop hleft hright ihleft ihright =>
    rw [Expr.firstFlaw?, Option.or_eq_none_iff] at hflaw
    have hleft' := ihleft hflaw.1 fun _ => hright.rest_ne_nil hflaw.2
    have hright' := ihright hflaw.2 hvar
    rw [← readExpr?_skipSpaces] at hleft' hright'
    rw [readExpr?_operator htail hop]
    simp only [readOperands, hleft', hright', orMissing, Option.getD_some, embedResult,
      Expr.span_shift, Expr.shift, ← Span.shift_cover]
    rfl
  | after hbefore hop hleaf =>
    have hne := skipSpaces_ne_nil_of_read
      ((Cursor.Parses.after hbefore hop hleaf).readExpr?_eq_some hflaw)
    refine readExpr?_of_readQuery? ?_
    rw [readQuery?_embed hne htail, readLeafAfter?_eq_some_of_flawless hleaf hflaw, Option.map_some]
  | missing hnone => exact absurd hflaw (by simp [missingOperand, Expr.firstFlaw?])

/-! ## What a variable takes in -/

/-- There are no spaces alone at the end of a line that ends with no space. -/
theorem eq_nil_of_dropWhile_isSpace {rest : Text} (hrest : rest <:+ line)
    (hline : ∀ x ∈ line.getLast?, isSpace x = false) (hspaces : rest.dropWhile isSpace = []) :
    rest = [] := by
  by_contra hne
  obtain ⟨before, hbefore⟩ := hrest
  have hlast : rest.getLast hne ∈ line.getLast? := by
    rw [← hbefore, List.getLast?_append_of_ne_nil _ hne]
    exact List.getLast?_eq_some_getLast hne
  have hspace := List.dropWhile_eq_nil_iff.1 hspaces _ (List.getLast_mem hne)
  rw [hline _ hlast] at hspace
  exact absurd hspace (by simp)

/-- A leaf that is a variable is none of the other leaves. -/
theorem readVariable?_of_endsInVariable (hleaf : readLeafBefore? c = some (e, after))
    (hvar : e.endsInVariable = true) : readVariable? c = some (e, after) := by
  simp only [readLeafBefore?, Option.or_eq_some_iff] at hleaf
  rcases hleaf with htruth | ⟨_, hnumber | ⟨_, hvariable⟩⟩
  · simp only [readTruth?, Option.map_eq_some_iff, Prod.exists] at htruth
    obtain ⟨value, span, after', _, hexpr⟩ := htruth
    cases hexpr
    exact absurd hvar (by simp [Expr.endsInVariable])
  · simp only [readNumberLiteral?] at hnumber
    split at hnumber
    · split at hnumber
      · exact absurd hnumber (by simp)
      · cases hnumber
        split at hvar <;> exact absurd hvar (by simp [Expr.endsInVariable])
    · exact absurd hnumber (by simp)
  · exact hvariable

/-- Nothing is left behind a variable all of whose text is characters of its word. -/
theorem readLeafBefore?_variable {text : Text} (hrest : c.skipSpaces.rest = ':' :: text)
    (hne : text ≠ []) (htext : ∀ x ∈ text, isVariableChar x = true) :
    ∃ result, readLeafBefore? c = some result ∧ result.2.rest = [] := by
  have hquote : ':' ≠ '"' := by decide
  have htruth : readTruth? c = none :=
    readTruth?_eq_none_of_head hquote ⟨[], by rw [List.append_nil, hrest]⟩
  have hnumber : readNumberLiteral? c = none :=
    readNumberLiteral?_eq_none (by rw [← Cursor.skipSpaces_rest, hrest]) hquote
  have hvariable := readVariable?_eq_some_iff.2
    ⟨text, hrest, by rwa [List.takeWhile_eq_self_iff.2 htext], rfl, rfl⟩
  refine ⟨_, by rw [readLeafBefore?, htruth, hnumber, hvariable]; rfl, ?_⟩
  rw [Cursor.after_variable_rest hrest, List.dropWhile_eq_nil_iff.2 htext, List.dropWhile_nil]

theorem readLeafBefore?_swallowing (distance : Nat) (hleaf : readLeafBefore? c = some (e, after))
    (hc : c.IsOn line) (hline : ∀ x ∈ line.getLast?, isSpace x = false) (hrest : after.rest = [])
    (hvar : e.endsInVariable = true) (hstops : ∀ x ∈ tail, isVariableChar x = true) :
    ∃ result, readLeafBefore? (c.embed distance tail) = some result ∧ result.2.rest = [] := by
  obtain ⟨rest, hword, hne, _, rfl⟩ :=
    readVariable?_eq_some_iff.1 (readVariable?_of_endsInVariable hleaf hvar)
  have hsuffix : rest.dropWhile isVariableChar <:+ line := by
    refine (List.dropWhile_suffix isVariableChar).trans ((List.suffix_cons ':' rest).trans ?_)
    rw [← hword, hc.skipSpaces]
    exact List.drop_suffix _ _
  rw [Cursor.after_variable_rest hword] at hrest
  -- the word goes on to the end of the text, so that it goes on into what follows
  have hend := eq_nil_of_dropWhile_isSpace hsuffix hline hrest
  refine readLeafBefore?_variable (Cursor.embed_cons hword) ?_
    (List.forall_mem_append.2 ⟨List.dropWhile_eq_nil_iff.1 hend, hstops⟩)
  intro hnil
  rw [(List.append_eq_nil_iff.1 hnil).1] at hne
  exact hne rfl

/-- **A variable at the end of an expression takes in what touches it**, so that nothing is left. -/
theorem Cursor.Parses.swallowing (distance : Nat) (h : c.Parses e after) (hflaw : e.firstFlaw? = none)
    (hc : c.IsOn line) (hline : ∀ x ∈ line.getLast?, isSpace x = false)
    (hrest : after.rest = []) (hvar : e.endsInVariable = true) (htail : EndsToken tail)
    (hstops : ∀ x ∈ tail, isVariableChar x = true) :
    ∃ result, readExpr? (c.embed distance tail) = some result ∧ result.2.rest = [] := by
  induction h with
  | before hleaf =>
    obtain ⟨result, hresult, hnil⟩ :=
      readLeafBefore?_swallowing distance hleaf hc hline hrest hvar hstops
    exact ⟨result, by rw [readExpr?_eq, hresult], hnil⟩
  | @binary c c₁ c₂ c₃ op span left right hbefore hop hleft hright ihleft ihright =>
    rw [Expr.firstFlaw?, Option.or_eq_none_iff] at hflaw
    have hc₁ := (Cursor.passes_of_oneOf? (by decide) hop).isOn hc
    have hleft' := hleft.touching distance hflaw.1 htail fun _ =>
      hright.rest_ne_nil hflaw.2
    obtain ⟨result, hright', hnil⟩ := ihright hflaw.2 (hleft.isOn hc₁) hrest hvar
    rw [← readExpr?_skipSpaces] at hleft' hright'
    rw [readExpr?_operator htail hop]
    refine ⟨_, rfl, ?_⟩
    simp only [readOperands, hleft', hright', orMissing, Option.getD_some, embedResult, hnil]
  | after hbefore hop hleaf =>
    have hquery := readLeafAfter?_eq_some_of_flawless hleaf hflaw
    simp only [readQuery?, Option.map_eq_some_iff, Prod.exists] at hquery
    obtain ⟨query, span, after', _, hexpr⟩ := hquery
    cases hexpr
    exact absurd hvar (by simp [Expr.endsInVariable])
  | missing hnone => exact absurd hflaw (by simp [missingOperand, Expr.firstFlaw?])

end Touching

end LogoLang
