import LogoLang.Proofs.Syntax.Bare
import LogoLang.Proofs.Syntax.ReadBack
import LogoLang.Proofs.Syntax.Spans

set_option autoImplicit false

/-! # Expressions inside a longer line

A text that is read as an expression without a flaw is read as the same expression wherever it stands
in a line, if the line ends after it or goes on with a space; only the places in the tree are moved
(`Expr.shift`). A flawed expression can be another one in a longer line: an operand that is missing at
the end of the text is looked for in what follows. -/

namespace LogoLang

/-! ## Moved places -/

/-- A place farther along the line. -/
def Span.shift (distance : Nat) (span : Span) : Span := ⟨span.start + distance, span.length⟩

/-- A flaw farther along the line. -/
def Flaw.shift (distance : Nat) (flaw : Flaw) : Flaw := ⟨flaw.kind, flaw.span.shift distance⟩

/-- An expression farther along the line. -/
def Expr.shift (distance : Nat) : Expr → Expr
  | .truth value span => .truth value (span.shift distance)
  | .number value span => .number value (span.shift distance)
  | .var name span => .var name (span.shift distance)
  | .malformed flaw => .malformed (flaw.shift distance)
  | .binary op left right span =>
    .binary op (left.shift distance) (right.shift distance) (span.shift distance)
  | .query q span => .query q (span.shift distance)

theorem Expr.span_shift (distance : Nat) (e : Expr) :
    (e.shift distance).span = e.span.shift distance := by
  cases e <;> rfl

/-- Moving an expression changes nothing but its places. -/
theorem Expr.bare_shift (distance : Nat) (e : Expr) : (e.shift distance).bare = e.bare := by
  induction e with
  | truth | number | var | malformed | query => rfl
  | binary op left right span ihl ihr => rw [Expr.shift, Expr.bare, ihl, ihr, Expr.bare]

theorem Expr.firstFlaw?_shift {distance : Nat} {e : Expr} (h : e.firstFlaw? = none) :
    (e.shift distance).firstFlaw? = none := by
  have hbare := (e.shift distance).firstFlaw?_bare
  rw [Expr.bare_shift, Expr.firstFlaw?_bare, h, Option.map_none] at hbare
  exact Option.map_eq_none_iff.1 hbare.symm

theorem foldl_max_add (distance first : Nat) (ends : List Nat) :
    (ends.map (· + distance)).foldl max (first + distance) = ends.foldl max first + distance := by
  induction ends generalizing first with
  | nil => rfl
  | cons stop rest ih =>
    rw [List.map_cons, List.foldl_cons, List.foldl_cons, ← ih, Nat.add_max_add_right]

theorem Span.shift_cover (distance : Nat) (first : Span) (others : List Span) :
    (first.shift distance).cover (others.map (Span.shift distance)) =
      (first.cover others).shift distance := by
  have hends : ((others.map (Span.shift distance)).filter (·.length ≠ 0)).map Span.stop =
      ((others.filter (·.length ≠ 0)).map Span.stop).map (· + distance) := by
    rw [List.filter_map, List.map_map, List.map_map]
    refine List.map_congr_left fun span _ => ?_
    simp only [Function.comp, Span.stop, Span.shift]
    omega
  have hfirst : (first.shift distance).stop = first.stop + distance := by
    simp only [Span.stop, Span.shift]
    omega
  simp only [Span.cover, hends, hfirst, foldl_max_add]
  simp only [Span.shift]
  congr 1
  omega

/-! ## Cursors in a longer line -/

/-- The cursor at the same place of its text when the text stands in a line, some distance from its
    start and with more text after it. -/
def Cursor.embed (distance : Nat) (tail : Text) (c : Cursor) : Cursor :=
  ⟨c.pos + distance, c.rest ++ tail⟩

/-- What is read when the text stands in a line; spaces after it belong to the line, too. -/
def embedResult (distance : Nat) (tail : Text) (result : Expr × Cursor) : Expr × Cursor :=
  (result.1.shift distance, (result.2.embed distance tail).skipSpaces)

theorem Cursor.skipSpaces_of_head {c : Cursor} (h : ∀ x ∈ c.rest.head?, isSpace x = false) :
    c.skipSpaces = c := by
  rw [Cursor.skipSpaces, takeWhile_of_head h]
  rfl

theorem Cursor.skipSpaces_idem (c : Cursor) : c.skipSpaces.skipSpaces = c.skipSpaces := by
  refine Cursor.skipSpaces_of_head ?_
  rw [Cursor.skipSpaces_rest]
  exact head_dropWhile_isSpace c.rest

theorem Cursor.skipSpaces_space (pos : Nat) (rest : Text) :
    Cursor.skipSpaces ⟨pos, ' ' :: rest⟩ = Cursor.skipSpaces ⟨pos + 1, rest⟩ := by
  have htake : (' ' :: rest).takeWhile isSpace = ' ' :: rest.takeWhile isSpace := by
    rw [List.takeWhile_cons, if_pos (by decide)]
  simp only [Cursor.skipSpaces, Cursor.advance, htake, List.length_cons, List.drop_succ_cons,
    Cursor.mk.injEq, and_true]
  omega

section Cursors

variable {distance : Nat} {tail : Text} {c : Cursor}

theorem Cursor.embed_advance {count : Nat} (h : count ≤ c.rest.length) :
    (c.embed distance tail).advance count = (c.advance count).embed distance tail := by
  simp only [Cursor.advance, Cursor.embed, List.drop_append_of_le_length h, Cursor.mk.injEq, and_true]
  omega

/-- Spaces are skipped in the text first, and in what follows only if nothing of the text is left. -/
theorem Cursor.skipSpaces_embed : (c.skipSpaces.embed distance tail).skipSpaces =
    (c.embed distance tail).skipSpaces := by
  obtain ⟨pos, rest⟩ := c
  have hspaces : ∀ x ∈ rest.takeWhile isSpace, isSpace x = true := fun x hx =>
    List.mem_takeWhile_imp hx
  have hrest : rest ++ tail = rest.takeWhile isSpace ++ (rest.dropWhile isSpace ++ tail) := by
    rw [← List.append_assoc, List.takeWhile_append_dropWhile]
  have htake : (rest ++ tail).takeWhile isSpace =
      rest.takeWhile isSpace ++ (rest.dropWhile isSpace ++ tail).takeWhile isSpace := by
    rw [hrest, List.takeWhile_append_of_pos hspaces]
  simp only [Cursor.skipSpaces, Cursor.advance, Cursor.embed, drop_length_takeWhile, Cursor.mk.injEq]
  constructor
  · rw [htake, List.length_append]
    omega
  · rw [hrest, List.dropWhile_append_of_pos hspaces]

theorem Cursor.embed_skipSpaces (h : c.skipSpaces.rest ≠ []) :
    (c.embed distance tail).skipSpaces = c.skipSpaces.embed distance tail := by
  rw [← Cursor.skipSpaces_embed]
  refine Cursor.skipSpaces_of_head ?_
  have hhead := head_dropWhile_isSpace c.rest
  rw [← Cursor.skipSpaces_rest] at hhead
  rw [Cursor.embed, List.head?_append_of_ne_nil _ h]
  exact hhead

theorem Cursor.embed_after {length : Nat} (h : length ≤ c.rest.length) :
    (c.embed distance tail).after length = ((c.after length).embed distance tail).skipSpaces := by
  rw [Cursor.after, Cursor.embed_advance h, Cursor.after, Cursor.skipSpaces_embed]

/-- What stops a word at the end of a text stops it where the text ends. -/
theorem takeWhile_append_of_head {p : Char → Bool} (htail : ∀ x ∈ tail.head?, p x = false)
    (text : Text) : (text ++ tail).takeWhile p = text.takeWhile p := by
  induction text with
  | nil => exact takeWhile_of_head htail
  | cons x rest ih => rw [List.cons_append, List.takeWhile_cons, List.takeWhile_cons, ih]

/-! ## Leaves in a longer line -/

/-- Keywords and numbers end before a text that is empty or starts with a character of neither. -/
def EndsToken (tail : Text) : Prop :=
  ∀ x ∈ tail.head?, isNameChar x = false ∧ isNumberChar x = false

theorem EndsWord.endsToken (h : EndsWord tail) : EndsToken tail := fun x hx =>
  ⟨isNameChar_of_isSpace (h x hx), isNumberChar_of_isSpace (h x hx)⟩

theorem runsOn_append_endsToken {keyword text : Text} (htail : EndsToken tail) :
    runsOn keyword (text ++ tail) = runsOn keyword text := by
  cases text with
  | nil =>
    rw [List.nil_append, runsOn_eq_false fun x hx => (htail x hx).1]
    exact (runsOn_eq_false (by simp)).symm
  | cons x rest => rfl

/-- After its first character a keyword goes on with characters of names only, so that it does not reach
    beyond the end of a text. -/
theorem prefix_append_endsToken {keyword text : Text} (hne : text ≠ [])
    (hkeyword : keyword.tail.all isNameChar = true) (htail : EndsToken tail) :
    keyword <+: text ++ tail ↔ keyword <+: text := by
  refine ⟨?_, fun h => h.trans (List.prefix_append text tail)⟩
  rintro ⟨rest, hrest⟩
  rcases List.append_eq_append_iff.1 hrest with ⟨extra, hlong, _⟩ | ⟨extra, hshort, htail'⟩
  · exact ⟨extra, hlong.symm⟩
  · cases extra with
    | nil => exact ⟨[], by rw [hshort, List.append_nil, List.append_nil]⟩
    | cons x more =>
      -- the first character after the text would be a part of the keyword
      obtain ⟨y, text, rfl⟩ := List.exists_cons_of_ne_nil hne
      have hname : isNameChar x = true := by
        refine List.all_eq_true.1 hkeyword x ?_
        rw [hshort, List.cons_append, List.tail_cons]
        exact List.mem_append_right _ List.mem_cons_self
      rw [(htail x (by rw [htail']; rfl)).1] at hname
      exact absurd hname (by simp)

theorem Cursor.keyword?_embed {keyword : Text} (h : c.skipSpaces.rest ≠ [])
    (hkeyword : keyword.tail.all isNameChar = true) (htail : EndsToken tail) :
    (c.embed distance tail).keyword? keyword = (c.keyword? keyword).map fun (span, after) =>
      (span.shift distance, (after.embed distance tail).skipSpaces) := by
  have hbegins : keyword.isPrefixOf (c.skipSpaces.rest ++ tail) =
      keyword.isPrefixOf c.skipSpaces.rest := by
    rw [Bool.eq_iff_iff, List.isPrefixOf_iff_prefix, List.isPrefixOf_iff_prefix]
    exact prefix_append_endsToken h hkeyword htail
  simp only [Cursor.keyword?, Cursor.embed_skipSpaces h]
  rw [show (c.skipSpaces.embed distance tail).rest = c.skipSpaces.rest ++ tail from rfl, hbegins]
  by_cases hstarts : keyword <+: c.skipSpaces.rest
  · rw [List.drop_append_of_le_length hstarts.length_le, runsOn_append_endsToken htail,
      Cursor.embed_after hstarts.length_le, apply_ite (Option.map _), Option.map_some, Option.map_none]
    rfl
  · rw [← List.isPrefixOf_iff_prefix, Bool.not_eq_true] at hstarts
    rw [hstarts]
    rfl

theorem Cursor.oneOf?_embed {α : Type} {keywords : List (Text × α)} (h : c.skipSpaces.rest ≠ [])
    (hkeywords : ∀ entry ∈ keywords, entry.1.tail.all isNameChar = true) (htail : EndsToken tail) :
    (c.embed distance tail).oneOf? keywords = (c.oneOf? keywords).map fun (a, span, after) =>
      (a, span.shift distance, (after.embed distance tail).skipSpaces) := by
  induction keywords with
  | nil => rfl
  | cons entry rest ih =>
    obtain ⟨hentry, hrest⟩ := List.forall_mem_cons.1 hkeywords
    rw [Cursor.oneOf?, Cursor.oneOf?, Cursor.keyword?_embed h hentry htail]
    cases c.keyword? entry.1 with
    | some result => rfl
    | none => exact ih hrest

theorem readTruth?_embed (h : c.skipSpaces.rest ≠ []) (htail : EndsToken tail) :
    readTruth? (c.embed distance tail) = (readTruth? c).map (embedResult distance tail) := by
  rw [readTruth?, readTruth?, Cursor.oneOf?_embed h (by decide) htail, Option.map_map,
    Option.map_map]
  rfl

theorem readQuery?_embed (h : c.skipSpaces.rest ≠ []) (htail : EndsToken tail) :
    readQuery? (c.embed distance tail) = (readQuery? c).map (embedResult distance tail) := by
  rw [readQuery?, readQuery?, Cursor.oneOf?_embed h (by decide) htail, Option.map_map,
    Option.map_map]
  rfl

theorem Cursor.embed_cons {x : Char} {rest : Text} (hrest : c.skipSpaces.rest = x :: rest) :
    (c.embed distance tail).skipSpaces.rest = x :: (rest ++ tail) := by
  have hne : c.skipSpaces.rest ≠ [] := by
    rw [hrest]
    exact List.cons_ne_nil x rest
  rw [Cursor.embed_skipSpaces hne, Cursor.embed, hrest, List.cons_append]

/-- A word after a sign ends where it ends in the text. -/
theorem Cursor.after_signed {p : Char → Bool} {sign : Char} {rest : Text}
    (hrest : c.skipSpaces.rest = sign :: rest) :
    (c.skipSpaces.embed distance tail).after ((rest.takeWhile p).length + 1) =
      ((c.skipSpaces.after ((rest.takeWhile p).length + 1)).embed distance tail).skipSpaces := by
  refine Cursor.embed_after ?_
  rw [hrest, List.length_cons]
  exact Nat.succ_le_succ (length_takeWhile_le p rest)

/-- A number is read in the line as in the text if its word ends where it ends in the text. -/
theorem readNumberLiteral?_embed (h : c.skipSpaces.rest ≠ [])
    (hword : (c.skipSpaces.rest.tail ++ tail).takeWhile isNumberChar =
      c.skipSpaces.rest.tail.takeWhile isNumberChar) :
    readNumberLiteral? (c.embed distance tail) =
      (readNumberLiteral? c).map (embedResult distance tail) := by
  obtain ⟨x, rest, hrest⟩ := List.exists_cons_of_ne_nil h
  have hembed : (c.embed distance tail).skipSpaces.rest = x :: (rest ++ tail) :=
    Cursor.embed_cons hrest
  rw [hrest, List.tail_cons] at hword
  by_cases hquote : x = '"'
  · subst hquote
    simp only [readNumberLiteral?, hembed, hrest, hword]
    rw [Cursor.embed_skipSpaces h, Cursor.after_signed hrest, apply_ite (Option.map _),
      Option.map_some, Option.map_none, embedResult]
    cases singleOfLiteral? (rest.takeWhile isNumberChar) <;> rfl
  · rw [Cursor.skipSpaces_rest] at hembed hrest
    rw [readNumberLiteral?_eq_none hembed hquote, readNumberLiteral?_eq_none hrest hquote]
    rfl

theorem variableStops_of_isSpace {x : Char} (h : isSpace x = true) :
    (!variableStops.contains x) = false := by
  simp only [isSpace, Bool.or_eq_true, beq_iff_eq] at h
  rcases h with rfl | rfl <;> decide

theorem readVariable?_embed (h : c.skipSpaces.rest ≠ [])
    (hword : (c.skipSpaces.rest.tail ++ tail).takeWhile (!variableStops.contains ·) =
      c.skipSpaces.rest.tail.takeWhile (!variableStops.contains ·)) :
    readVariable? (c.embed distance tail) =
      (readVariable? c).map (embedResult distance tail) := by
  obtain ⟨x, rest, hrest⟩ := List.exists_cons_of_ne_nil h
  have hembed : (c.embed distance tail).skipSpaces.rest = x :: (rest ++ tail) :=
    Cursor.embed_cons hrest
  rw [hrest, List.tail_cons] at hword
  by_cases hcolon : x = ':'
  · subst hcolon
    simp only [readVariable?, hembed, hrest, hword]
    rw [Cursor.embed_skipSpaces h, Cursor.after_signed hrest, apply_ite (Option.map _),
      Option.map_some, Option.map_none, embedResult]
    cases isValidName (rest.takeWhile (!variableStops.contains ·)) <;> rfl
  · rw [Cursor.skipSpaces_rest] at hembed hrest
    rw [readVariable?_eq_none hembed hcolon, readVariable?_eq_none hrest hcolon]
    rfl

theorem readLeafBefore?_embed (h : c.skipSpaces.rest ≠ []) (htail : EndsWord tail) :
    readLeafBefore? (c.embed distance tail) =
      (readLeafBefore? c).map (embedResult distance tail) := by
  rw [readLeafBefore?, readLeafBefore?, readTruth?_embed h htail.endsToken,
    readNumberLiteral?_embed h (takeWhile_append_of_head (fun x hx => (htail.endsToken x hx).2) _),
    readVariable?_embed h
      (takeWhile_append_of_head (fun x hx => variableStops_of_isSpace (htail x hx)) _),
    Option.map_or, Option.map_or]

end Cursors

/-! ## Expressions in a longer line -/

theorem Cursor.keyword?_skipSpaces (c : Cursor) (keyword : Text) :
    c.skipSpaces.keyword? keyword = c.keyword? keyword := by
  simp only [Cursor.keyword?, Cursor.skipSpaces_idem]

theorem Cursor.oneOf?_skipSpaces {α : Type} (c : Cursor) (keywords : List (Text × α)) :
    c.skipSpaces.oneOf? keywords = c.oneOf? keywords := by
  induction keywords with
  | nil => rfl
  | cons entry rest ih => rw [Cursor.oneOf?, Cursor.oneOf?, Cursor.keyword?_skipSpaces, ih]

/-- An expression can be read before the spaces in front of it and after them. -/
theorem readExprWith?_skipSpaces (fuel : Nat) (c : Cursor) :
    readExprWith? fuel c.skipSpaces = readExprWith? fuel c := by
  cases fuel with
  | zero => rfl
  | succ fuel =>
    simp only [readExprWith?, readLeafBefore?, readTruth?, readNumberLiteral?, readVariable?,
      readLeafAfter?, readQuery?, readUnexpected?, Cursor.oneOf?_skipSpaces, Cursor.skipSpaces_idem]

theorem readExprWith?_nil {fuel : Nat} {c : Cursor} (hrest : c.rest = []) :
    readExprWith? fuel c = none := by
  obtain ⟨pos, rest⟩ := c
  cases hrest
  cases fuel <;> rfl

/-- Where something is read there is more than spaces. -/
theorem skipSpaces_ne_nil_of_read {fuel : Nat} {c : Cursor} {result : Expr × Cursor}
    (h : readExprWith? fuel c = some result) : c.skipSpaces.rest ≠ [] := by
  intro hnil
  rw [← readExprWith?_skipSpaces, readExprWith?_nil hnil] at h
  exact absurd h (by simp)

/-- An operand without a flaw is not missing. -/
theorem eq_some_of_orMissing {c after : Cursor} {read? : Option (Expr × Cursor)} {e : Expr}
    (h : orMissing c read? = (e, after)) (hflaw : e.firstFlaw? = none) :
    read? = some (e, after) := by
  cases read? with
  | some result => exact congrArg some h
  | none =>
    cases h
    exact absurd hflaw (by simp [missingOperand, Expr.firstFlaw?])

theorem readLeafAfter?_eq_some_of_flawless {c after : Cursor} {e : Expr}
    (h : readLeafAfter? c = some (e, after)) (hflaw : e.firstFlaw? = none) :
    readQuery? c = some (e, after) := by
  rw [readLeafAfter?, Option.or_eq_some_iff] at h
  rcases h with h | ⟨_, h⟩
  · exact h
  · simp only [readUnexpected?] at h
    split at h
    · exact absurd h (by simp)
    · cases h
      exact absurd hflaw (by simp [Expr.firstFlaw?])

/-- **An expression without a flaw is read in a longer line as in its own text**, and with any fuel
    that is not less. -/
theorem readExprWith?_embed {fuel more : Nat} {c after : Cursor} {e : Expr} {distance : Nat}
    {tail : Text} (h : readExprWith? fuel c = some (e, after)) (hflaw : e.firstFlaw? = none)
    (hmore : fuel ≤ more) (htail : EndsWord tail) :
    readExprWith? more (c.embed distance tail) = some (embedResult distance tail (e, after)) := by
  induction fuel generalizing more c after e with
  | zero => exact absurd h (by simp [readExprWith?])
  | succ fuel ih =>
    obtain ⟨more, rfl⟩ := Nat.exists_eq_add_of_le' (Nat.le_trans (Nat.succ_pos fuel) hmore)
    have hrest := skipSpaces_ne_nil_of_read h
    rw [readExprWith?] at h ⊢
    rw [readLeafBefore?_embed hrest htail]
    split at h
    · next result hleaf =>
      cases h
      rw [hleaf]
      rfl
    · next hnone =>
      rw [hnone, Cursor.oneOf?_embed hrest (by decide) htail.endsToken]
      split at h
      · next op span c₁ hop =>
        -- neither operand is missing, since a missing one is a flaw
        obtain ⟨⟨left, c₂⟩, hleft⟩ : ∃ result, orMissing c₁ (readExprWith? fuel c₁) = result :=
          ⟨_, rfl⟩
        obtain ⟨⟨right, c₃⟩, hright⟩ : ∃ result, orMissing c₂ (readExprWith? fuel c₂) = result :=
          ⟨_, rfl⟩
        simp only [hleft, hright, Option.some.injEq, Prod.mk.injEq] at h
        obtain ⟨rfl, rfl⟩ := h
        rw [Expr.firstFlaw?, Option.or_eq_none_iff] at hflaw
        have hmore' := Nat.le_of_succ_le_succ hmore
        have hleft' := ih (eq_some_of_orMissing hleft hflaw.1) hflaw.1 hmore'
        have hright' := ih (eq_some_of_orMissing hright hflaw.2) hflaw.2 hmore'
        rw [← readExprWith?_skipSpaces] at hleft' hright'
        simp only [hop, Option.map_none, Option.map_some, hleft', hright', orMissing,
          Option.getD_some, embedResult, Expr.span_shift, Expr.shift, ← Span.shift_cover]
        rfl
      · next hop =>
        rw [hop]
        have hquery := readLeafAfter?_eq_some_of_flawless h hflaw
        simp only [Option.map_none, readLeafAfter?, readQuery?_embed hrest htail.endsToken, hquery]
        rfl

/-! ## Enough fuel -/

theorem Cursor.MovesTo.length_le {c c' : Cursor} (h : c.MovesTo c') :
    c'.rest.length ≤ c.rest.length := by
  have hpos := h.pos_le
  have hstop := h.stop_eq
  unfold Cursor.stop at hstop
  omega

theorem Cursor.length_lt_of_oneOf? {α : Type} {c after : Cursor} {keywords : List (Text × α)} {a : α}
    {span : Span} (hne : ∀ entry ∈ keywords, entry.1 ≠ [])
    (h : c.oneOf? keywords = some (a, span, after)) : after.rest.length < c.rest.length := by
  obtain ⟨keyword, hmem, hkey⟩ := Cursor.oneOf?_eq_some h
  obtain ⟨⟨rest, hrest, _⟩, _, rfl⟩ := Cursor.keyword?_eq_some_iff.1 hkey
  have hkeyword : 0 < keyword.length := List.length_pos_iff.2 (hne _ hmem)
  have hskipped := (List.dropWhile_suffix isSpace (l := c.rest)).length_le
  have hafter := (List.dropWhile_suffix isSpace (l := rest)).length_le
  rw [hrest, List.length_append] at hskipped
  rw [Cursor.after_word_rest hrest]
  omega

theorem movesTo_operand (fuel : Nat) (c : Cursor) :
    c.MovesTo (orMissing c (readExprWith? fuel c)).2 :=
  (placed_orMissing fun _ _ => reads_of_readExprWith?).1

/-- **Fuel for each character left is enough**: more of it gives the same. -/
theorem readExprWith?_fuel {fuel fuel' : Nat} {c : Cursor} (h : c.rest.length < fuel)
    (h' : c.rest.length < fuel') : readExprWith? fuel c = readExprWith? fuel' c := by
  induction fuel generalizing fuel' c with
  | zero => exact absurd h (by simp)
  | succ fuel ih =>
    obtain ⟨fuel', rfl⟩ := Nat.exists_eq_add_of_lt h'
    rw [readExprWith?, readExprWith?]
    cases readLeafBefore? c with
    | some result => rfl
    | none =>
      cases hop : c.oneOf? operatorKeywords with
      | none => rfl
      | some result =>
        obtain ⟨op, span, c₁⟩ := result
        have hlength := Cursor.length_lt_of_oneOf? (by decide) hop
        have hleft : readExprWith? fuel c₁ = readExprWith? (c.rest.length + fuel') c₁ :=
          ih (by omega) (by omega)
        simp only [hleft]
        -- the right operand is read from where the left one ends, which is no less far along
        obtain ⟨⟨left, c₂⟩, hresult⟩ :
            ∃ result, orMissing c₁ (readExprWith? (c.rest.length + fuel') c₁) = result := ⟨_, rfl⟩
        have hmove : c₁.MovesTo c₂ := by
          have hoperand := movesTo_operand (c.rest.length + fuel') c₁
          rw [hresult] at hoperand
          exact hoperand
        have hlength' := hmove.length_le
        have hright : readExprWith? fuel c₂ = readExprWith? (c.rest.length + fuel') c₂ :=
          ih (by omega) (by omega)
        simp only [hresult, hright]

theorem readExpr?_skipSpaces (c : Cursor) : readExpr? c.skipSpaces = readExpr? c := by
  have hlength := (Cursor.movesTo_skipSpaces c).length_le
  rw [readExpr?, readExpr?, ← readExprWith?_skipSpaces _ c]
  exact readExprWith?_fuel (Nat.lt_succ_self _) (Nat.lt_succ_of_le hlength)

theorem readExpr?_embed {c after : Cursor} {e : Expr} {distance : Nat} {tail : Text}
    (h : readExpr? c = some (e, after)) (hflaw : e.firstFlaw? = none) (htail : EndsWord tail) :
    readExpr? (c.embed distance tail) = some (embedResult distance tail (e, after)) := by
  refine readExprWith?_embed h hflaw ?_ htail
  rw [Cursor.embed, List.length_append]
  omega

end LogoLang
