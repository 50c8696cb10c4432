import LogoLang.Turtle.Measure

set_option autoImplicit false

/-! # The characters of written numbers

Numbers are written with decimal digits, a point, signs, and the letters of `e`, `inf` and `nan`
(`IsNumeral`), in whatever form they are written. -/

namespace LogoLang

/-- A text has no characters but those with which numbers are written. -/
def IsNumeral (t : Text) : Prop := ∀ c ∈ t, c.isDigit = true ∨ c ∈ ".-+einfa".toList

theorem IsNumeral.append {t u : Text} (ht : IsNumeral t) (hu : IsNumeral u) : IsNumeral (t ++ u) :=
  fun c hc => (List.mem_append.1 hc).elim (ht c) (hu c)

theorem IsNumeral.cons {c : Char} {t : Text} (hc : c.isDigit = true ∨ c ∈ ".-+einfa".toList)
    (ht : IsNumeral t) : IsNumeral (c :: t) :=
  List.forall_mem_cons.2 ⟨hc, ht⟩

theorem IsNumeral.of_all {t : Text} (h : t.all ".-+einfa".toList.contains = true) : IsNumeral t :=
  fun c hc => Or.inr (List.contains_iff_mem.1 (List.all_eq_true.1 h c hc))

theorem IsNumeral.take {t : Text} (ht : IsNumeral t) (count : Nat) : IsNumeral (t.take count) :=
  fun c hc => ht c (List.mem_of_mem_take hc)

theorem IsNumeral.drop {t : Text} (ht : IsNumeral t) (count : Nat) : IsNumeral (t.drop count) :=
  fun c hc => ht c (List.mem_of_mem_drop hc)

theorem isNumeral_zeros (count : Nat) : IsNumeral (List.replicate count '0') := by
  intro c hc
  rw [List.eq_of_mem_replicate hc]
  exact Or.inl rfl

theorem Text.isNumeral_ofNat (n : Nat) : IsNumeral (Text.ofNat n) :=
  fun _ hc => Or.inl (Nat.isDigit_of_mem_toDigits (by decide) (by decide) hc)

theorem Text.isNumeral_ofInt (n : Int) : IsNumeral (Text.ofInt n) := by
  cases n with
  | ofNat n => exact Text.isNumeral_ofNat n
  | negSucc n => exact .cons (Or.inr (by decide)) (Text.isNumeral_ofNat _)

theorem isNumeral_positional {digits : Text} (h : IsNumeral digits) (point : Int) :
    IsNumeral (positional digits point) := by
  have hpadded : ∀ left right, IsNumeral
      (List.replicate left '0' ++ digits ++ List.replicate right '0') :=
    fun left right => ((isNumeral_zeros left).append h).append (isNumeral_zeros right)
  exact ((hpadded _ _).take _).append (.cons (Or.inr (by decide)) ((hpadded _ _).drop _))

theorem isNumeral_scientific {digits : Text} (h : IsNumeral digits) (power : Int) :
    IsNumeral (scientific digits power) := by
  have hfraction : IsNumeral (if (digits.drop 1).isEmpty then [] else '.' :: digits.drop 1) := by
    split
    · exact fun c hc => absurd hc List.not_mem_nil
    · exact .cons (Or.inr (by decide)) (h.drop 1)
  have hsign : IsNumeral ['e', if power < 0 then '-' else '+'] := by
    split <;> exact .of_all (by decide)
  exact ((((h.take 1).append hfraction).append hsign).append (isNumeral_zeros _)).append
    (Text.isNumeral_ofNat _)

/-- A sign may stand before a number. -/
theorem IsNumeral.signed {t : Text} (h : IsNumeral t) (negative : Bool) :
    IsNumeral (if negative then '-' :: t else t) := by
  cases negative with
  | true => exact .cons (Or.inr (by decide)) h
  | false => exact h

theorem Decimal.isNumeral_toText (d : Decimal) : IsNumeral d.toText := by
  have hsignificant : IsNumeral ((Text.ofNat d.digits).reverse.dropWhile (· == '0')).reverse := by
    intro c hc
    exact Text.isNumeral_ofNat _ c
      (List.mem_reverse.1 ((List.dropWhile_sublist _).mem (List.mem_reverse.1 hc)))
  refine IsNumeral.signed ?_ d.negative
  split
  · exact .cons (Or.inl rfl) (.cons (Or.inr (by decide)) (isNumeral_zeros 1))
  · split
    · exact isNumeral_positional hsignificant _
    · exact isNumeral_scientific hsignificant _

theorem Text.isNumeral_ofDouble (x : Float) : IsNumeral (Text.ofDouble x) := by
  unfold Text.ofDouble
  split
  · exact .of_all (by decide)
  · split <;> exact .of_all (by decide)
  · exact Decimal.isNumeral_toText _

theorem Text.isNumeral_ofDoubleFixed (x : Float) : IsNumeral (Text.ofDoubleFixed x) := by
  unfold Text.ofDoubleFixed
  split
  · have hpadded : ∀ n, IsNumeral
        (List.replicate (4 - (Text.ofNat n).length) '0' ++ Text.ofNat n) :=
      fun n => (isNumeral_zeros _).append (Text.isNumeral_ofNat n)
    exact (((hpadded _).take _).append (.cons (Or.inr (by decide)) ((hpadded _).drop _))).signed _
  · exact Text.isNumeral_ofDouble x

theorem Measure.isNumeral_toText (m : Measure) : IsNumeral m.toText := by
  cases m with
  | whole n => exact Text.isNumeral_ofInt n
  | real x => exact Text.isNumeral_ofDouble x

end LogoLang
