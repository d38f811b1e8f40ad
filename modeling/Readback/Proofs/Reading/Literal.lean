import Readback.Layout.Expr
import Readback.Proofs.Reading.Grammar

/-! # Literals as tokens

A negative number is written with a sign in front of its magnitude, so it is read as two tokens
(`Token.ofLiteral`). The text of an integer or a double starts with a sign if and only if the number is
negative and, for a double, not a NaN; and then the rest is the text of the absolute value.

`Unsigned s` says that a text is not empty and does not start with a sign. The texts of integers that
are not negative (`unsigned_integer`) and of doubles without a sign (`unsigned_floatingText`)
are such, whatever the suffix; those of negative doubles have a sign in front of that of
`Binary64.abs` (`floatingText_of_negative`). -/

namespace Readback

/-- The text starts with a character other than a sign. -/
def Unsigned (s : String) : Prop := ∃ c, s.toList.head? = some c ∧ c ≠ '-'

/-- The tokens of a literal: a sign is a token by itself. -/
def Token.ofLiteral (text : String) : List Token :=
  match text.toList with
  | '-' :: rest => [.symbol "-", .literal (String.ofList rest)]
  | _ => [.literal text]

theorem Token.ofLiteral_unsigned {s : String} (h : Unsigned s) : ofLiteral s = [.literal s] := by
  obtain ⟨c, hc, hne⟩ := h
  unfold ofLiteral
  split
  · next rest hs =>
      rw [hs] at hc
      cases hc
      exact absurd rfl hne
  · rfl

theorem Token.ofLiteral_minus (s : String) : ofLiteral ("-" ++ s) = [.symbol "-", .literal s] := by
  unfold ofLiteral
  simp

theorem Unsigned.append {s : String} (h : Unsigned s) (t : String) : Unsigned (s ++ t) := by
  obtain ⟨c, hc, hne⟩ := h
  exact ⟨c, by simp [hc], hne⟩

theorem unsigned_ofList {l : List Char} (hne : l ≠ []) (h : ∀ c ∈ l, c ≠ '-') :
    Unsigned (String.ofList l) := by
  refine ⟨l.head hne, ?_, h _ (List.head_mem hne)⟩
  rw [String.toList_ofList, List.head?_eq_some_head hne]

/-! ### Integers -/

theorem ne_minus_of_mem_decimalDigits {n : Nat} {c : Char} (h : c ∈ decimalDigits n) : c ≠ '-' := by
  rintro rfl
  have := Nat.isDigit_of_mem_toDigits (by decide) (by decide) h
  simp at this

theorem toString_of_nonneg {i : Int} (h : 0 ≤ i) :
    toString i = String.ofList (decimalDigits i.toNat) := by
  rw [Int.toString_eq_repr, Int.repr_eq_if, if_pos h, Nat.repr_eq_ofList_toDigits]
  rfl

theorem toString_of_neg {i : Int} (h : i < 0) : toString i = "-" ++ toString (-i) := by
  have hn : 0 ≤ -i := by omega
  rw [Int.toString_eq_repr, Int.repr_eq_if, if_neg (Int.not_le.mpr h), Int.toString_eq_repr,
    Int.repr_eq_if, if_pos hn]

/-- The text of a number that is not negative has no sign, whatever the suffix. -/
theorem unsigned_integer {i : Int} (h : 0 ≤ i) (suffix : String) :
    Unsigned (toString i ++ suffix) := by
  rw [toString_of_nonneg h]
  exact (unsigned_ofList Nat.toDigits_ne_nil fun c hc => ne_minus_of_mem_decimalDigits hc).append _

/-! ### Doubles -/

namespace Binary64

/-- The number without its sign. -/
def abs (x : Binary64) : Binary64 := ⟨UInt64.ofNat (x.bits.toNat % Nat.pow 2 63)⟩

theorem abs_toNat (x : Binary64) : x.abs.bits.toNat = x.bits.toNat % Nat.pow 2 63 := by
  have h : x.bits.toNat % Nat.pow 2 63 < Nat.pow 2 63 := Nat.mod_lt _ (by decide)
  have hp : Nat.pow 2 63 = 9223372036854775808 := rfl
  simp only [abs, UInt64.toNat_ofNat']
  omega

theorem exponentField_abs (x : Binary64) : x.abs.exponentField = x.exponentField := by
  have h₁ : Nat.pow 2 63 = 9223372036854775808 := rfl
  have h₂ : Nat.pow 2 52 = 4503599627370496 := rfl
  have h₃ : Nat.pow 2 11 = 2048 := rfl
  simp only [exponentField, abs_toNat, h₁, h₂, h₃]
  omega

theorem fraction_abs (x : Binary64) : x.abs.fraction = x.fraction := by
  have h₁ : Nat.pow 2 63 = 9223372036854775808 := rfl
  have h₂ : Nat.pow 2 52 = 4503599627370496 := rfl
  simp only [fraction, abs_toNat, h₁, h₂]
  omega

theorem isNegative_abs (x : Binary64) : x.abs.isNegative = false := by
  have h : x.bits.toNat % Nat.pow 2 63 < Nat.pow 2 63 := Nat.mod_lt _ (by decide)
  simp only [isNegative, abs_toNat, decide_eq_false_iff_not]
  omega

theorem magnitudeText_abs (tie : Tie) (x : Binary64) :
    x.abs.magnitudeText tie = x.magnitudeText tie := by
  have hm : x.abs.mantissa = x.mantissa := by simp only [mantissa, exponentField_abs, fraction_abs]
  have hs : x.abs.scale = x.scale := by simp only [scale, exponentField_abs]
  have hn : x.abs.narrowBelow = x.narrowBelow := by
    simp only [narrowBelow, exponentField_abs, fraction_abs]
  have hr : x.abs.ratio = x.ratio := by simp only [ratio, hm, hs]
  have ha : x.abs.admits = x.admits := by
    funext d
    simp only [admits, hm, hs, hn]
  have hg : ∀ e, x.abs.onGrid? tie e = x.onGrid? tie e := fun e => by simp only [onGrid?, hr, ha]
  have hx : x.abs.exact = x.exact := by simp only [exact, hm, hs]
  have ht : x.abs.shortest tie = x.shortest tie := by simp only [shortest, hr, hg, hx]
  unfold magnitudeText
  rw [hm, ht]

theorem isNaN_abs (x : Binary64) : x.abs.isNaN = x.isNaN := by
  simp only [isNaN, exponentField_abs, fraction_abs]

theorem isFinite_abs (x : Binary64) : x.abs.isFinite = x.isFinite := by
  simp only [isFinite, exponentField_abs]

theorem unsigned_positional {digits : List Char} (h : ∀ c ∈ digits, c ≠ '-') (point : Int) :
    Unsigned (positional digits point) := by
  have hzero : ∀ (n : Nat) (c : Char), c ∈ List.replicate n '0' → c ≠ '-' := by
    intro n c hc
    rw [List.eq_of_mem_replicate hc]
    decide
  unfold positional
  split
  · simp [Unsigned]
  · split
    · refine unsigned_ofList (by simp) fun c hc => ?_
      simp only [List.mem_append, List.mem_cons, List.not_mem_nil, or_false] at hc
      rcases hc with (hc | hc) | rfl | rfl
      · exact h c hc
      · exact hzero _ c hc
      · decide
      · decide
    · refine unsigned_ofList (by simp) fun c hc => ?_
      simp only [List.mem_append, List.mem_cons] at hc
      rcases hc with hc | rfl | hc
      · exact h c (List.mem_of_mem_take hc)
      · decide
      · exact h c (List.mem_of_mem_drop hc)

theorem unsigned_exponential {digits : List Char} (h : ∀ c ∈ digits, c ≠ '-') (exponent : Int) :
    Unsigned (exponential digits exponent) := by
  unfold exponential Unsigned
  match digits with
  | [] => simp
  | [d] => simpa using h d
  | d :: e :: rest => simpa using h d

theorem unsigned_magnitudeText (tie : Tie) (x : Binary64) : Unsigned (x.magnitudeText tie) := by
  unfold magnitudeText
  split
  · simp [Unsigned]
  · dsimp only
    split
    · exact unsigned_positional (fun c hc => ne_minus_of_mem_decimalDigits hc) _
    · exact unsigned_exponential (fun c hc => ne_minus_of_mem_decimalDigits hc) _

end Binary64

theorem floatingText_of_negative {x : Binary64} (hx : x.isNegative = true) (hn : x.isNaN = false) :
    floatingText x = "-" ++ floatingText x.abs := by
  cases hf : x.isFinite <;>
    simp [floatingText, Binary64.text, hx, hn, hf, Binary64.isNaN_abs, Binary64.isFinite_abs,
      Binary64.isNegative_abs, Binary64.magnitudeText_abs]

/-- The text of a double that is not negative has no sign. -/
theorem unsigned_floatingText {x : Binary64} (h : x.isNegative = false ∨ x.isNaN = true) :
    Unsigned (floatingText x) := by
  cases hn : x.isNaN with
  | true => simp [floatingText, hn, Unsigned]
  | false =>
      have hx : x.isNegative = false := by simpa [hn] using h
      cases hf : x.isFinite with
      | true => simpa [floatingText, Binary64.text, hn, hf, hx] using x.unsigned_magnitudeText .up
      | false => simp [floatingText, hn, hf, hx, Unsigned]

end Readback
