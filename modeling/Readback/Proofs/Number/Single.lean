import Mathlib.Algebra.Order.Ring.Nat
import Mathlib.Tactic.Ring
import Readback.Number.Binary64

/-! # Numbers of single precision

A double is `Single` if single precision holds its value: it is infinite, a NaN or a zero, or its
mantissa fits into 24 bits at a scale within range. Rounding to single precision gives such numbers and
leaves them alone, so rounding again changes nothing.

* Rounding is a division with remainder to even, of a ratio at a scale. The first section is about
  ratios: scaling both sides by a power of two changes neither the quotient nor its rounding
  (`roundDiv_mul`), rounding does not pass an integer bound (`roundDiv_le`), and the next power of two
  exceeds the ratio (`lt_floorLog2_succ`).
* A format has a precision and a least scale. A rounded mantissa fits into the precision, or is the
  first number that does not, which is a power of two again (`FloatFormat.round_le`); rounding what fits
  is exact (`FloatFormat.round_exact`).
* The fields of a double are found again from its bits, and a number in the normal range has the fields
  that its mantissa and scale say (`Binary64.ofScaled_normal`), at whichever scale it is written
  (`Binary64.ofScaled_shift`).

The results are `single_toSingle`, `Single.toSingle_eq` and, from both, `toSingle_toSingle`. Literals of
type `float` are rounded when they are made, so this is why making one again from the number that it
stores gives the same literal. -/

namespace Readback

/-! ### Ratios -/

/-- Comparing `x` with `y` times a power of two; only the difference of the exponents matters. -/
theorem mul_two_pow_lt {x y a b c d : Nat} (h : x * 2 ^ a < y * 2 ^ b) (hle : b + c ≤ a + d) :
    x * 2 ^ c < y * 2 ^ d := by
  have hpow : 2 ^ (b + c) ≤ 2 ^ (a + d) := Nat.pow_le_pow_right (by decide) hle
  have hmul : x * 2 ^ c * 2 ^ a < y * 2 ^ d * 2 ^ a :=
    calc x * 2 ^ c * 2 ^ a = x * 2 ^ a * 2 ^ c := by ring
      _ < y * 2 ^ b * 2 ^ c := Nat.mul_lt_mul_of_pos_right h (Nat.two_pow_pos c)
      _ = y * 2 ^ (b + c) := by ring
      _ ≤ y * 2 ^ (a + d) := Nat.mul_le_mul_left y hpow
      _ = y * 2 ^ d * 2 ^ a := by ring
  exact Nat.lt_of_mul_lt_mul_right hmul

theorem roundDiv_mul (n : Nat) {d : Nat} (hd : 0 < d) : roundDiv (n * d) d = n := by
  simp [roundDiv, Nat.mul_div_cancel n hd, hd]

/-- Rounding does not pass an integer bound. -/
theorem roundDiv_le {num den b : Nat} (h : num < b * den) : roundDiv num den ≤ b := by
  have hq : num / den < b := Nat.div_lt_of_lt_mul (by rwa [Nat.mul_comm])
  simp only [roundDiv]
  split
  · omega
  · split
    · omega
    · split <;> omega

theorem log2_mul_two_pow {n : Nat} (hn : n ≠ 0) (j : Nat) : (n * 2 ^ j).log2 = n.log2 + j := by
  have hlow := Nat.log2_self_le hn
  have hhigh : n < 2 ^ (n.log2 + 1) := Nat.lt_log2_self
  rw [Nat.log2_eq_iff (Nat.mul_ne_zero hn (Nat.two_pow_pos j).ne')]
  refine ⟨?_, ?_⟩
  · rw [pow_add]
    exact Nat.mul_le_mul_right _ hlow
  · rw [show n.log2 + j + 1 = n.log2 + 1 + j by omega, pow_add]
    exact Nat.mul_lt_mul_of_pos_right hhigh (Nat.two_pow_pos j)

/-- The next power of two exceeds the ratio. -/
theorem lt_floorLog2_succ (num : Nat) {den : Nat} (hden : 0 < den) :
    num * 2 ^ (-(floorLog2 num den + 1)).toNat < den * 2 ^ (floorLog2 num den + 1).toNat := by
  unfold floorLog2
  dsimp only
  split
  · have hnum : num < 2 ^ (num.log2 + 1) := Nat.lt_log2_self
    have hle : 2 ^ den.log2 ≤ den := Nat.log2_self_le hden.ne'
    have h : num * 2 ^ den.log2 < den * 2 ^ (num.log2 + 1) :=
      calc num * 2 ^ den.log2 ≤ num * den := Nat.mul_le_mul_left num hle
        _ < 2 ^ (num.log2 + 1) * den := Nat.mul_lt_mul_of_pos_right hnum hden
        _ = den * 2 ^ (num.log2 + 1) := Nat.mul_comm _ _
    exact mul_two_pow_lt h (by omega)
  · next h =>
      have h := Nat.lt_of_not_le h
      exact mul_two_pow_lt h (by omega)

theorem floorLog2_of_two_pow {m : Nat} (hm : m ≠ 0) (a b : Nat) :
    floorLog2 (m * 2 ^ a) (2 ^ b) = m.log2 + a - b := by
  have hlow : 2 ^ m.log2 ≤ m := Nat.log2_self_le hm
  unfold floorLog2
  rw [log2_mul_two_pow hm, Nat.log2_two_pow]
  refine (if_pos ?_).trans (by omega)
  generalize he : (((m.log2 + a : Nat) : Int) - (b : Nat)) = e
  calc 2 ^ b * 2 ^ e.toNat = 2 ^ (b + e.toNat) := by ring
    _ ≤ 2 ^ (m.log2 + (a + (-e).toNat)) := Nat.pow_le_pow_right (by decide) (by omega)
    _ = 2 ^ m.log2 * 2 ^ (a + (-e).toNat) := by ring
    _ ≤ m * 2 ^ (a + (-e).toNat) := Nat.mul_le_mul_right _ hlow
    _ = m * 2 ^ a * 2 ^ (-e).toNat := by ring

/-! ### Formats -/

namespace FloatFormat

/-- A rounded mantissa fits into the precision, or is the first that does not. -/
theorem round_le (f : FloatFormat) (num : Nat) {den : Nat} (hden : 0 < den) :
    (f.round num den).1 ≤ 2 ^ f.precision := by
  have h := lt_floorLog2_succ num hden
  unfold round
  generalize hscale : max f.leastScale (floorLog2 num den - f.precision + 1) = t
  refine roundDiv_le ?_
  have hlt := mul_two_pow_lt (c := (-t).toNat) (d := f.precision + t.toNat) h (by omega)
  calc num * 2 ^ (-t).toNat < den * 2 ^ (f.precision + t.toNat) := hlt
    _ = 2 ^ f.precision * (den * 2 ^ t.toNat) := by ring

theorem leastScale_le_round (f : FloatFormat) (num den : Nat) :
    f.leastScale ≤ (f.round num den).2 := Int.le_max_left _ _

/-- Rounding what fits is exact: the mantissa is only written at another scale. -/
theorem round_exact (f : FloatFormat) {n d : Nat} {t : Int} (hn : n ≠ 0)
    (hlog : n.log2 < f.precision) (ht : f.leastScale ≤ t) :
    ∃ j : Nat, f.leastScale ≤ t - j ∧
      f.round (n * 2 ^ d * 2 ^ (t - d).toNat) (2 ^ (-(t - d)).toNat) = (n * 2 ^ j, t - j) := by
  have hm : n * 2 ^ d ≠ 0 := Nat.mul_ne_zero hn (Nat.two_pow_pos d).ne'
  have hfloor : floorLog2 (n * 2 ^ d * 2 ^ (t - d).toNat) (2 ^ (-(t - d)).toNat) = n.log2 + t := by
    rw [floorLog2_of_two_pow hm, log2_mul_two_pow hn]
    omega
  unfold round
  rw [hfloor]
  generalize hscale : max f.leastScale (n.log2 + t - f.precision + 1) = t'
  obtain ⟨j, hj⟩ : ∃ j : Nat, t' = t - j := ⟨(t - t').toNat, by omega⟩
  refine ⟨j, by omega, Prod.ext ?_ hj⟩
  have hexact : n * 2 ^ d * 2 ^ (t - d).toNat * 2 ^ (-t').toNat
      = n * 2 ^ j * (2 ^ (-(t - d)).toNat * 2 ^ t'.toNat) := by
    have hexp : d + (t - d).toNat + (-t').toNat = j + (-(t - d)).toNat + t'.toNat := by omega
    calc _ = n * 2 ^ (d + (t - d).toNat + (-t').toNat) := by ring
      _ = n * 2 ^ (j + (-(t - d)).toNat + t'.toNat) := by rw [hexp]
      _ = _ := by ring
  show roundDiv (n * 2 ^ d * 2 ^ (t - d).toNat * 2 ^ (-t').toNat) _ = _
  rw [hexact]
  exact roundDiv_mul _ (Nat.mul_pos (Nat.two_pow_pos _) (Nat.two_pow_pos _))

end FloatFormat

/-! ### Doubles -/

namespace Binary64

section Fields

variable (negative : Bool) {exponent fraction : Nat}

theorem toNat_ofFields (he : exponent < 2048) (hf : fraction < 2 ^ 52) :
    (ofFields negative exponent fraction).bits.toNat =
      (if negative then 2 ^ 63 else 0) + exponent * 2 ^ 52 + fraction := by
  simp only [ofFields, UInt64.toNat_ofNat', Nat.pow_eq]
  cases negative <;> simp <;> omega

theorem exponentField_ofFields (he : exponent < 2048) (hf : fraction < 2 ^ 52) :
    (ofFields negative exponent fraction).exponentField = exponent := by
  simp only [exponentField, toNat_ofFields negative he hf, Nat.pow_eq]
  cases negative <;> simp <;> omega

theorem fraction_ofFields (he : exponent < 2048) (hf : fraction < 2 ^ 52) :
    (ofFields negative exponent fraction).fraction = fraction := by
  simp only [Binary64.fraction, toNat_ofFields negative he hf, Nat.pow_eq]
  cases negative <;> simp <;> omega

theorem isNegative_ofFields (he : exponent < 2048) (hf : fraction < 2 ^ 52) :
    (ofFields negative exponent fraction).isNegative = negative := by
  simp only [isNegative, toNat_ofFields negative he hf, Nat.pow_eq]
  cases negative <;> simp <;> omega

end Fields

/-- The same number with the mantissa written at a smaller scale. -/
theorem ofScaled_shift (negative : Bool) {n : Nat} {t : Int} (hn : n ≠ 0) {j : Nat}
    (ht : -1074 ≤ t - j) : ofScaled negative (n * 2 ^ j) (t - j) = ofScaled negative n t := by
  have hm : n * 2 ^ j ≠ 0 := Nat.mul_ne_zero hn (Nat.two_pow_pos j).ne'
  have he : ((n.log2 + j : Nat) : Int) + (t - j) = n.log2 + t := by omega
  have hlow : n * 2 ^ j * 2 ^ (t - j + 1074).toNat = n * 2 ^ (t + 1074).toNat := by
    have hexp : j + (t - j + 1074).toNat = (t + 1074).toNat := by omega
    rw [Nat.mul_assoc, ← pow_add, hexp]
  have hhigh : n * 2 ^ j * 2 ^ 52 / 2 ^ (n.log2 + j) = n * 2 ^ 52 / 2 ^ n.log2 := by
    rw [pow_add, Nat.mul_right_comm]
    exact Nat.mul_div_mul_right _ _ (Nat.two_pow_pos j)
  simp only [ofScaled, hn, hm, if_false, log2_mul_two_pow hn, he, Nat.pow_eq, hlow, hhigh]

/-- The fields of a scaled number in the normal range. -/
theorem ofScaled_normal (negative : Bool) {n : Nat} {t : Int} (hn : n ≠ 0) (hlog : n.log2 ≤ 52)
    (hlow : -1022 ≤ n.log2 + t) (hhigh : n.log2 + t < 1024) :
    let x := ofScaled negative n t
    x.isNegative = negative ∧ x.isFinite = true ∧ x.mantissa = n * 2 ^ (52 - n.log2) ∧
      x.scale = t - (52 - n.log2 : Nat) := by
  have hle := Nat.log2_self_le hn
  have hlt : n < 2 ^ (n.log2 + 1) := Nat.lt_log2_self
  have hdiv : n * 2 ^ 52 / 2 ^ n.log2 = n * 2 ^ (52 - n.log2) := by
    rw [show (2 : Nat) ^ 52 = 2 ^ (52 - n.log2) * 2 ^ n.log2 by rw [← pow_add]; congr 1; omega,
      ← Nat.mul_assoc]
    exact Nat.mul_div_cancel _ (Nat.two_pow_pos _)
  have hfrom : 2 ^ 52 ≤ n * 2 ^ (52 - n.log2) :=
    calc 2 ^ 52 = 2 ^ n.log2 * 2 ^ (52 - n.log2) := by rw [← pow_add]; congr 1; omega
      _ ≤ n * 2 ^ (52 - n.log2) := Nat.mul_le_mul_right _ hle
  have hto : n * 2 ^ (52 - n.log2) < 2 ^ 53 :=
    calc n * 2 ^ (52 - n.log2) < 2 ^ (n.log2 + 1) * 2 ^ (52 - n.log2) :=
          Nat.mul_lt_mul_of_pos_right hlt (Nat.two_pow_pos _)
      _ = 2 ^ 53 := by rw [← pow_add]; congr 1; omega
  have hx : ofScaled negative n t =
      ofFields negative (n.log2 + t + 1023).toNat (n * 2 ^ (52 - n.log2) - 2 ^ 52) := by
    simp only [ofScaled, hn, if_false, FloatFormat.double, Nat.pow_eq, hdiv]
    rw [if_neg (by omega), if_neg (by omega)]
  have he : (n.log2 + t + 1023).toNat < 2048 := by omega
  have hf : n * 2 ^ (52 - n.log2) - 2 ^ 52 < 2 ^ 52 := by omega
  have hexp := exponentField_ofFields negative he hf
  have hne : (n.log2 + t + 1023).toNat ≠ 0 := by omega
  refine ⟨?_, ?_, ?_, ?_⟩
  · rw [hx, isNegative_ofFields negative he hf]
  · rw [hx, isFinite, hexp]
    simp only [bne_iff_ne]
    omega
  · rw [hx, mantissa, hexp, if_neg hne, fraction_ofFields negative he hf]
    simp only [Nat.pow_eq]
    omega
  · rw [hx, scale, hexp]
    omega

/-! ### Single precision -/

/-- Single precision holds the value. -/
def Single (x : Binary64) : Prop :=
  x.isFinite = false ∨ x.mantissa = 0 ∨
    ∃ (n : Nat) (t : Int), n ≠ 0 ∧ n < 2 ^ 24 ∧ -149 ≤ t ∧ n.log2 + t < 128 ∧
      x = ofScaled x.isNegative n t

theorem single_infinity (negative : Bool) : (infinity negative).Single := by
  refine .inl ?_
  rw [isFinite, infinity, exponentField_ofFields negative (by decide) (by decide)]
  rfl

theorem single_ofScaled (negative : Bool) {n : Nat} {t : Int} (hn : n < 2 ^ 24) (ht : -149 ≤ t)
    (he : n ≠ 0 → n.log2 + t < 128) : (ofScaled negative n t).Single := by
  by_cases h0 : n = 0
  · refine .inr (.inl ?_)
    subst h0
    rw [ofScaled, if_pos rfl, mantissa, exponentField_ofFields negative (by decide) (by decide),
      if_pos rfl, fraction_ofFields negative (by decide) (by decide)]
  · have he := he h0
    have hlog : n.log2 < 24 := (Nat.log2_lt h0).mpr hn
    have hneg := (ofScaled_normal negative h0 (t := t) (by omega) (by omega) (by omega)).1
    exact .inr (.inr ⟨n, t, h0, hn, ht, he, by rw [hneg]⟩)

/-- Rounding to single precision gives a number that single precision holds. -/
theorem single_toSingle (x : Binary64) : x.toSingle.Single := by
  unfold toSingle
  split
  · next h =>
      rcases Bool.or_eq_true_iff.mp h with h | h
      · exact .inl (by simpa using h)
      · exact .inr (.inl (by simpa using h))
  · have hden : 0 < x.ratio.2 := Nat.two_pow_pos _
    have hn := FloatFormat.single.round_le x.ratio.1 hden
    have ht := FloatFormat.single.leastScale_le_round x.ratio.1 x.ratio.2
    generalize FloatFormat.single.round x.ratio.1 x.ratio.2 = r at hn ht
    obtain ⟨n, t⟩ := r
    dsimp only at hn ht ⊢
    split
    · exact single_infinity _
    · next hover =>
        have he : n ≠ 0 → n.log2 + t < 128 := fun h0 => by
          by_contra hge
          exact hover ⟨h0, Int.not_lt.mp hge⟩
        -- A mantissa that was rounded up to the next power of two moves up one scale.
        by_cases hmax : n = 2 ^ 24
        · subst hmax
          have hshift := ofScaled_shift x.isNegative (n := 2 ^ 23) (t := t + 1) (j := 1) (by decide)
            (by simp only [FloatFormat.single] at ht; omega)
          rw [show (2 : Nat) ^ 23 * 2 ^ 1 = 2 ^ 24 by decide,
            show t + 1 - ((1 : Nat) : Int) = t by omega] at hshift
          rw [hshift]
          have hlog : (2 ^ 24 : Nat).log2 = 24 := Nat.log2_two_pow
          have hlog' : (2 ^ 23 : Nat).log2 = 23 := Nat.log2_two_pow
          refine single_ofScaled _ (by decide) (by simp only [FloatFormat.single] at ht; omega) ?_
          intro _
          have := he (by decide)
          omega
        · exact single_ofScaled _ (Nat.lt_of_le_of_ne hn hmax) ht he

/-- Rounding to single precision leaves alone what single precision holds. -/
theorem Single.toSingle_eq {x : Binary64} (h : x.Single) : x.toSingle = x := by
  rcases h with hfin | hzero | ⟨n, t, hn, hlt, ht, he, hx⟩
  · simp [toSingle, hfin]
  · simp [toSingle, hzero]
  · have hlog : n.log2 < 24 := (Nat.log2_lt hn).mpr hlt
    obtain ⟨-, hfin, hman, hscale⟩ :=
      ofScaled_normal x.isNegative hn (t := t) (by omega) (by omega) (by omega)
    rw [← hx] at hfin hman hscale
    have hne : x.mantissa ≠ 0 := by
      rw [hman]
      exact Nat.mul_ne_zero hn (Nat.two_pow_pos _).ne'
    obtain ⟨j, hj, hround⟩ :=
      FloatFormat.single.round_exact (d := 52 - n.log2) hn hlog ht
    have hratio : FloatFormat.single.round x.ratio.1 x.ratio.2 = (n * 2 ^ j, t - j) := by
      rw [← hround]
      simp only [ratio, hman, hscale, Nat.pow_eq]
    have hover : ¬ (n * 2 ^ j ≠ 0 ∧
        FloatFormat.single.overflow ≤ ((n * 2 ^ j).log2 : Int) + (t - j)) := by
      rintro ⟨-, hge⟩
      rw [log2_mul_two_pow hn] at hge
      simp only [FloatFormat.single] at hge
      omega
    have hj : -149 ≤ t - j := hj
    rw [toSingle, hfin, hratio]
    simp only [Bool.not_true, Bool.false_or, decide_eq_true_eq, hne, if_false, hover]
    rw [ofScaled_shift x.isNegative hn (by omega), ← hx]

/-- Rounding to single precision again changes nothing. -/
theorem toSingle_toSingle (x : Binary64) : x.toSingle.toSingle = x.toSingle :=
  (single_toSingle x).toSingle_eq

end Binary64

end Readback
