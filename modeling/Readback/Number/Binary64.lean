/-! # Double-precision numbers

A `Binary64` is the 64-bit pattern of a double. All arithmetic on it is exact arithmetic on natural
numbers: a finite magnitude is `mantissa * 2 ^ scale`, and a ratio of naturals is rounded to the
nearest value of a binary format, a tie going to the even neighbour. -/

namespace Readback

/-- `num / den` to the nearest natural number, a tie going to the even one. -/
def roundDiv (num den : Nat) : Nat :=
  let q := num / den
  let r := num % den
  if 2 * r < den then q
  else if den < 2 * r then q + 1
  else if q % 2 = 0 then q else q + 1

/-- The exponent of the greatest power of two that is at most `num / den`. -/
def floorLog2 (num den : Nat) : Int :=
  let e : Int := (num.log2 : Int) - den.log2
  if den * Nat.pow 2 e.toNat ≤ num * Nat.pow 2 (-e).toNat then e else e - 1

/-- A binary floating-point format: its bits of precision, its least scale, and the exponent at
which magnitudes become infinite. -/
structure FloatFormat where
  precision : Nat
  leastScale : Int
  overflow : Int

/-- Double precision. -/
def FloatFormat.double : FloatFormat := ⟨53, -1074, 1024⟩

/-- Single precision. -/
def FloatFormat.single : FloatFormat := ⟨24, -149, 128⟩

/-- The mantissa and scale nearest to the positive ratio `num / den`. -/
def FloatFormat.round (f : FloatFormat) (num den : Nat) : Nat × Int :=
  let t := max f.leastScale (floorLog2 num den - f.precision + 1)
  (roundDiv (num * Nat.pow 2 (-t).toNat) (den * Nat.pow 2 t.toNat), t)

/-- A double-precision number, given by its bits. -/
structure Binary64 where
  bits : UInt64
deriving DecidableEq, Inhabited

namespace Binary64

/-! ### Reading the bits -/

/-- The eleven bits of the biased exponent. -/
def exponentField (x : Binary64) : Nat := x.bits.toNat / Nat.pow 2 52 % Nat.pow 2 11

/-- The fifty-two bits of the fraction. -/
def fraction (x : Binary64) : Nat := x.bits.toNat % Nat.pow 2 52

/-- Whether the sign bit is set, on zeros and NaNs too. -/
def isNegative (x : Binary64) : Bool := decide (Nat.pow 2 63 ≤ x.bits.toNat)

/-- Neither infinite nor a NaN. -/
def isFinite (x : Binary64) : Bool := x.exponentField != 2047

/-- Not a number. -/
def isNaN (x : Binary64) : Bool := x.exponentField == 2047 && x.fraction != 0

/-- The integer part of the representation: a finite magnitude is `mantissa * 2 ^ scale`. -/
def mantissa (x : Binary64) : Nat :=
  if x.exponentField = 0 then x.fraction else x.fraction + Nat.pow 2 52

/-- The exponent of the last bit of `mantissa`. -/
def scale (x : Binary64) : Int := (max x.exponentField 1 : Nat) - 1075

/-- The magnitude of a finite number as a ratio of naturals. -/
def ratio (x : Binary64) : Nat × Nat :=
  (x.mantissa * Nat.pow 2 x.scale.toNat, Nat.pow 2 (-x.scale).toNat)

/-- Whether the neighbour below is half as far away as the neighbour above. -/
def narrowBelow (x : Binary64) : Bool := x.fraction == 0 && decide (1 < x.exponentField)

/-! ### Writing the bits -/

/-- The number with this sign, biased exponent and fraction. -/
def ofFields (negative : Bool) (exponent fraction : Nat) : Binary64 :=
  ⟨UInt64.ofNat ((if negative then Nat.pow 2 63 else 0) + exponent * Nat.pow 2 52 + fraction)⟩

/-- Infinity of the given sign. -/
def infinity (negative : Bool) : Binary64 := ofFields negative 2047 0

/-- The number `n * 2 ^ t`, for a mantissa of at most 53 bits; infinite when it is too large. -/
def ofScaled (negative : Bool) (n : Nat) (t : Int) : Binary64 :=
  if n = 0 then ofFields negative 0 0
  else
    let e : Int := n.log2 + t
    if FloatFormat.double.overflow ≤ e then infinity negative
    else if e < -1022 then ofFields negative 0 (n * Nat.pow 2 (t + 1074).toNat)
    else ofFields negative (e + 1023).toNat (n * Nat.pow 2 52 / Nat.pow 2 n.log2 - Nat.pow 2 52)

/-- The number nearest to `num / den`. -/
def ofRatio (negative : Bool) (num den : Nat) : Binary64 :=
  if num = 0 then ofFields negative 0 0
  else
    let (n, t) := FloatFormat.double.round num den
    ofScaled negative n t

/-- The number nearest to an integer. -/
def ofInt (i : Int) : Binary64 := ofRatio (decide (i < 0)) i.natAbs 1

/-- The number nearest to the product of two finite numbers. -/
def mul (x y : Binary64) : Binary64 :=
  ofRatio (x.isNegative != y.isNegative) (x.ratio.1 * y.ratio.1) (x.ratio.2 * y.ratio.2)

/-- The number nearest to the quotient of two finite numbers, for a divisor other than zero. -/
def div (x y : Binary64) : Binary64 :=
  ofRatio (x.isNegative != y.isNegative) (x.ratio.1 * y.ratio.2) (x.ratio.2 * y.ratio.1)

/-- Rounds to single precision and back. -/
def toSingle (x : Binary64) : Binary64 :=
  if !x.isFinite || x.mantissa = 0 then x
  else
    let (n, t) := FloatFormat.single.round x.ratio.1 x.ratio.2
    if n ≠ 0 ∧ FloatFormat.single.overflow ≤ (n.log2 : Int) + t then infinity x.isNegative
    else ofScaled x.isNegative n t

end Binary64

end Readback
