import Readback.Number.Binary64

/-! # Doubles from numerals

A numeral has digits before and after a point and a power of ten. Its double is found in two steps.
The digits are gathered into a natural number as long as that fits in 64 bits, and the number is
rounded to a double. Then the double is multiplied or divided by the double nearest to the power of
ten that is left. A short numeral gives the double nearest to it; a long one may give a neighbour of
that double, so not every double reads back from its own shortest text. -/

namespace Readback

/-- The value of a decimal digit. -/
def digitValue (c : Char) : Nat := c.toNat - 48

/-- The number with the given decimal digits. -/
def numeral (digits : List Char) : Nat := digits.foldl (fun n c => n * 10 + digitValue c) 0

/-- Appends digits to `n` while the number fits in 64 bits. The digits from the first one that does
not fit on are left over. -/
def gather (n : Nat) : List Char → Nat × List Char
  | [] => (n, [])
  | c :: rest =>
    if n * 10 + digitValue c < Nat.pow 2 64 then gather (n * 10 + digitValue c) rest
    else (n, c :: rest)

namespace Binary64

/-- The greatest power of ten below infinity. -/
def greatestPower : Nat := 308

/-- The double nearest to a power of ten. -/
def tenTo (n : Nat) : Binary64 := ofRatio false (Nat.pow 10 n) 1

/-- Multiplies by `10 ^ n`. A nonzero number becomes infinite when there is no double near the
power. -/
def scaleUp (x : Binary64) (n : Nat) : Binary64 :=
  if x.mantissa = 0 then x
  else if n ≤ greatestPower then x.mul (tenTo n)
  else infinity x.isNegative

/-- Divides a number below `2 ^ 64` by `10 ^ n`, in two steps when there is no double near the
power. A third step would divide zero, since two steps by the greatest power underflow. -/
def scaleDown (x : Binary64) (n : Nat) : Binary64 :=
  if n ≤ greatestPower then x.div (tenTo n)
  else if n ≤ 2 * greatestPower then
    (x.div (tenTo greatestPower)).div (tenTo (n - greatestPower))
  else ofFields x.isNegative 0 0

/-- The double of a numeral, infinite when it is too large. Whole digits left over raise the power
of ten; digits after the point that are left over are dropped. -/
def ofNumeral (negative : Bool) (whole fraction : List Char) (exponent : Int) : Binary64 :=
  let (n, wholeLeft) := gather 0 whole
  let (n, fractionLeft) := gather n fraction
  let power := exponent + wholeLeft.length - (fraction.length - fractionLeft.length : Nat)
  let x := ofRatio negative n 1
  if 0 ≤ power then x.scaleUp power.toNat else x.scaleDown (-power).toNat

end Binary64

end Readback
