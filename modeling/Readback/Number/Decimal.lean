import Readback.Number.Binary64

/-! # Decimal text of doubles

The text of a finite double has the fewest significant digits that read back as the same number,
and of those the digits nearest to it. `Binary64.admits` states which decimals read back; the search
walks the decimal grids from coarse to fine and takes the first that holds one. Where two decimals
of a grid are equally near, a `Tie` decides.

Layout: the digits are written positionally while the exponent of the leading digit is at least -4
and below 16, with at least one place after the point; outside that range the text is a mantissa
and an exponent. -/

namespace Readback

/-- The number `digits * 10 ^ exponent`. -/
structure Decimal where
  digits : Nat
  exponent : Int
deriving DecidableEq, Inhabited

namespace Decimal

/-- Compares `d` with `n * 2 ^ j`, by cross-multiplication. -/
def compareBinary (d : Decimal) (n : Nat) (j : Int) : Ordering :=
  compare (d.digits * Nat.pow 10 d.exponent.toNat * Nat.pow 2 (-j).toNat)
    (n * Nat.pow 2 j.toNat * Nat.pow 10 (-d.exponent).toNat)

/-- Moves trailing zeros of the digits into the exponent. The first argument bounds their number. -/
def trimAux : Nat → Nat → Int → Decimal
  | 0, digits, exponent => ⟨digits, exponent⟩
  | fuel + 1, digits, exponent =>
    if digits ≠ 0 ∧ digits % 10 = 0 then trimAux fuel (digits / 10) (exponent + 1)
    else ⟨digits, exponent⟩

/-- The same number with no trailing zero among its digits. -/
def trim (d : Decimal) : Decimal := trimAux d.digits.log2 d.digits d.exponent

end Decimal

/-- The decimal digits of a natural number. -/
def decimalDigits (n : Nat) : List Char := Nat.toDigits 10 n

/-- The exponent of the greatest power of ten that is at most `num / den`. -/
def floorLog10 (num den : Nat) : Int :=
  let e : Int := ((decimalDigits num).length : Int) - (decimalDigits den).length
  if den * Nat.pow 10 e.toNat ≤ num * Nat.pow 10 (-e).toNat then e else e - 1

/-- Which of two equally near grid points is taken: the upper one, or the even one. -/
inductive Tie where
  | up
  | even
deriving DecidableEq, Inhabited

/-- The nearer of `n` and `n + 1`, where `order` compares the number between them with the middle
of the two. -/
def Tie.nearer (tie : Tie) (order : Ordering) (n : Nat) : Nat :=
  match order, tie with
  | .lt, _ => n
  | .gt, _ => n + 1
  | .eq, .up => n + 1
  | .eq, .even => if n % 2 = 0 then n else n + 1

namespace Binary64

/-- Whether `d` is among the reals that round to the magnitude of `x`: between the midpoints to the
two neighbours, the midpoints themselves included when the mantissa is even. -/
def admits (x : Binary64) (d : Decimal) : Bool :=
  let low := d.compareBinary (4 * x.mantissa - if x.narrowBelow then 1 else 2) (x.scale - 2)
  let high := d.compareBinary (4 * x.mantissa + 2) (x.scale - 2)
  let closed := x.mantissa % 2 == 0
  (low == .gt || (closed && low == .eq)) && (high == .lt || (closed && high == .eq))

/-- The point of the grid `10 ^ exponent` that is nearest to `x` among its two neighbours there
that read back as `x`. -/
def onGrid? (tie : Tie) (x : Binary64) (exponent : Int) : Option Decimal :=
  let (num, den) := x.ratio
  let num := num * Nat.pow 10 (-exponent).toNat
  let den := den * Nat.pow 10 exponent.toNat
  let below := num / den
  let down : Decimal := ⟨below, exponent⟩
  let up : Decimal := ⟨below + 1, exponent⟩
  match x.admits down, x.admits up with
  | true, true => some ⟨tie.nearer (compare (2 * num) ((2 * below + 1) * den)) below, exponent⟩
  | true, false => some down
  | false, true => some up
  | false, false => none

/-- The exact decimal value of a finite magnitude. -/
def exact (x : Binary64) : Decimal :=
  ⟨x.mantissa * Nat.pow 2 x.scale.toNat * Nat.pow 5 (-x.scale).toNat, min x.scale 0⟩

/-- The shortest decimal that reads back as the magnitude of a finite nonzero `x`: the first hit
on the grids of one, two, … seventeen digits. -/
def shortest (tie : Tie) (x : Binary64) : Decimal :=
  let lead := floorLog10 x.ratio.1 x.ratio.2
  (((List.range 17).findSome? fun (n : Nat) => x.onGrid? tie (lead - n)).getD x.exact).trim

/-- Digits with the point after the first `point` of them, padded by zeros on either side. -/
def positional (digits : List Char) (point : Int) : String :=
  if point ≤ 0 then
    String.ofList (['0', '.'] ++ List.replicate (-point).toNat '0' ++ digits)
  else if digits.length ≤ point.toNat then
    String.ofList (digits ++ List.replicate (point.toNat - digits.length) '0' ++ ['.', '0'])
  else
    String.ofList (digits.take point.toNat ++ '.' :: digits.drop point.toNat)

/-- Digits as a mantissa below ten and a power of ten. -/
def exponential (digits : List Char) (exponent : Int) : String :=
  let mantissa := match digits with
    | [] => []
    | [d] => [d]
    | d :: rest => d :: '.' :: rest
  String.ofList mantissa ++ "e" ++ toString exponent

/-- The text of the magnitude of a finite number. -/
def magnitudeText (tie : Tie) (x : Binary64) : String :=
  if x.mantissa = 0 then "0.0"
  else
    let d := x.shortest tie
    let digits := decimalDigits d.digits
    let lead := d.exponent + digits.length - 1
    if -4 ≤ lead ∧ lead < 16 then positional digits (lead + 1)
    else exponential digits lead

/-- The text of any double; the sign of a NaN is not shown. -/
def text (tie : Tie) (x : Binary64) : String :=
  if x.isNaN then "NaN"
  else
    let magnitude := if x.isFinite then x.magnitudeText tie else "inf"
    if x.isNegative then "-" ++ magnitude else magnitude

end Binary64

end Readback
