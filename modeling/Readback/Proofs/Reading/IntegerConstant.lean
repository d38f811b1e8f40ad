import Mathlib.Data.List.Find
import Readback.Proofs.Number.Constant
import Readback.Proofs.Typing.Promotion

/-! # Integer literals as C reads them

C types an integer constant by its suffix and its value: it has the first type of a list that goes with
the suffix which has the value. A minus in front is an operator on the constant. So the text of a
literal has the type and the value of the literal unless it is the least value of a signed type: its
magnitude is no value of that type.

* `constantTypes`, `Target.firstOf` and `Target.constant?` are the rules of C, for decimal and
  octal constants. `Target.minus` and `Target.signedConstant?` apply a minus to them: the operand is
  promoted, and an unsigned value wraps.
* `constantKinds` are the types that have constants of their own. The suffix of such a type makes it the
  first of its list (`firstOf_suffix`), and digits are read as the number that they were made from
  (`constant?_digits`); only zero starts with a zero, so nothing else is read as octal.
* `Target.wider?` is the type that a constant has which is just too big for a signed type. On the
  platforms that triples name, the least `int` has such a type and the least `long long` has none
  (`Target.wider?_ofTriple`).

What a literal stores is in the range of its type, because making it brings the number there
(`holds_wrap`). The main result is `Program.integer_denotes`: on every target on which types of higher
rank are not narrower, the text of a literal is read as a constant of its type and value, unless it is
the least value of a signed type; then it has the wider type, or none. `Program.integer_denotes_least`
is the least `int`. -/

namespace Readback

/-! ### The types of constants -/

/-- The types of integer constants with the suffix, in the order in which C tries them. Constants that
are not decimal may also be unsigned without a `U`. -/
def constantTypes (suffix : String) (decimal : Bool) : List Builtin :=
  match suffix with
  | "" =>
      if decimal then [.int, .long, .longLong]
      else [.int, .unsignedInt, .long, .unsignedLong, .longLong, .unsignedLongLong]
  | "U" => [.unsignedInt, .unsignedLong, .unsignedLongLong]
  | "L" => if decimal then [.long, .longLong] else [.long, .unsignedLong, .longLong, .unsignedLongLong]
  | "UL" => [.unsignedLong, .unsignedLongLong]
  | "LL" => if decimal then [.longLong] else [.longLong, .unsignedLongLong]
  | "ULL" => [.unsignedLongLong]
  | _ => []

/-- The types with constants of their own. -/
def constantKinds : List Builtin :=
  [.int, .unsignedInt, .long, .unsignedLong, .longLong, .unsignedLongLong]

namespace Target

/-- The first of the types that has the value. -/
def firstOf (t : Target) (types : List Builtin) (n : Nat) : Option (Builtin × Int) :=
  (types.find? fun k => n ≤ t.greatest k).map fun k => (k, n)

/-- The type and value of a constant in C. A zero in front makes it octal. -/
def constant? (t : Target) (text : List Char) : Option (Builtin × Int) :=
  let digits := text.takeWhile Char.isDigit
  let suffix := String.ofList (text.dropWhile Char.isDigit)
  let decimal := digits.head? != some '0'
  if digits.isEmpty || (!decimal && digits.any fun c => '7' < c) then none
  else t.firstOf (constantTypes suffix decimal)
    (Nat.ofDigitChars (if decimal then 10 else 8) digits 0)

/-- A minus promotes its operand; on an unsigned type it wraps. -/
def minus (t : Target) (k : Builtin) (v : Int) : Builtin × Int :=
  (t.promoted k, if t.unsigned (t.promoted k) then -v % 2 ^ t.width (t.promoted k) else -v)

/-- The type and value of a constant, perhaps with a minus in front. -/
def signedConstant? (t : Target) : List Char → Option (Builtin × Int)
  | '-' :: rest => (t.constant? rest).map fun x => t.minus x.1 x.2
  | text => t.constant? text

end Target

/-! ### Digits -/

/-- Only zero starts with a zero. -/
theorem head?_decimalDigits (n : Nat) : (decimalDigits n).head? = some '0' ↔ n = 0 := by
  unfold decimalDigits
  induction n using Nat.strong_induction_on with
  | _ n ih =>
      rw [Nat.toDigits_eq_if (by decide)]
      split
      · next hlt =>
          have hall : ∀ m < 10, [Nat.digitChar m].head? = some '0' ↔ m = 0 := by decide
          exact hall n hlt
      · next hle =>
          rw [List.head?_append_of_ne_nil _ Nat.toDigits_ne_nil, ih (n / 10) (by omega)]
          omega

namespace Target

variable {t : Target} {k : Builtin}

/-- The digits of a number are read as that number. -/
theorem constant?_digits (t : Target) (n : Nat) {suffix : String} (hs : suffix ∈ integerSuffixes) :
    t.constant? (decimalDigits n ++ suffix.toList) =
      t.firstOf (constantTypes suffix (n != 0)) n := by
  have hsuffix : suffix.toList.takeWhile Char.isDigit = [] ∧
      suffix.toList.dropWhile Char.isDigit = suffix.toList := by
    have hall : ∀ s ∈ integerSuffixes, s.toList.takeWhile Char.isDigit = [] ∧
        s.toList.dropWhile Char.isDigit = s.toList := by decide
    exact hall suffix hs
  have htake : (decimalDigits n ++ suffix.toList).takeWhile Char.isDigit = decimalDigits n := by
    rw [List.takeWhile_append_of_pos (isDigits_decimalDigits n).2, hsuffix.1, List.append_nil]
  have hdrop : (decimalDigits n ++ suffix.toList).dropWhile Char.isDigit = suffix.toList := by
    rw [List.dropWhile_append_of_pos (isDigits_decimalDigits n).2, hsuffix.2]
  unfold constant?
  rw [htake, hdrop, String.ofList_toList]
  by_cases hn : n = 0
  · subst hn
    rfl
  · have hdecimal : ((decimalDigits n).head? != some '0') = true := by
      rw [bne_iff_ne]
      exact mt (head?_decimalDigits n).mp hn
    have hempty : (decimalDigits n).isEmpty = false :=
      List.isEmpty_eq_false_iff.mpr (isDigits_decimalDigits n).1
    have hvalue : Nat.ofDigitChars 10 (decimalDigits n) 0 = n := Nat.ofDigitChars_ten_toDigits
    have hzero : (n != 0) = true := bne_iff_ne.mpr hn
    simp only [hdecimal, hempty, hzero, Bool.not_true, Bool.false_and, Bool.or_false,
      Bool.false_eq_true, if_false, if_true, hvalue]

/-- The first type of the list is taken if it has the value. -/
theorem firstOf_suffix (hk : k ∈ constantKinds) {n : Nat} (hn : n ≤ t.greatest k) (decimal : Bool) :
    t.firstOf (constantTypes (integerSuffix (some k)) decimal) n = some (k, (n : Int)) := by
  have hfirst : ∀ k ∈ constantKinds, ∀ decimal,
      (constantTypes (integerSuffix (some k)) decimal).head? = some k := by decide
  obtain ⟨rest, hrest⟩ := List.head?_eq_some_iff.mp (hfirst k hk decimal)
  rw [firstOf, hrest, List.find?_cons_of_pos (by simpa using hn)]
  rfl

/-- A constant that is just too big for a signed type has the first wider type. -/
def wider? (t : Target) (k : Builtin) : Option Builtin :=
  (constantTypes (integerSuffix (some k)) true).find? fun l => t.width k < t.width l

/-- On the platforms that triples name, the least `long long` has no type as it is written, nor has
the least `long` where that is as wide, and the others have a wider type. -/
theorem wider?_ofTriple (triple : String) :
    (ofTriple triple).wider? .longLong = none ∧
    (if (ofTriple triple).longWidth = 32 then
        (ofTriple triple).wider? .int = some .longLong ∧ (ofTriple triple).wider? .long = some .longLong
      else (ofTriple triple).wider? .int = some .long ∧ (ofTriple triple).wider? .long = none) := by
  have hint : (ofTriple triple).intWidth = 32 := rfl
  have hlongLong : (ofTriple triple).longLongWidth = 64 := rfl
  have hlong : (ofTriple triple).longWidth = 32 ∨ (ofTriple triple).longWidth = 64 := by
    show ite _ 32 64 = 32 ∨ ite _ 32 64 = 64
    split
    · exact .inl rfl
    · exact .inr rfl
  rcases hlong with hlong | hlong <;>
    simp [wider?, constantTypes, integerSuffix, width, integerWidth?, hint, hlong, hlongLong]

theorem isInteger_of_constantKind (hk : k ∈ constantKinds) : k.isInteger = true :=
  (by decide : ∀ k ∈ constantKinds, k.isInteger = true) k hk

/-- None of these types is plain `char`. -/
theorem unsigned_of_constantKind (hk : k ∈ constantKinds) : t.unsigned k = k.isUnsigned false := by
  have hall : ∀ k ∈ constantKinds, ∀ flag, k.isUnsigned flag = k.isUnsigned false := by decide
  exact hall k hk _

/-- Without a `U`, decimal constants have signed types. -/
theorem mem_constantTypes (hk : k ∈ constantKinds) (hsign : t.unsigned k = false) {l : Builtin}
    (hl : l ∈ constantTypes (integerSuffix (some k)) true) :
    l ∈ constantKinds ∧ t.unsigned l = false := by
  have hall : ∀ k ∈ constantKinds, k.isUnsigned false = false →
      ∀ l ∈ constantTypes (integerSuffix (some k)) true,
        l ∈ constantKinds ∧ l.isUnsigned false = false := by decide
  rw [unsigned_of_constantKind hk] at hsign
  obtain ⟨hl', hsign'⟩ := hall k hk hsign l hl
  exact ⟨hl', (unsigned_of_constantKind hl').trans hsign'⟩

theorem greatest_of_signed (hk : t.unsigned k = false) : t.greatest k + 1 = -t.least k := by
  simp [greatest, least, hk]

/-- The magnitude of the least value of a signed type is a value of just the wider ones. -/
theorem neg_least_le_greatest (hk : t.unsigned k = false) {l : Builtin} (hl : t.unsigned l = false)
    (hpos : 0 < t.width k) : -t.least k ≤ t.greatest l ↔ t.width k < t.width l := by
  have hpow : (2 : Int) ^ (t.width k - 1) < 2 ^ (t.width l - 1) ↔ t.width k - 1 < t.width l - 1 :=
    pow_lt_pow_iff_right₀ (by decide)
  simp only [least, greatest, hk, hl, Bool.false_eq_true, if_false]
  omega

theorem firstOf_least (h : t.Regular) (hk : k ∈ constantKinds) (hsign : t.unsigned k = false) :
    t.firstOf (constantTypes (integerSuffix (some k)) true) (-t.least k).toNat =
      (t.wider? k).map fun l => (l, -t.least k) := by
  have hpos := h.width_pos (isInteger_of_constantKind hk)
  have hneg : 0 ≤ -t.least k := by
    simp only [least, hsign, Bool.false_eq_true, if_false, neg_neg]
    positivity
  have hcast : ((-t.least k).toNat : Int) = -t.least k := Int.toNat_of_nonneg hneg
  unfold firstOf wider?
  rw [hcast]
  congr 1
  refine List.find?_congr fun l hl => ?_
  obtain ⟨-, hl'⟩ := mem_constantTypes hk hsign hl
  exact decide_eq_decide.mpr (neg_least_le_greatest hsign hl' hpos)

/-- A minus negates values of signed types, which are promoted already. -/
theorem minus_of_signed (hk : k ∈ constantKinds) (hsign : t.unsigned k = false) (v : Int) :
    t.minus k v = (k, -v) := by
  have hrank : ∀ k ∈ constantKinds, ¬ k.rank < Builtin.int.rank := by decide
  have hpromoted : t.promoted k = k := if_neg (hrank k hk)
  rw [minus, hpromoted, hsign]
  rfl

theorem signedConstant?_of_nonneg (hk : k ∈ constantKinds) {w : Int} (hw : 0 ≤ w)
    (hgreatest : w ≤ t.greatest k) :
    t.signedConstant? (toString w ++ integerSuffix (some k)).toList = some (k, w) := by
  have hn : (w.toNat : Int) = w := Int.toNat_of_nonneg hw
  have htext : (toString w ++ integerSuffix (some k)).toList =
      decimalDigits w.toNat ++ (integerSuffix (some k)).toList := by
    rw [toString_of_nonneg hw, String.toList_append, String.toList_ofList]
  have hhead : t.signedConstant? (decimalDigits w.toNat ++ (integerSuffix (some k)).toList) =
      t.constant? (decimalDigits w.toNat ++ (integerSuffix (some k)).toList) := by
    unfold signedConstant?
    split
    · next rest hrest =>
        obtain ⟨d, ds, hd, hdigit⟩ := (isDigits_decimalDigits w.toNat).eq_cons
        rw [hd] at hrest
        cases (List.cons.inj hrest).1
        exact absurd hdigit (by decide)
    · rfl
  rw [htext, hhead, t.constant?_digits _ (integerSuffix_mem _), firstOf_suffix hk (hn ▸ hgreatest), hn]

/-- The text of a negative number is a minus and the text of its magnitude. -/
theorem signedConstant?_of_neg {w : Int} (hw : w < 0) :
    t.signedConstant? (toString w ++ integerSuffix (some k)).toList =
      (t.firstOf (constantTypes (integerSuffix (some k)) true) (-w).toNat).map
        fun x => t.minus x.1 x.2 := by
  have htext : (toString w ++ integerSuffix (some k)).toList =
      '-' :: (decimalDigits (-w).toNat ++ (integerSuffix (some k)).toList) := by
    rw [toString_of_neg hw, toString_of_nonneg (by omega : 0 ≤ -w)]
    simp
  have hne : ((-w).toNat != 0) = true := by
    rw [bne_iff_ne]
    omega
  rw [htext, signedConstant?, t.constant?_digits _ (integerSuffix_mem _), hne]

/-- The text of a value has the type and the value, unless it is the least value of a signed type. -/
theorem signedConstant?_eq (h : t.Regular) (hk : k ∈ constantKinds) {w : Int} (hw : t.Holds k w) :
    t.signedConstant? (toString w ++ integerSuffix (some k)).toList =
      if t.unsigned k = false ∧ w = t.least k then (t.wider? k).map fun l => (l, w)
      else some (k, w) := by
  obtain ⟨hleast, hgreatest⟩ := hw
  have hpos := h.width_pos (isInteger_of_constantKind hk)
  obtain hneg | hnonneg := Int.lt_or_le w 0
  · have hsign : t.unsigned k = false := by
      refine Bool.eq_false_iff.mpr fun hsign => ?_
      rw [least, hsign, if_pos rfl] at hleast
      omega
    rw [signedConstant?_of_neg hneg]
    split
    · next hmin =>
        obtain ⟨-, rfl⟩ := hmin
        rw [firstOf_least h hk hsign]
        cases hwider : t.wider? k with
        | none => rfl
        | some l =>
            obtain ⟨hl, hsign'⟩ := mem_constantTypes hk hsign (List.mem_of_find?_eq_some hwider)
            rw [Option.map_some, Option.map_some, Option.map_some, minus_of_signed hl hsign', neg_neg]
    · next hmin =>
        have hfits : -w ≤ t.greatest k := by
          have hnext := greatest_of_signed hsign
          have hne : w ≠ t.least k := fun heq => hmin ⟨hsign, heq⟩
          omega
        have hcast : ((-w).toNat : Int) = -w := Int.toNat_of_nonneg (by omega)
        rw [firstOf_suffix hk (hcast ▸ hfits), hcast, Option.map_some, minus_of_signed hk hsign,
          neg_neg]
  · rw [signedConstant?_of_nonneg hk hnonneg hgreatest, if_neg]
    rintro ⟨hsign, rfl⟩
    have hpow : (0 : Int) < 2 ^ (t.width k - 1) := by positivity
    rw [least, hsign, if_neg Bool.false_ne_true] at hnonneg
    omega

end Target

namespace Check

/-- A value is brought into the range of its type by multiples of the number of values. -/
theorem holds_wrap {t : Target} {k : Builtin} (hpos : 0 < t.width k) (v : Int) :
    t.Holds k (wrap (t.width k) (t.unsigned k) v) ∧
      wrap (t.width k) (t.unsigned k) v % 2 ^ t.width k = v % 2 ^ t.width k := by
  have hdouble : (2 : Int) ^ t.width k = 2 * 2 ^ (t.width k - 1) := by
    rw [← pow_succ', Nat.sub_add_cancel hpos]
  have hhalf : (0 : Int) < 2 ^ (t.width k - 1) := by positivity
  have hlow := Int.emod_nonneg v (by omega : (2 : Int) ^ t.width k ≠ 0)
  have hhigh := Int.emod_lt_of_pos v (by omega : (0 : Int) < 2 ^ t.width k)
  have hself : v % 2 ^ t.width k % 2 ^ t.width k = v % 2 ^ t.width k := Int.emod_emod_of_dvd _ dvd_rfl
  simp only [wrap, Nat.pow_eq, Nat.cast_pow, Nat.cast_ofNat, Target.Holds, Target.least,
    Target.greatest]
  cases t.unsigned k with
  | true =>
      simp only [Bool.not_true, Bool.false_eq_true, false_and, if_false, if_true]
      exact ⟨⟨hlow, by omega⟩, hself⟩
  | false =>
      simp only [Bool.not_false, Bool.false_eq_true, true_and, if_false]
      by_cases hover : (2 : Int) ^ (t.width k - 1) ≤ v % 2 ^ t.width k
      · rw [if_pos hover, Int.sub_emod_right]
        exact ⟨⟨by omega, by omega⟩, hself⟩
      · rw [if_neg hover]
        exact ⟨⟨by omega, by omega⟩, hself⟩

end Check

namespace Program

open Check Step

variable {p : Program} {t : QualType} {kind : Builtin}

/-- **Integer literals as C reads them.** On every target on which types of higher rank are not
narrower, a literal of a type with constants of its own can be made of every number. What is stored is
the value of the type that is congruent to it. The text, whether casts are shown or not, has the type
and the value that are stored, unless that is the least value of a signed type. Then the text has the
value, but the first wider type that goes with the suffix, or none if there is no such type. -/
theorem integer_denotes (h : p.target.Regular) (hkind : kind ∈ constantKinds)
    (ht : p.builtin? t = some kind) (v : Int) :
    ∃ (w : Int) (r : Program) (text : String), Check.integer v t p = .ok p.exprs.size r ∧
      (r.expr p.exprs.size).kind = .integer w ∧ (r.expr p.exprs.size).type = t ∧
      p.target.Holds kind w ∧ w % 2 ^ p.target.width kind = v % 2 ^ p.target.width kind ∧
      (∀ showCasts useColors, r.exprText showCasts useColors p.exprs.size = literal useColors text) ∧
      p.target.signedConstant? text.toList =
        if p.target.unsigned kind = false ∧ w = p.target.least kind then
          (p.target.wider? kind).map fun k => (k, w)
        else some (kind, w) := by
  have hinteger := Target.isInteger_of_constantKind hkind
  have hwidth : (p.target.integerWidth? kind).getD 64 = p.target.width kind := by
    have hall : ∀ k ∈ constantKinds, (p.target.integerWidth? k).getD 64 = p.target.width k := by
      simp [constantKinds, Target.width, Target.integerWidth?]
    exact hall kind hkind
  obtain ⟨hholds, hcongr⟩ := holds_wrap (h.width_pos hinteger) v
  obtain ⟨w, hw⟩ : ∃ w, w = wrap (p.target.width kind) (p.target.unsigned kind) v := ⟨_, rfl⟩
  rw [← hw] at hholds hcongr
  have hrun : Check.integer v t p = .ok p.exprs.size (p.pushExpr (.integer w) t .rvalue).2 := by
    unfold Check.integer
    rw [get_bind, ht, Option.filter_some, if_pos hinteger, hw, ← hwidth]
    rfl
  refine ⟨w, _, toString w ++ integerSuffix (some kind), hrun, ?_, ?_, hholds, hcongr, ?_,
    Target.signedConstant?_eq h hkind hholds⟩
  · rw [expr_pushExpr_self]
  · rw [expr_pushExpr_self]
  · intro showCasts useColors
    have hterm : (p.pushExpr (.integer w) t .rvalue).2.term p.exprs.size = .integer w (some kind) := by
      unfold term termAux
      rw [expr_pushExpr_self]
      exact congrArg (Term.integer w) ht
    rw [Program.exprText, hterm]
    show Piece.textOf useColors [.literal (toString w ++ integerSuffix (some kind))] = _
    rw [Piece.textOf_cons, Piece.textOf_nil, String.append_empty]
    rfl

/-- The least `int` is written as a minus and a constant of type `long`. -/
theorem integer_denotes_least :
    ∃ (p r : Program) (text : String), p.Constructed ∧ p.target.Regular ∧
      p.builtin? (.plain 0) = some .int ∧
      Check.integer (-2147483648) (.plain 0) p = .ok p.exprs.size r ∧
      (r.expr p.exprs.size).kind = .integer (-2147483648) ∧
      (∀ showCasts useColors, r.exprText showCasts useColors p.exprs.size = literal useColors text) ∧
      p.target.signedConstant? text.toList = some (.long, -2147483648) := by
  have h₀ := Constructed.empty ⟨"x86_64-unknown-linux-gnu", false, 16, 32, 64, 64, 64⟩
  have h₁ := h₀.step (.builtin .int) (by decide +kernel)
  obtain ⟨p, h, hregular, ht, hwidth, hsign, hleast, hwider⟩ : ∃ p : Program, p.Constructed ∧
      p.target.Regular ∧ p.builtin? (.plain 0) = some .int ∧ p.target.width .int = 32 ∧
      p.target.unsigned .int = false ∧ p.target.least .int = -2147483648 ∧
      p.target.wider? .int = some .long :=
    ⟨_, h₁, by decide +kernel, by decide +kernel, by decide +kernel, by decide +kernel,
      by decide +kernel, by decide +kernel⟩
  obtain ⟨w, r, text, hrun, hkind, -, ⟨hlow, hhigh⟩, hcongr, htext, hread⟩ :=
    integer_denotes hregular (by decide) ht (-2147483648)
  have hw : w = -2147483648 := by
    have hgreatest := Target.greatest_of_signed hsign
    rw [hwidth] at hcongr
    omega
  subst hw
  rw [hsign, hleast, if_pos ⟨rfl, rfl⟩, hwider] at hread
  exact ⟨p, r, text, h, hregular, ht, hrun, hkind, htext, hread⟩

end Program

end Readback
