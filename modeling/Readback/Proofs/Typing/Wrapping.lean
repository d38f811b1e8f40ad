import Mathlib.Data.Int.ModEq
import Readback.Proofs.Reading.IntegerConstant

/-! # Integer literals wrap

An integer literal is made of any number, but of an integer type only. What it stores is the number
brought into the range of the type by multiples of `2 ^ w`, where the type has `w` bits.

* `Target.Positive` asks that every type whose width is a matter of the target has a bit. The targets
  that triples name are such. All integer types have a width then (`integerWidth?_of_isInteger`).
* The values of a type with `w` bits are `2 ^ w` numbers in a row (`Target.greatest_sub_least`), so
  exactly one of them is congruent to a given number: there is one, and two values of a type that are
  congruent are the same (`Target.Holds.eq_of_modEq`).
* The wrapped number is such a value, so this says what is stored; and a number that is a value of the
  type is stored as it is, so wrapping again changes nothing.
* `Check.wrap_eq_tmod` says the same with remainders that have the sign of the dividend, as machines
  compute them: the modulus is added to a first remainder and the remainder is taken again.

The main result is `Program.integer_wraps`. Making a literal fails exactly where the type is no integer
type, whatever the number, and then the program stays as it was (`integer_error`); elsewhere the literal
stores the only value of the type that is congruent to the number (`integer_ok`). On a target where
`int` has one bit, a literal of `3` stores `-1` (`integer_wraps_bit`). -/

namespace Readback

namespace Target

variable {t : Target} {k : Builtin}

/-- Every type whose width is a matter of the target has a bit. -/
structure Positive (t : Target) : Prop where
  short : 1 ≤ t.shortWidth
  int : 1 ≤ t.intWidth
  long : 1 ≤ t.longWidth
  longLong : 1 ≤ t.longLongWidth

instance (t : Target) : Decidable t.Positive :=
  decidable_of_iff (1 ≤ t.shortWidth ∧ 1 ≤ t.intWidth ∧ 1 ≤ t.longWidth ∧ 1 ≤ t.longLongWidth)
    ⟨fun h => ⟨h.1, h.2.1, h.2.2.1, h.2.2.2⟩, fun h => ⟨h.short, h.int, h.long, h.longLong⟩⟩

theorem Positive.width_pos (h : t.Positive) (hk : k.isInteger = true) : 0 < t.width k := by
  obtain ⟨hshort, hint, hlong, hlongLong⟩ := h
  cases k <;> first
    | exact absurd hk (by decide)
    | simp only [width, integerWidth?, Option.getD_some]; omega

/-- All integer types have a width. -/
theorem integerWidth?_of_isInteger (hk : k.isInteger = true) :
    t.integerWidth? k = some (t.width k) := by
  cases k <;> first
    | exact absurd hk (by decide)
    | rfl

/-- The values of a type with `w` bits are `2 ^ w` numbers in a row. -/
theorem greatest_sub_least (hpos : 0 < t.width k) :
    t.greatest k - t.least k = 2 ^ t.width k - 1 := by
  have hdouble : (2 : Int) ^ t.width k = 2 * 2 ^ (t.width k - 1) := by
    rw [← pow_succ', Nat.sub_add_cancel hpos]
  unfold greatest least
  split <;> omega

/-- Two values of a type that are congruent are the same. -/
theorem Holds.eq_of_modEq (hpos : 0 < t.width k) {u v : Int} (hu : t.Holds k u) (hv : t.Holds k v)
    (h : u ≡ v [ZMOD 2 ^ t.width k]) : u = v := by
  have hrow := t.greatest_sub_least hpos
  obtain ⟨hul, hug⟩ := hu
  obtain ⟨hvl, hvg⟩ := hv
  have hapart : |v - u| < 2 ^ t.width k := by
    rw [abs_lt]
    constructor <;> omega
  have hzero : v - u = 0 := Int.eq_zero_of_abs_lt_dvd h.dvd hapart
  omega

end Target

namespace Check

/-- The same by remainders that have the sign of the dividend: the width is added to a first remainder,
and the remainder is taken again. -/
theorem wrap_eq_tmod (width : Nat) (isUnsigned : Bool) (v : Int) :
    wrap width isUnsigned v =
      let modulus : Int := 2 ^ width
      let wrapped := (v.tmod modulus + modulus).tmod modulus
      if !isUnsigned ∧ 2 ^ (width - 1) ≤ wrapped then wrapped - modulus else wrapped := by
  have hpos : (0 : Int) < 2 ^ width := by positivity
  have hlow : 0 ≤ v.tmod (2 ^ width) + 2 ^ width := by
    have := Int.lt_tmod_of_pos v hpos
    omega
  have htwice : (v.tmod (2 ^ width) + 2 ^ width).tmod (2 ^ width) = v % 2 ^ width := by
    rw [Int.tmod_eq_emod_of_nonneg hlow, Int.add_emod_right, Int.tmod_def,
      Int.sub_mul_emod_self_left]
  simp only [wrap, Nat.pow_eq, Nat.cast_pow, Nat.cast_ofNat, htwice]

end Check

namespace Program

open Check Step

variable {p : Program} {t : QualType} {kind : Builtin}

/-- A literal of an integer type stores the wrapped number. -/
theorem integer_ok (ht : p.builtin? t = some kind) (hkind : kind.isInteger = true) (v : Int) :
    Check.integer v t p = .ok p.exprs.size (p.pushExpr
      (.integer (wrap (p.target.width kind) (p.target.unsigned kind) v)) t .rvalue).2 := by
  have hwidth : (p.target.integerWidth? kind).getD 64 = p.target.width kind := by
    rw [Target.integerWidth?_of_isInteger hkind]
    rfl
  unfold Check.integer
  rw [get_bind, ht, Option.filter_some, if_pos hkind, ← hwidth]
  rfl

/-- There is no literal of any other type. -/
theorem integer_error (ht : ¬ ∃ kind, p.builtin? t = some kind ∧ kind.isInteger = true) (v : Int) :
    Check.integer v t p =
      .error (.literal ("integer literal of type " ++ Fault.quoted (p.typeText t))) p := by
  have hnone : (p.builtin? t).filter Builtin.isInteger = none := by
    rw [Option.filter_eq_none_iff]
    intro kind hkind hinteger
    exact ht ⟨kind, hkind, hinteger⟩
  unfold Check.integer
  rw [get_bind, hnone]
  rfl

/-- **Integer literals wrap.** On every target whose widths are positive, making an integer literal
fails exactly where the type is no integer type, whatever the number. The fault names the type, and the
program stays as it was. Where it is one, of `w` bits, the literal has the type, and what it stores is the
one value of the type that is congruent to the number modulo `2 ^ w`. So values of the type are stored
unchanged, and a literal of what was stored stores the same again. -/
theorem integer_wraps (h : p.target.Positive) (t : QualType) (v : Int) :
    ((∃ f q, Check.integer v t p = .error f q) ↔
      ¬ ∃ kind, p.builtin? t = some kind ∧ kind.isInteger = true) ∧
    (∀ f q, Check.integer v t p = .error f q →
      f = .literal ("integer literal of type " ++ Fault.quoted (p.typeText t)) ∧ q = p) ∧
    ∀ kind, p.builtin? t = some kind → kind.isInteger = true →
      ∃ w r, Check.integer v t p = .ok p.exprs.size r ∧
        (r.expr p.exprs.size).kind = .integer w ∧ (r.expr p.exprs.size).type = t ∧
        (∀ u, u = w ↔ p.target.Holds kind u ∧ u ≡ v [ZMOD 2 ^ p.target.width kind]) ∧
        (p.target.Holds kind v → w = v) ∧
        ∀ q : Program, q.target = p.target → q.builtin? t = some kind →
          ∃ s, Check.integer w t q = .ok q.exprs.size s ∧ (s.expr q.exprs.size).kind = .integer w := by
  have hok : ∀ kind, p.builtin? t = some kind → kind.isInteger = true →
      ∀ f q, Check.integer v t p ≠ .error f q := by
    intro kind ht hkind f q hrun
    rw [integer_ok ht hkind] at hrun
    cases hrun
  refine ⟨⟨?_, fun ht => ⟨_, _, integer_error ht v⟩⟩, fun f q hrun => ?_, fun kind ht hkind => ?_⟩
  · rintro ⟨f, q, hrun⟩ ⟨kind, ht, hkind⟩
    exact hok kind ht hkind f q hrun
  · have ht : ¬ ∃ kind, p.builtin? t = some kind ∧ kind.isInteger = true :=
      fun ⟨kind, ht, hkind⟩ => hok kind ht hkind f q hrun
    rw [integer_error ht] at hrun
    cases hrun
    exact ⟨rfl, rfl⟩
  · have hpos := h.width_pos hkind
    have stored (x : Int) (q : Program) (htarget : q.target = p.target)
        (hq : q.builtin? t = some kind) : ∃ s, Check.integer x t q = .ok q.exprs.size s ∧
          (s.expr q.exprs.size).kind =
            .integer (wrap (p.target.width kind) (p.target.unsigned kind) x) ∧
          (s.expr q.exprs.size).type = t := by
      refine ⟨_, integer_ok hq hkind x, ?_, ?_⟩
      · rw [expr_pushExpr_self, htarget]
      · rw [expr_pushExpr_self]
    have keeps (x : Int) (hx : p.target.Holds kind x) :
        wrap (p.target.width kind) (p.target.unsigned kind) x = x := by
      obtain ⟨hholds, hcongr⟩ := holds_wrap hpos x
      exact hholds.eq_of_modEq hpos hx hcongr
    obtain ⟨hholds, hcongr⟩ := holds_wrap hpos v
    obtain ⟨r, hrun, hvalue, htype⟩ := stored v p rfl ht
    refine ⟨_, r, hrun, hvalue, htype, fun u => ?_, keeps v, fun q htarget hq => ?_⟩
    · constructor
      · rintro rfl
        exact ⟨hholds, hcongr⟩
      · rintro ⟨hu, huv⟩
        exact hu.eq_of_modEq hpos hholds (huv.trans (Int.ModEq.symm hcongr))
    · obtain ⟨s, hs, hagain, -⟩ := stored _ q htarget hq
      rw [keeps _ hholds] at hagain
      exact ⟨s, hs, hagain⟩

/-- An `int` of one bit has the values `-1` and `0`, and a literal of `3` stores `-1`. -/
theorem integer_wraps_bit :
    ∃ p r : Program, p.target.Positive ∧ p.builtin? (.plain 0) = some .int ∧
      p.target.least .int = -1 ∧ p.target.greatest .int = 0 ∧
      Check.integer 3 (.plain 0) p = .ok p.exprs.size r ∧
      (r.expr p.exprs.size).kind = .integer (-1) := by
  obtain ⟨p, hpositive, ht, hwidth, hleast, hgreatest⟩ : ∃ p : Program, p.target.Positive ∧
      p.builtin? (.plain 0) = some .int ∧ p.target.width .int = 1 ∧
      p.target.least .int = -1 ∧ p.target.greatest .int = 0 :=
    ⟨after (Check.builtin .int) (.empty ⟨"bit", true, 1, 1, 1, 1, 1⟩), by decide +kernel,
      by decide +kernel, by decide +kernel, by decide +kernel, by decide +kernel⟩
  obtain ⟨-, -, hstores⟩ := integer_wraps hpositive (.plain 0) 3
  obtain ⟨w, r, hrun, hkind, -, hunique, -⟩ := hstores .int ht rfl
  have hw : -1 = w := by
    refine (hunique (-1)).mpr ⟨⟨hleast.le, by omega⟩, ?_⟩
    rw [hwidth]
    rfl
  subst hw
  exact ⟨p, r, hpositive, ht, hleast, hgreatest, hrun, hkind⟩

end Program

end Readback
