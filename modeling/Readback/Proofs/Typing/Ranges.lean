import Mathlib.Algebra.Order.Ring.Int
import Mathlib.Tactic.Positivity
import Readback.Target

/-! # Values of integer types

An integer type of `w` bits has the values from `0` to `2 ^ w - 1` if it is unsigned and those from
`-2 ^ (w - 1)` to `2 ^ (w - 1) - 1` if it is signed. -/

namespace Readback

namespace Target

variable {t : Target} {k l : Builtin}

/-- The width of an integer type. -/
def width (t : Target) (k : Builtin) : Nat := (t.integerWidth? k).getD 0

/-- Whether an integer type is unsigned on the target. -/
def unsigned (t : Target) (k : Builtin) : Bool := k.isUnsigned t.charIsUnsigned

/-- The least value of an integer type. -/
def least (t : Target) (k : Builtin) : Int := if t.unsigned k then 0 else -2 ^ (t.width k - 1)

/-- The greatest value of an integer type. -/
def greatest (t : Target) (k : Builtin) : Int :=
  if t.unsigned k then 2 ^ t.width k - 1 else 2 ^ (t.width k - 1) - 1

/-- The number is a value of the type. -/
def Holds (t : Target) (k : Builtin) (v : Int) : Prop := t.least k ≤ v ∧ v ≤ t.greatest k

instance (t : Target) (k : Builtin) (v : Int) : Decidable (t.Holds k v) := by
  unfold Holds
  infer_instance

/-- The first type has all values of the second one. -/
def Represents (t : Target) (k l : Builtin) : Prop := ∀ v, t.Holds l v → t.Holds k v

theorem Represents.refl (t : Target) (k : Builtin) : t.Represents k k := fun _ h => h

theorem least_le_greatest (t : Target) (k : Builtin) : t.least k ≤ t.greatest k := by
  have hpos (n : Nat) : (0 : Int) < 2 ^ n := by positivity
  have := hpos (t.width k)
  have := hpos (t.width k - 1)
  unfold least greatest
  split <;> omega

theorem represents_iff :
    t.Represents k l ↔ t.least k ≤ t.least l ∧ t.greatest l ≤ t.greatest k := by
  constructor
  · intro h
    exact ⟨(h _ ⟨le_rfl, t.least_le_greatest l⟩).1, (h _ ⟨t.least_le_greatest l, le_rfl⟩).2⟩
  · rintro ⟨hleast, hgreatest⟩ v ⟨hl, hg⟩
    exact ⟨hleast.trans hl, hg.trans hgreatest⟩

instance (t : Target) (k l : Builtin) : Decidable (t.Represents k l) :=
  decidable_of_iff _ represents_iff.symm

/-- A signed type has the values of an unsigned one if it is wider. -/
theorem represents_signed_unsigned (hk : t.unsigned k = false) (hl : t.unsigned l = true)
    (hpos : 0 < t.width k) : t.Represents k l ↔ t.width l < t.width k := by
  have hpow : (2 : Int) ^ t.width l ≤ 2 ^ (t.width k - 1) ↔ t.width l ≤ t.width k - 1 :=
    pow_le_pow_iff_right₀ (by decide)
  have hneg : (0 : Int) < 2 ^ (t.width k - 1) := by positivity
  rw [represents_iff, least, least, greatest, greatest, hk, hl]
  simp only [if_true, Bool.false_eq_true, if_false]
  omega

/-- Of two types with the same signedness, the wider one has the values of the other. -/
theorem represents_of_width_le (hsign : t.unsigned k = t.unsigned l) (hwidth : t.width l ≤ t.width k) :
    t.Represents k l := by
  have hpow {m n : Nat} (h : m ≤ n) : (2 : Int) ^ m ≤ 2 ^ n := pow_le_pow_right₀ (by decide) h
  have hunsigned := hpow hwidth
  have hsigned := hpow (Nat.sub_le_sub_right hwidth 1)
  rw [represents_iff, least, least, greatest, greatest, hsign]
  split <;> omega

end Target

end Readback
