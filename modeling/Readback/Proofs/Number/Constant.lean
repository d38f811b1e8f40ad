import Readback.Proofs.Reading.Lexeme
import Readback.Proofs.Reading.Literal

/-! # Numbers as constants

The decimal constants of C without a sign: digits, for floating constants with places after a point,
an exponent or both, and a suffix (`Constant`). The text of an integer that is not negative and the
text of the magnitude of a double, each with the suffix of a type, are such constants
(`constant_integer`, `constant_magnitude`); the latter is in positional or in exponential notation
(`constant_positional`, `constant_exponential`).

A constant starts with a digit (`Constant.eq_cons`), has no other marks than points and minus signs
(`Constant.chars`), and its last character is no letter of an exponent (`Constant.getLast_not_mem`). This
is what decides where a tokenizer ends it. -/

namespace Readback

open Lexeme

/-- One decimal digit or more. -/
def IsDigits (s : List Char) : Prop := s ≠ [] ∧ ∀ c ∈ s, c.isDigit

theorem isDigits_zero : IsDigits ['0'] :=
  ⟨List.cons_ne_nil '0' [], List.forall_mem_singleton.mpr rfl⟩

/-- Digits, and perhaps places after a point. -/
inductive Mantissa : List Char → Prop where
  | whole {digits : List Char} (h : IsDigits digits) : Mantissa digits
  | places {whole places : List Char} (hw : IsDigits whole) (hp : IsDigits places) :
      Mantissa (whole ++ '.' :: places)

/-- The suffixes of integer constants. -/
def integerSuffixes : List String := ["", "U", "L", "UL", "LL", "ULL"]

/-- The suffixes of floating constants. -/
def floatingSuffixes : List String := ["", "f", "L"]

/-- A decimal constant of C. A floating constant has a point or an exponent. -/
inductive Constant : List Char → Prop where
  | integer {digits : List Char} (h : IsDigits digits) {suffix : String}
      (hs : suffix ∈ integerSuffixes) : Constant (digits ++ suffix.toList)
  | fixed {whole places : List Char} (hw : IsDigits whole) (hp : IsDigits places) {suffix : String}
      (hs : suffix ∈ floatingSuffixes) : Constant (whole ++ '.' :: places ++ suffix.toList)
  | scaled {mantissa sign exponent : List Char} (hm : Mantissa mantissa)
      (hsign : sign = [] ∨ sign = ['-']) (he : IsDigits exponent) {suffix : String}
      (hs : suffix ∈ floatingSuffixes) :
      Constant (mantissa ++ 'e' :: (sign ++ exponent) ++ suffix.toList)

theorem integerSuffix_mem (kind : Option Builtin) : integerSuffix kind ∈ integerSuffixes := by
  unfold integerSuffix
  split <;> decide

theorem floatingSuffix_mem (kind : Option Builtin) : floatingSuffix kind ∈ floatingSuffixes := by
  unfold floatingSuffix
  split <;> decide

/-! ### The characters of constants -/

theorem isWordChar_of_isDigit {c : Char} (h : c.isDigit) : isWordChar c := by
  simp [isWordChar, Char.isAlphanum, h]

theorem IsDigits.isWordChar {s : List Char} (h : IsDigits s) : ∀ c ∈ s, isWordChar c :=
  fun c hc => isWordChar_of_isDigit (h.2 c hc)

theorem IsDigits.eq_cons {s : List Char} (h : IsDigits s) : ∃ d t, s = d :: t ∧ d.isDigit := by
  cases s with
  | nil => exact absurd rfl h.1
  | cons d t => exact ⟨d, t, rfl, h.2 d List.mem_cons_self⟩

theorem Mantissa.eq_cons {s : List Char} (h : Mantissa s) : ∃ d t, s = d :: t ∧ d.isDigit := by
  cases h with
  | whole h => exact h.eq_cons
  | places hw _ =>
      obtain ⟨d, t, rfl, hd⟩ := hw.eq_cons
      exact ⟨d, _, rfl, hd⟩

theorem Mantissa.chars {s : List Char} (h : Mantissa s) : ∀ c ∈ s, isWordChar c ∨ c = '.' := by
  cases h with
  | whole h => exact fun c hc => .inl (h.isWordChar c hc)
  | places hw hp =>
      simp only [List.mem_append, List.mem_cons]
      rintro c (hc | rfl | hc)
      · exact .inl (hw.isWordChar c hc)
      · exact .inr rfl
      · exact .inl (hp.isWordChar c hc)

namespace Constant

variable {s : List Char}

/-- A constant starts with a digit. -/
theorem eq_cons (h : Constant s) : ∃ d t, s = d :: t ∧ d.isDigit := by
  have behind : ∀ {xs : List Char}, (∃ d t, xs = d :: t ∧ d.isDigit) → ∀ ys : List Char,
      ∃ d t, xs ++ ys = d :: t ∧ d.isDigit := by
    rintro _ ⟨d, t, rfl, hd⟩ ys
    exact ⟨d, t ++ ys, rfl, hd⟩
  cases h with
  | integer h => exact behind h.eq_cons _
  | fixed hw => exact behind (behind hw.eq_cons _) _
  | scaled hm => exact behind (behind hm.eq_cons _) _

theorem suffix_chars {suffix : String} (hs : suffix ∈ integerSuffixes ∨ suffix ∈ floatingSuffixes) :
    ∀ c ∈ suffix.toList, isWordChar c ∧ c ∉ ['e', 'E', 'p', 'P'] := by
  have hall : suffix.toList.all fun c => isWordChar c ∧ c ∉ ['e', 'E', 'p', 'P'] := by
    obtain hs | hs := hs
    · exact (by decide : ∀ suffix ∈ integerSuffixes,
        suffix.toList.all fun c => isWordChar c ∧ c ∉ ['e', 'E', 'p', 'P']) suffix hs
    · exact (by decide : ∀ suffix ∈ floatingSuffixes,
        suffix.toList.all fun c => isWordChar c ∧ c ∉ ['e', 'E', 'p', 'P']) suffix hs
  simpa only [List.all_eq_true, decide_eq_true_eq] using hall

/-- Constants have no other marks than points and minus signs. -/
theorem chars (h : Constant s) : ∀ c ∈ s, isWordChar c ∨ c = '.' ∨ c = '-' := by
  have suffixed : ∀ {xs : List Char} {suffix : String},
      (∀ c ∈ xs, isWordChar c ∨ c = '.' ∨ c = '-') →
      suffix ∈ integerSuffixes ∨ suffix ∈ floatingSuffixes →
      ∀ c ∈ xs ++ suffix.toList, isWordChar c ∨ c = '.' ∨ c = '-' := by
    intro xs suffix hxs hs c hc
    obtain hc | hc := List.mem_append.mp hc
    · exact hxs c hc
    · exact .inl (suffix_chars hs c hc).1
  cases h with
  | integer h hs => exact suffixed (fun c hc => .inl (h.isWordChar c hc)) (.inl hs)
  | fixed hw hp hs =>
      exact suffixed (fun c hc => ((Mantissa.places hw hp).chars c hc).imp_right .inl) (.inr hs)
  | scaled hm hsign he hs =>
      refine suffixed (fun c hc => ?_) (.inr hs)
      simp only [List.mem_append, List.mem_cons] at hc
      obtain hc | rfl | hc | hc := hc
      · exact (hm.chars c hc).imp_right .inl
      · exact .inl rfl
      · obtain rfl | rfl := hsign
        · cases hc
        · exact .inr (.inr (List.mem_singleton.mp hc))
      · exact .inl (he.isWordChar c hc)

/-- The last character of a constant is a digit or belongs to its suffix, and so is no letter of an
exponent. -/
theorem getLast_not_mem (h : Constant s) : ∀ c ∈ s.getLast?, c ∉ ['e', 'E', 'p', 'P'] := by
  have behind : ∀ (xs : List Char) {digits : List Char} {suffix : String}, IsDigits digits →
      suffix ∈ integerSuffixes ∨ suffix ∈ floatingSuffixes →
      ∀ c ∈ (xs ++ digits ++ suffix.toList).getLast?, c ∉ ['e', 'E', 'p', 'P'] := by
    intro xs digits suffix hd hs c hc
    rw [List.getLast?_append, List.getLast?_append] at hc
    cases hl : suffix.toList.getLast? with
    | some x =>
        rw [hl, Option.some_or, Option.mem_some_iff] at hc
        exact hc ▸ (suffix_chars hs x (List.mem_of_getLast? hl)).2
    | none =>
        rw [hl, Option.none_or, List.getLast?_eq_some_getLast hd.1, Option.some_or,
          Option.mem_some_iff] at hc
        have hdigit := hd.2 c (hc ▸ List.getLast_mem hd.1)
        rintro hmem
        simp only [List.mem_cons, List.not_mem_nil, or_false] at hmem
        obtain rfl | rfl | rfl | rfl := hmem <;> simp at hdigit
  cases h with
  | integer h hs => exact behind [] h (.inl hs)
  | @fixed whole places _ hp _ hs => simpa using behind (whole ++ ['.']) hp (.inr hs)
  | @scaled mantissa sign _ _ _ he _ hs => simpa using behind (mantissa ++ 'e' :: sign) he (.inr hs)

end Constant

/-! ### Numbers -/

theorem isDigits_decimalDigits (n : Nat) : IsDigits (decimalDigits n) :=
  ⟨Nat.toDigits_ne_nil, fun _ hc => Nat.isDigit_of_mem_toDigits (by decide) (by decide) hc⟩

theorem constant_integer {i : Int} (h : 0 ≤ i) {suffix : String} (hs : suffix ∈ integerSuffixes) :
    Constant (toString i ++ suffix).toList := by
  rw [String.toList_append, toString_of_nonneg h, String.toList_ofList]
  exact .integer (isDigits_decimalDigits _) hs

namespace Binary64

/-- A number in positional notation. -/
theorem constant_positional {digits : List Char} (h : IsDigits digits) (point : Int)
    {suffix : String} (hs : suffix ∈ floatingSuffixes) :
    Constant (positional digits point ++ suffix).toList := by
  have hzero : ∀ k, ∀ c ∈ List.replicate k '0', c.isDigit := fun k c hc =>
    List.eq_of_mem_replicate hc ▸ rfl
  have padded : ∀ {xs ys : List Char}, xs ≠ [] ∨ ys ≠ [] → (∀ c ∈ xs, c.isDigit) →
      (∀ c ∈ ys, c.isDigit) → IsDigits (xs ++ ys) := by
    intro xs ys hne hxs hys
    refine ⟨fun hnil => ?_, List.forall_mem_append.mpr ⟨hxs, hys⟩⟩
    obtain ⟨hx, hy⟩ := List.append_eq_nil_iff.mp hnil
    exact hne.elim (· hx) (· hy)
  rw [String.toList_append]
  unfold positional
  split
  · rw [String.toList_ofList, List.append_assoc ['0', '.']]
    exact .fixed isDigits_zero (padded (.inr h.1) (hzero _) h.2) hs
  · split
    · rw [String.toList_ofList]
      exact .fixed (padded (.inl h.1) h.2 (hzero _)) isDigits_zero hs
    · next hpos hlen =>
        rw [String.toList_ofList]
        refine .fixed ⟨?_, fun c hc => h.2 c (List.mem_of_mem_take hc)⟩
          ⟨?_, fun c hc => h.2 c (List.mem_of_mem_drop hc)⟩ hs
        · simp [List.take_eq_nil_iff, h.1]
          omega
        · simpa using hlen

theorem constant_exponential {digits : List Char} (h : IsDigits digits) (exponent : Int)
    {suffix : String} (hs : suffix ∈ floatingSuffixes) :
    Constant (exponential digits exponent ++ suffix).toList := by
  obtain ⟨sign, ds, hsign, hds, htext⟩ : ∃ sign ds, (sign = [] ∨ sign = ['-']) ∧ IsDigits ds ∧
      (toString exponent).toList = sign ++ ds := by
    by_cases hneg : exponent < 0
    · refine ⟨['-'], _, .inr rfl, isDigits_decimalDigits (-exponent).toNat, ?_⟩
      rw [toString_of_neg hneg, toString_of_nonneg (by omega)]
      simp
    · refine ⟨[], _, .inl rfl, isDigits_decimalDigits exponent.toNat, ?_⟩
      rw [toString_of_nonneg (by omega)]
      simp
  have hmantissa : ∀ m : List Char, Mantissa m →
      Constant (String.ofList m ++ "e" ++ toString exponent ++ suffix).toList := by
    intro m hm
    rw [String.toList_append, String.toList_append, String.toList_append, String.toList_ofList,
      htext, List.append_assoc m]
    exact .scaled hm hsign hds hs
  unfold exponential
  match digits with
  | [] => exact absurd rfl h.1
  | [d] => exact hmantissa [d] (.whole h)
  | d :: e :: rest =>
      have hall := List.forall_mem_cons.mp h.2
      exact hmantissa (d :: '.' :: e :: rest)
        (.places ⟨List.cons_ne_nil d [], List.forall_mem_singleton.mpr hall.1⟩
          ⟨List.cons_ne_nil e rest, hall.2⟩)

/-- The text of the magnitude of a double. -/
theorem constant_magnitude (tie : Tie) (x : Binary64) {suffix : String}
    (hs : suffix ∈ floatingSuffixes) : Constant (x.magnitudeText tie ++ suffix).toList := by
  unfold magnitudeText
  split
  · rw [String.toList_append]
    exact .fixed isDigits_zero isDigits_zero hs
  · dsimp only
    split
    · exact constant_positional (isDigits_decimalDigits _) _ hs
    · exact constant_exponential (isDigits_decimalDigits _) _ hs

end Binary64

end Readback
