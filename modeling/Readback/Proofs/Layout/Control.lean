import Readback.Layout.Unit
import Readback.Proofs.Number.Constant

/-! # Texts without a control character

Control characters come before the blank. Everything that is written in a program but the names in it
is put together from characters that do not. So types, numbers and quoted texts lack any control
character that the names lack: no escape character begins the code of a colour there, and no line ends
in the middle.

`Lacks c s` says that the character does not occur in the text. Texts lack what their parts lack
(`Lacks.append`, `Lacks.intercalate`), words and constants lack all control characters
(`Lacks.of_word`, `Lacks.of_constant`), and so do numbers and quoted bytes (`Lacks.integer`,
`Lacks.floating`, `Lacks.literalQuote`). For types and lists of parameters it is a condition on the names
(`CType.lacks_declarator`, `CType.lacks_paramTexts`). -/

namespace Readback

/-- The character is not in the text. -/
def Lacks (c : Char) (s : String) : Prop := c ∉ s.toList

instance (c : Char) (s : String) : Decidable (Lacks c s) := inferInstanceAs (Decidable (¬ _))

namespace Lacks

variable {c : Char}

@[simp] theorem append_iff {s t : String} : Lacks c (s ++ t) ↔ Lacks c s ∧ Lacks c t := by
  simp [Lacks, String.toList_append, not_or]

theorem append {s t : String} (hs : Lacks c s) (ht : Lacks c t) : Lacks c (s ++ t) :=
  append_iff.mpr ⟨hs, ht⟩

@[simp] theorem empty : Lacks c "" := by simp [Lacks]

theorem intercalate {sep : String} (hsep : Lacks c sep) {l : List String}
    (h : ∀ s ∈ l, Lacks c s) : Lacks c (sep.intercalate l) := by
  induction l with
  | nil => simp
  | cons s l ih =>
      have hs := h s List.mem_cons_self
      have hl := ih fun t ht => h t (List.mem_cons_of_mem s ht)
      cases l with
      | nil => simpa using hs
      | cons t l =>
          rw [String.intercalate_cons_cons]
          exact (hs.append hsep).append hl

variable (control : c.toNat < 32)

include control

/-- Texts of visible characters and blanks. -/
theorem of_visible {s : String} (h : s.toList.all fun x => 32 ≤ x.toNat) : Lacks c s := fun hc =>
  Nat.not_lt.mpr (of_decide_eq_true (List.all_eq_true.mp h c hc)) control

/-- A list of parameters, as types and function heads have it. -/
theorem parameters {l : List String} (h : ∀ s ∈ l, Lacks c s) (isVariadic : Bool) :
    let list := l ++ if isVariadic then ["..."] else []
    Lacks c (", ".intercalate (if list.isEmpty then ["void"] else list)) := by
  refine .intercalate (.of_visible control (by decide)) fun x hx => ?_
  generalize hlist : (l ++ if isVariadic then ["..."] else []) = list at hx
  split at hx
  · cases List.mem_singleton.mp hx
    exact .of_visible control (by decide)
  · rw [← hlist] at hx
    obtain hx | hx := List.mem_append.mp hx
    · exact h x hx
    · split at hx
      · cases List.mem_singleton.mp hx
        exact .of_visible control (by decide)
      · cases hx

/-- The characters of words are no control characters. -/
theorem of_word {s : String} (h : ∀ x ∈ s.toList, Lexeme.isWordChar x) : Lacks c s := by
  refine .of_visible control (List.all_eq_true.mpr fun x hx => decide_eq_true ?_)
  have hword : (decide (x.val ≥ 65 ∧ x.val ≤ 90) || (decide (x.val ≥ 97) && decide (x.val ≤ 122)) ||
      (decide (x.val ≥ 48) && decide (x.val ≤ 57)) || x == '_') = true := h x hx
  simp only [Bool.or_eq_true, Bool.and_eq_true, decide_eq_true_eq, beq_iff_eq,
    UInt32.le_iff_toNat_le, ge_iff_le] at hword
  have : x.toNat = x.val.toNat := rfl
  obtain ((⟨h, -⟩ | ⟨h, -⟩) | ⟨h, -⟩) | rfl := hword
  · exact Nat.le_trans (by decide) h
  · exact Nat.le_trans (by decide) h
  · exact Nat.le_trans (by decide) h
  · decide

/-- The characters of numbers are no control characters. -/
theorem of_constant {s : String} (h : Constant s.toList) : Lacks c s := by
  intro hc
  obtain hword | rfl | rfl := h.chars c hc
  · exact of_word control (s := String.ofList [c]) (by simpa using hword) (by simp)
  · exact absurd control (by decide)
  · exact absurd control (by decide)

theorem integer (i : Int) {suffix : String} (hs : suffix ∈ integerSuffixes) :
    Lacks c (toString i ++ suffix) := by
  by_cases h : i < 0
  · rw [toString_of_neg h, String.append_assoc]
    exact append (.of_visible control (by decide)) (.of_constant control (constant_integer (by omega) hs))
  · exact .of_constant control (constant_integer (by omega) hs)

theorem floating (x : Binary64) {suffix : String} (hs : suffix ∈ floatingSuffixes) :
    Lacks c (floatingText x ++ suffix) := by
  obtain ⟨hmagnitude, hsuffix⟩ := append_iff.mp (of_constant control (x.constant_magnitude .up hs))
  have hfixed : ∀ t ∈ ["-", "__builtin_nan(\"\")", "__builtin_inf()", "-__builtin_inf()"],
      Lacks c t := fun t ht => .of_visible control (by revert t; decide)
  refine append ?_ hsuffix
  unfold floatingText Binary64.text
  cases x.isNaN <;> cases x.isFinite <;> cases x.isNegative <;> simp_all

/-- Bytes that are no printable characters are written as digits. -/
theorem literalQuote (s : String) : Lacks c (literalQuote s) := by
  have hbyte : ∀ n < 256, (literalByte (UInt8.ofNat n)).all fun x => 32 ≤ x.toNat := by
    decide +kernel
  refine .of_visible control (List.all_eq_true.mpr fun x hx => decide_eq_true ?_)
  simp only [Readback.literalQuote, String.toList_ofList, List.mem_cons, List.mem_append,
    List.mem_flatMap, List.not_mem_nil, or_false] at hx
  obtain (rfl | ⟨b, -, hb⟩) | rfl := hx
  · decide
  · exact of_decide_eq_true (List.all_eq_true.mp (hbyte b.toNat b.toNat_lt) x (by simpa using hb))
  · decide

theorem quals (q : Quals) : Lacks c q.spelling := by
  obtain ⟨isConst, isVolatile, isRestrict⟩ := q
  cases isConst <;> cases isVolatile <;> cases isRestrict <;> exact .of_visible control (by decide)

theorem joinWords {quals base inner : String} (hq : Lacks c quals) (hb : Lacks c base)
    (hi : Lacks c inner) : Lacks c (CType.joinWords quals base inner) := by
  have hblank : Lacks c " " := .of_visible control (by decide)
  unfold CType.joinWords
  split <;> split <;> simp [hq, hb, hi, hblank]

end Lacks

namespace CType

variable {c : Char} {tagOf : DeclId → String}

mutual

/-- A declarator lacks a control character if the names in it do. -/
theorem lacks_declarator (control : c.toNat < 32) (tags : ∀ d, Lacks c (tagOf d)) :
    ∀ (t : CType) (outer : Quals) {inner : String}, Lacks c inner →
      Lacks c (t.declarator tagOf outer inner)
  | .builtin quals kind, outer, inner, hi => by
    rw [declarator]
    exact .joinWords control (.quals control _)
      (.of_visible control (by cases kind <;> decide)) hi
  | .record quals decl, outer, inner, hi => by
    rw [declarator]
    exact .joinWords control (.quals control _)
      (.append (.of_visible control (by decide)) (tags decl)) hi
  | .pointer quals pointee, outer, inner, hi => by
    rw [declarator]
    refine lacks_declarator control tags pointee .none ?_
    have hgap : ∀ b : Bool, Lacks c (if b then "" else " ") := by
      intro b
      cases b <;> exact .of_visible control (by decide)
    have hstar : Lacks c "*" := .of_visible control (by decide)
    have htext : Lacks c ("*" ++ (quals.union outer).spelling ++
        (if (quals.union outer).spelling.isEmpty || inner.isEmpty then "" else " ") ++ inner) :=
      ((hstar.append (.quals control _)).append (hgap _)).append hi
    have hopen : Lacks c "(" := .of_visible control (by decide)
    split
    · exact (hopen.append htext).append (.of_visible control (by decide))
    · exact htext
  | .array quals element size, outer, inner, hi => by
    rw [declarator]
    refine lacks_declarator control tags element _ ?_
    refine ((hi.append (.of_visible control (by decide))).append ?_).append
      (.of_visible control (by decide))
    cases size with
    | none => exact .empty
    | some n =>
        refine Lacks.of_word control fun x hx => ?_
        change x ∈ (toString n).toList at hx
        rw [toList_numeral] at hx
        exact (isDigits_decimalDigits n).isWordChar x hx
  | .function _ result params isVariadic, outer, inner, hi => by
    rw [declarator]
    have hopen : Lacks c "(" := .of_visible control (by decide)
    refine lacks_declarator control tags result .none
      (((hi.append hopen).append ?_).append (.of_visible control (by decide)))
    exact .parameters control (lacks_paramTexts control tags params) isVariadic

theorem lacks_paramTexts (control : c.toNat < 32) (tags : ∀ d, Lacks c (tagOf d)) :
    ∀ (ts : List CType), ∀ s ∈ paramTexts tagOf ts, Lacks c s
  | [], s, hs => by cases hs
  | t :: ts, s, hs => by
    rw [paramTexts] at hs
    obtain rfl | hs := List.mem_cons.mp hs
    · exact lacks_declarator control tags t .none .empty
    · exact lacks_paramTexts control tags ts s hs

end

end CType

end Readback
