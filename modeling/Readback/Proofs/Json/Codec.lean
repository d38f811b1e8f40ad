import Mathlib.Data.List.Count
import Mathlib.Data.List.Nodup
import Readback.Json.Basic

/-! # Reading back what is written

For each writer of JSON values, the reader that gives the value back. Numbers come back if they fit
the width that they are read with, doubles if they are finite, integers always. An object that is
written with distinct keys is read field by field (`fields?_object`), and a list item by item
(`listOf?_map`). -/

namespace Readback

namespace Json

/-! ### Numbers -/

/-- Whether a number fits 32 bits. -/
def isIndex (n : Nat) : Bool := n < Nat.pow 2 32

/-- Whether a number fits 64 bits. -/
def isSize (n : Nat) : Bool := n < Nat.pow 2 64

theorem natBelow?_ofNat {bound n : Nat} (h : n < bound) : natBelow? bound (ofNat n) = some n :=
  if_pos h

theorem index?_ofNat {n : Nat} (h : isIndex n) : index? (ofNat n) = some n :=
  natBelow?_ofNat (of_decide_eq_true h)

theorem size?_ofNat {n : Nat} (h : isSize n) : size? (ofNat n) = some n :=
  natBelow?_ofNat (of_decide_eq_true h)

/-- A finite double comes back as it was; an infinity or a NaN does not come back. -/
theorem float?_ofFloat (x : Binary64) :
    float? (ofFloat x) = if x.isFinite then some x else none := by
  unfold ofFloat
  split <;> rfl

theorem isIndex_of_mem_words {n w : Nat} (h : w ∈ words n) : isIndex w := by
  induction n using words.induct with
  | case1 => simp [words] at h
  | case2 n hn ih =>
      rw [words, if_neg hn, List.mem_cons] at h
      obtain rfl | h := h
      · exact decide_eq_true (Nat.mod_lt _ (by decide))
      · exact ih h

theorem ofWords_words (n : Nat) : ofWords (words n) = n := by
  induction n using words.induct with
  | case1 => simp [words, ofWords]
  | case2 n hn ih =>
      rw [words, if_neg hn]
      exact (congrArg (n % Nat.pow 2 32 + Nat.pow 2 32 * ·) ih).trans (Nat.mod_add_div _ _)

/-! ### Lists -/

/-- A list comes back if its items do. -/
theorem listOf?_map {α : Type} {read : Json → Option α} {write : α → Json} {ok : α → Bool}
    {l : List α} (h : ∀ a ∈ l, read (write a) = if ok a then some a else none) :
    listOf? read (.list (l.map write)) = if l.all ok then some l else none := by
  rw [listOf?]
  induction l with
  | nil => rfl
  | cons a l ih =>
      rw [List.map_cons, List.mapM_cons, h a List.mem_cons_self,
        ih fun b hb => h b (List.mem_cons_of_mem a hb), List.all_cons]
      cases ok a <;> cases l.all ok <;> rfl

theorem listOf?_map_self {α : Type} {read : Json → Option α} {write : α → Json} {l : List α}
    (h : ∀ a ∈ l, read (write a) = some a) : listOf? read (.list (l.map write)) = some l := by
  simpa using @listOf?_map α read write (fun _ => true) l (by simpa using h)

theorem listOf?_ofNats {l : List Nat} (h : l.all isIndex) :
    listOf? index? (ofNats l) = some l :=
  listOf?_map_self fun n hn => index?_ofNat (List.all_eq_true.mp h n hn)

theorem listOf?_ofTexts (l : List String) : listOf? text? (ofTexts l) = some l :=
  listOf?_map_self fun _ _ => rfl

/-- The members of an object come back if their values do. -/
theorem mapM_members {α : Type} {read : Json → Option α} {write : α → Json} {ok : α → Bool}
    {l : List (String × α)} (h : ∀ e ∈ l, read (write e.2) = if ok e.2 then some e.2 else none) :
    ((l.map fun e => (e.1, write e.2)).mapM fun m => do return (m.1, ← read m.2)) =
      if l.all fun e => ok e.2 then some l else none := by
  induction l with
  | nil => rfl
  | cons e l ih =>
      rw [List.map_cons, List.mapM_cons, h e List.mem_cons_self,
        ih fun m hm => h m (List.mem_cons_of_mem e hm), List.all_cons]
      cases ok e.2 <;> cases l.all fun e => ok e.2 <;> rfl

/-- An integer of any size comes back. -/
theorem integer?_ofInteger (i : Int) : integer? (ofInteger i) = some i := by
  have hsign : -1 ≤ i.sign ∧ i.sign ≤ 1 := by rcases i.sign_trichotomy with h | h | h <;> omega
  have hwords : (words i.natAbs).all isIndex := List.all_eq_true.mpr fun w => isIndex_of_mem_words
  rw [ofInteger, integer?, if_pos hsign, listOf?_ofNats hwords, Option.map_some, ofWords_words,
    Int.sign_mul_natAbs]

/-! ### Fields -/

/-- The member with a key that no other member has. -/
theorem find?_key {members : List (String × Json)} (h : (members.map Prod.fst).Nodup)
    {m : String × Json} (hm : m ∈ members) :
    members.find? (fun m' => m'.1 == m.1) = some m := by
  induction members with
  | nil => cases hm
  | cons m' members ih =>
      obtain ⟨hnot, hrest⟩ := List.nodup_cons.mp h
      rcases List.mem_cons.mp hm with rfl | hm
      · simp
      · have hne : m'.1 ≠ m.1 := fun heq => hnot (heq ▸ List.mem_map_of_mem hm)
        rw [List.find?_cons_of_neg (by simpa using hne)]
        exact ih hrest hm

/-- An object whose keys are the names of the fields, each once, has all the fields. -/
@[simp] theorem fields?_object {names : List String} {members : List (String × Json)}
    (hnames : members.map Prod.fst = names) (h : names.Nodup) :
    fields? names (.object members) = some (members.map fun m => some m.2) := by
  subst hnames
  have honce : ∀ n, (members.filter fun m => m.1 == n).length ≤ 1 := fun n => by
    rw [← List.countP_eq_length_filter]
    have hcount := List.nodup_iff_count_le_one.mp h n
    rwa [List.count, List.countP_map] at hcount
  have hfields : ((members.map Prod.fst).map fun n =>
      (members.find? fun m => m.1 == n).map Prod.snd) = members.map fun m => some m.2 := by
    rw [List.map_map]
    exact List.map_congr_left fun m hm => congrArg (Option.map Prod.snd) (find?_key h hm)
  simp only [fields?, honce, decide_true, List.all_eq_true, implies_true, if_true, hfields]

@[simp] theorem objectFields?_object {names : List String} {members : List (String × Json)}
    (hnames : members.map Prod.fst = names) (h : names.Nodup) :
    objectFields? names (.object members) = some (members.map fun m => some m.2) := by
  rw [objectFields?, fields?_object hnames h]
  rfl

@[simp] theorem required_some {α : Type} (read : Json → Option α) (j : Json) :
    required read (some j) = read j := rfl

/-- A value that may be missing comes back if it is never written as null. -/
theorem optional_ofOption {α : Type} {read : Json → Option α} {write : α → Json} {a : Option α}
    (h : ∀ x ∈ a, write x ≠ .null ∧ read (write x) = some x) :
    optional read (some (ofOption write a)) = some a := by
  cases a with
  | none => rfl
  | some x =>
      obtain ⟨hnull, hread⟩ := h x rfl
      rw [ofOption]
      unfold optional
      split
      · next heq => cases heq
      · next heq => exact absurd (Option.some.inj heq) hnull
      · next j _ heq => rw [← Option.some.inj heq, hread, Option.map_some]

theorem optional_index?_ofNat {n : Option Nat} (h : n.all isIndex) :
    optional index? (some (ofOption ofNat n)) = some n :=
  optional_ofOption fun x hx => ⟨nofun, index?_ofNat (by cases hx; exact h)⟩

theorem optional_size?_ofNat {n : Option Nat} (h : n.all isSize) :
    optional size? (some (ofOption ofNat n)) = some n :=
  optional_ofOption fun x hx => ⟨nofun, size?_ofNat (by cases hx; exact h)⟩

/-! ### Choices -/

@[simp] theorem choice?_tagged (tag : String) (content : Json) :
    choice? (tagged tag content) = some (tag, some content) := rfl

@[simp] theorem choice?_text (tag : String) : choice? (.text tag) = some (tag, none) := rfl

@[simp] theorem tag?_text {α : Type} (ofTag? : String → Option α) (tag : String) :
    tag? ofTag? (.text tag) = ofTag? tag := rfl

end Json

end Readback
