import Mathlib.Data.List.Induction
import Mathlib.Data.List.Nodup
import Readback.Data.Interned

/-! # Interned tables over time

Interning appends at most one entry (`get?_intern_eq_some`), so a table keeps what it has
(`Interned.Within`) and never holds an entry twice (`Interned.Distinct`). Interning an entry that is
there gives its position and leaves the table alone (`Distinct.intern_eq`). Interning the entries of
a table in their order makes the table again (`Distinct.ofList_entries`). -/

namespace Readback

namespace Interned

variable {α : Type}

theorem lt_of_get? {t : Interned α} {i : Nat} {a : α} (h : t.get? i = some a) : i < t.size :=
  (Array.getElem?_eq_some_iff.mp h).1

/-- All entries of `t` stand at their positions in `u`. -/
def Within (t u : Interned α) : Prop := ∀ (i : Nat) (a : α), t.get? i = some a → u.get? i = some a

theorem Within.refl (t : Interned α) : t.Within t := fun _ _ h => h

theorem Within.trans {t u v : Interned α} (h : t.Within u) (h' : u.Within v) : t.Within v :=
  fun i a ha => h' i a (h i a ha)

/-- No entry stands at two positions. -/
def Distinct (t : Interned α) : Prop :=
  ∀ (i j : Nat) (a : α), t.get? i = some a → t.get? j = some a → i = j

theorem distinct_empty : (empty : Interned α).Distinct := by
  intro i j a h
  simp [empty, get?] at h

theorem Distinct.nodup {t : Interned α} (h : t.Distinct) : t.entries.toList.Nodup := by
  refine List.nodup_iff_getElem?_ne_getElem?.mpr fun i j hij hj heq => ?_
  have hget : t.get? j = some t.entries[j] := Array.getElem?_eq_getElem hj
  simp only [Array.getElem?_toList] at heq
  exact Nat.ne_of_lt hij (h i j _ (heq.trans hget) hget)

theorem Within.get?_eq {t u : Interned α} (h : t.Within u) {i : Nat} (hi : i < t.size) :
    u.get? i = t.get? i := by
  have hget : t.get? i = some (t.entries[i]) := Array.getElem?_eq_getElem hi
  rw [hget, h i _ hget]

theorem Within.size_le {t u : Interned α} (h : t.Within u) : t.size ≤ u.size := by
  refine Nat.le_of_not_lt fun hlt => ?_
  have hget : t.get? u.size = some (t.entries[u.size]) := Array.getElem?_eq_getElem hlt
  exact Nat.lt_irrefl _ (lt_of_get? (h _ _ hget))

variable [DecidableEq α]

/-- An entry after interning was there before, or it is the new one at the end. -/
theorem get?_intern_eq_some {t : Interned α} {a b : α} {i : Nat}
    (h : (t.intern a).2.get? i = some b) : t.get? i = some b ∨ i = t.size ∧ b = a := by
  unfold intern at h
  split at h
  · exact .inl h
  · change (t.entries.push a)[i]? = some b at h
    rw [Array.getElem?_push] at h
    split at h
    · next hi => exact .inr ⟨hi, (Option.some.inj h).symm⟩
    · exact .inl h

theorem within_intern (t : Interned α) (a : α) : t.Within (t.intern a).2 := fun i b h => by
  rw [get?_intern_of_lt t a (lt_of_get? h)]
  exact h

theorem size_le_intern (t : Interned α) (a : α) : t.size ≤ (t.intern a).2.size :=
  (within_intern t a).size_le

theorem intern_lt (t : Interned α) (a : α) : (t.intern a).1 < (t.intern a).2.size :=
  lt_of_get? (get?_intern_self t a)

/-- Interning an entry that is there changes nothing. -/
theorem Distinct.intern_eq {t : Interned α} (h : t.Distinct) {i : Nat} {a : α}
    (hi : t.get? i = some a) : t.intern a = (i, t) := by
  have hself := get?_intern_self t a
  unfold intern at hself ⊢
  split
  · next j hj =>
      rw [hj] at hself
      rw [h j i a hself hi]
  · next hnone =>
      have hmem : a ∈ t.entries := Array.mem_of_getElem? hi
      have := Array.findIdx?_eq_none_iff.mp hnone a hmem
      simp at this

theorem Distinct.intern {t : Interned α} (h : t.Distinct) (a : α) : (t.intern a).2.Distinct := by
  by_cases ha : ∃ i, t.get? i = some a
  · obtain ⟨i, hi⟩ := ha
    rw [h.intern_eq hi]
    exact h
  · intro i j b hi hj
    rcases get?_intern_eq_some hi with hold | ⟨hend, hnew⟩
    · rcases get?_intern_eq_some hj with hold' | ⟨_, hnew⟩
      · exact h i j b hold hold'
      · exact absurd ⟨i, hnew ▸ hold⟩ ha
    · rcases get?_intern_eq_some hj with hold' | ⟨hend', _⟩
      · exact absurd ⟨j, hnew ▸ hold'⟩ ha
      · rw [hend, hend']

/-- A new entry comes last. -/
theorem intern_of_notMem {t : Interned α} {a : α} (h : a ∉ t.entries) :
    (t.intern a).2 = ⟨t.entries.push a⟩ := by
  have hnone : t.entries.findIdx? (fun b => decide (b = a)) = none :=
    Array.findIdx?_eq_none_iff.mpr fun b hb => decide_eq_false fun hba => h (hba ▸ hb)
  rw [intern, hnone]

theorem ofList_eq {l : List α} (h : l.Nodup) : ofList l = ⟨l.toArray⟩ := by
  induction l using List.reverseRecOn with
  | nil => rfl
  | append_singleton l a ih =>
      have hnew : a ∉ l := (List.nodup_concat l a).mp (by simpa using h) |>.1
      have hl : l.Nodup := h.sublist (List.sublist_append_left l [a])
      have hof : ofList (l ++ [a]) = ((ofList l).intern a).2 := by simp [ofList]
      rw [hof, ih hl, intern_of_notMem (by simpa using hnew)]
      simp

/-- The entries of a table make it again. -/
theorem Distinct.ofList_entries {t : Interned α} (h : t.Distinct) :
    ofList t.entries.toList = t := by
  rw [ofList_eq h.nodup]

end Interned

end Readback
