import Mathlib.Data.Finset.Card
import Mathlib.Order.Monotone.Basic
import Readback.Proofs.Graph.Lowered

/-! # How deep types go

Building steps take any number for the id of a type, so a table may hold types that refer to later ones
or to themselves. A type that unfolds to leaves does so within as many levels as there are types
(`TypeTable.Ends.size`), and is then its outermost level over its unfolded parts
(`TypeTable.Ends.tree_eq`). One that does not is cut off wherever it is unfolded to, which is a fault
(`TypeTable.treeAux_faulty`). So whatever the table, a type without a fault comes to an end. -/

namespace Readback

namespace Shape

/-- A level of a type over its unfolded parts. -/
def unfold (f : TypeId → ShapeTree) : Shape → ShapeTree
  | .plain kind quals => .plain kind quals
  | .integer kind quals => .integer kind quals
  | .pointer element quals => .pointer (f element) quals
  | .array element size quals => .array (f element) size quals
  | .lvalue element => .lvalue (f element)
  | .function inputs results => .function (inputs.map f) (results.map f)
  | .named kind name => .named kind name

theorem unfold_congr {f g : TypeId → ShapeTree} {s : Shape} (h : ∀ x ∈ s.parts, f x = g x) :
    s.unfold f = s.unfold g := by
  cases s with
  | pointer element quals => simp [unfold, h element List.mem_cons_self]
  | array element size quals => simp [unfold, h element List.mem_cons_self]
  | lvalue element => simp [unfold, h element List.mem_cons_self]
  | function inputs results =>
      have hin := fun a ha => h a (List.mem_append_left results ha)
      have hout := fun a ha => h a (List.mem_append_right inputs ha)
      simp only [unfold, List.map_congr_left hin, List.map_congr_left hout]
  | _ => rfl

/-- A level over a part with a fault has one. -/
theorem unfold_faulty {f : TypeId → ShapeTree} {s : Shape} {part : TypeId} (hpart : part ∈ s.parts)
    (hfault : (f part).fault? ≠ none) : (s.unfold f).fault? ≠ none := by
  cases s with
  | pointer element quals =>
      cases List.mem_singleton.mp hpart
      simpa [unfold] using hfault
  | array element size quals =>
      cases List.mem_singleton.mp hpart
      simpa [unfold] using hfault
  | lvalue element =>
      cases List.mem_singleton.mp hpart
      simpa [unfold] using hfault
  | function inputs results =>
      have hmem : f part ∈ results.map f ++ inputs.map f := by
        rw [← List.map_append]
        exact List.mem_map_of_mem (List.mem_append.mpr (List.mem_append.mp hpart).symm)
      simp only [unfold, ShapeTree.fault?_function, ne_eq, Option.or_eq_none_iff, not_and]
      exact fun _ hnone => hfault (List.findSome?_eq_none_iff.mp hnone _ hmem)
  | plain | integer | named => cases hpart

end Shape

namespace TypeTable

/-- The outermost level of a type over the given parts. -/
def levelOver (t : TypeTable) (f : TypeId → ShapeTree) (id : TypeId) : ShapeTree :=
  match t.get? id with
  | none => .missing id
  | some s => s.unfold f

/-- Unfolding the type comes to an end within `n` levels. -/
def Ends (t : TypeTable) : Nat → TypeId → Prop
  | 0, id => t.get? id = none
  | n + 1, id => ∀ s, t.get? id = some s → ∀ part ∈ s.parts, t.Ends n part

section Levels

variable {t : TypeTable} {f g : TypeId → ShapeTree} {id : TypeId}

theorem treeAux_succ (t : TypeTable) (n : Nat) (id : TypeId) :
    t.treeAux (n + 1) id = t.levelOver (t.treeAux n) id := by
  unfold treeAux levelOver
  cases t.get? id with
  | none => rfl
  | some s => cases s <;> rfl

theorem treeAux_of_none (h : t.get? id = none) (n : Nat) : t.treeAux n id = .missing id := by
  cases n <;> simp [treeAux, h]

theorem levelOver_congr (h : ∀ s, t.get? id = some s → ∀ x ∈ s.parts, f x = g x) :
    t.levelOver f id = t.levelOver g id := by
  unfold levelOver
  cases hget : t.get? id with
  | none => rfl
  | some s => exact Shape.unfold_congr (h s hget)

end Levels

section Ends

variable {t : TypeTable} {m n : Nat} {id : TypeId}

theorem Ends.succ (h : t.Ends n id) : t.Ends (n + 1) id := by
  induction n generalizing id with
  | zero =>
      intro s hs
      cases hs.symm.trans h
  | succ n ih => exact fun s hs part hpart => ih (h s hs part hpart)

theorem Ends.mono (h : t.Ends m id) (hmn : m ≤ n) : t.Ends n id := by
  induction hmn with
  | refl => exact h
  | step _ ih => exact ih.succ

theorem ends_of_le (h : t.size ≤ id) (n : Nat) : t.Ends n id :=
  Ends.mono (m := 0) (Array.getElem?_eq_none h) (Nat.zero_le n)

/-- Where types come after their parts, they go no deeper than their ids. -/
theorem Ordered.ends (h : t.Ordered) (hn : id < t.size → id < n) : t.Ends n id := by
  induction n generalizing id with
  | zero => exact ends_of_le (Nat.le_of_not_lt fun hid => Nat.not_lt_zero _ (hn hid)) 0
  | succ n ih =>
      intro s hs part hpart
      have hid := hn (Interned.lt_of_get? hs)
      exact ih fun _ => Nat.lt_of_lt_of_le (h id s hs part hpart) (Nat.le_of_lt_succ hid)

open scoped Classical in
/-- The types of the table that end within `n` levels. -/
noncomputable def ending (t : TypeTable) (n : Nat) : Finset TypeId :=
  {id ∈ Finset.range t.size | t.Ends n id}

theorem mem_ending : id ∈ t.ending n ↔ id < t.size ∧ t.Ends n id := by
  simp [ending]

theorem ending_mono (t : TypeTable) : Monotone t.ending := fun m n hmn id hid => by
  rw [mem_ending] at hid ⊢
  exact ⟨hid.1, hid.2.mono hmn⟩

/-- If one level more makes no difference, none does. -/
theorem ending_succ (h : t.ending n = t.ending (n + 1)) : t.ending (n + 1) = t.ending (n + 2) := by
  refine (t.ending_mono (Nat.le_succ (n + 1))).antisymm fun id hid => ?_
  rw [mem_ending] at hid ⊢
  refine ⟨hid.1, fun s hs part hpart => ?_⟩
  by_cases hlt : part < t.size
  · have hmem : part ∈ t.ending (n + 1) := mem_ending.mpr ⟨hlt, hid.2 s hs part hpart⟩
    rw [← h] at hmem
    exact (mem_ending.mp hmem).2
  · exact ends_of_le (Nat.le_of_not_lt hlt) n

/-- A type that ends does so within as many levels as there are types. -/
theorem Ends.size (h : t.Ends n id) : t.Ends t.size id := by
  obtain hle | hle := Nat.le_total n t.size
  · exact h.mono hle
  by_cases hlt : id < t.size
  · have hbound (k : Nat) : (t.ending k).card ≤ t.size := by
      classical exact (Finset.card_filter_le _ _).trans (Finset.card_range _).le
    have hstable (k : Nat) (hk : (t.ending k).card = (t.ending (k + 1)).card) :
        (t.ending (k + 1)).card = (t.ending (k + 2)).card := by
      rw [ending_succ (Finset.eq_of_subset_of_card_le (t.ending_mono (Nat.le_succ k)) hk.ge)]
    have hcard : (t.ending n).card = (t.ending t.size).card :=
      Nat.stabilises_of_monotone (fun _ _ hab => Finset.card_le_card (t.ending_mono hab)) hbound
        hstable hle
    have hsame := Finset.eq_of_subset_of_card_le (t.ending_mono hle) hcard.le
    exact (mem_ending.mp (hsame ▸ mem_ending.mpr ⟨hlt, h⟩)).2
  · exact ends_of_le (Nat.le_of_not_lt hlt) _

/-- Unfolding a type that ends needs no larger bound. -/
theorem Ends.treeAux_eq {k : Nat} (h : t.Ends k id) (hm : k ≤ m) (hn : k ≤ n) :
    t.treeAux m id = t.treeAux n id := by
  induction k generalizing m n id with
  | zero => rw [treeAux_of_none h, treeAux_of_none h]
  | succ k ih =>
      obtain ⟨m, rfl⟩ : ∃ j, m = j + 1 := ⟨m - 1, by omega⟩
      obtain ⟨n, rfl⟩ : ∃ j, n = j + 1 := ⟨n - 1, by omega⟩
      rw [treeAux_succ, treeAux_succ]
      exact levelOver_congr fun s hs x hx => ih (h s hs x hx) (by omega) (by omega)

theorem Ends.tree_eq (h : t.Ends n id) : t.tree id = t.levelOver t.tree id := by
  rw [tree, treeAux_succ]
  exact levelOver_congr fun s hs x hx => (h.size.succ s hs x hx).treeAux_eq (Nat.le_refl _) (Nat.le_succ _)

/-- A type that does not end has a part that does not. -/
theorem exists_endless (h : ¬ t.Ends t.size id) :
    ∃ s, t.get? id = some s ∧ ∃ part ∈ s.parts, ¬ t.Ends t.size part := by
  by_contra hno
  refine h (Ends.size (n := t.size + 1) fun s hs part hpart => ?_)
  by_contra hendless
  exact hno ⟨s, hs, part, hpart, hendless⟩

/-- Unfolding a type that does not end is cut off somewhere, which is a fault. -/
theorem treeAux_faulty (h : ¬ t.Ends t.size id) (n : Nat) : (t.treeAux n id).fault? ≠ none := by
  induction n generalizing id with
  | zero => simp [treeAux, ShapeTree.fault?, ShapeTree.levels, ShapeTree.offence?]
  | succ n ih =>
      obtain ⟨s, hs, part, hpart, hendless⟩ := exists_endless h
      rw [treeAux_succ, levelOver, hs]
      exact Shape.unfold_faulty hpart (ih hendless)

/-- A type whose outermost level has no fault over its unfolded parts ends, so it unfolds to that. -/
theorem tree_eq_of_unfold {s : Shape} (hs : t.get? id = some s) (h : (s.unfold t.tree).fault? = none) :
    t.tree id = s.unfold t.tree := by
  by_cases hends : t.Ends t.size id
  · rw [hends.tree_eq, levelOver, hs]
  · obtain ⟨s', hs', part, hpart, hendless⟩ := exists_endless hends
    cases hs.symm.trans hs'
    exact absurd h (Shape.unfold_faulty hpart (treeAux_faulty hendless _))

end Ends

end TypeTable

end Readback
