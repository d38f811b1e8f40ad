import Readback.Graph.Listing
import Readback.Proofs.Data.Interned
import Readback.Proofs.Graph.Built

/-! # Types of built graphs

A graph is `WellBuilt` if every type that was interned while it was built refers to types of the
table only. Its types then come after their parts (`TypeTable.Ordered`), so that none contains
itself and no depth bound cuts off a type (`Ordered.treeAux_eq`) or a listing
(`Formed.opTextAux_eq`). -/

namespace Readback

open Step

/-- The types that a level of a type refers to. -/
def Shape.parts : Shape → List TypeId
  | .pointer element _ => [element]
  | .array element _ _ => [element]
  | .lvalue element => [element]
  | .function inputs results => inputs ++ results
  | .plain _ _ | .integer _ _ | .named _ _ => []

/-! ### Tables in which types come after their parts -/

namespace TypeTable

/-- Every type comes after the types that it refers to. -/
def Ordered (t : TypeTable) : Prop :=
  ∀ (id : TypeId) (s : Shape), t.get? id = some s → ∀ part ∈ s.parts, part < id

theorem ordered_empty : Ordered .empty := by
  intro id s h
  simp [Interned.empty, Interned.get?] at h

theorem Ordered.intern {t : TypeTable} (h : t.Ordered) {s : Shape}
    (hs : ∀ part ∈ s.parts, part < t.size) : Ordered (t.intern s).2 := by
  intro id s' hget part hpart
  rcases Interned.get?_intern_eq_some hget with hold | ⟨rfl, rfl⟩
  · exact h id s' hold part hpart
  · exact hs part hpart

/-- Unfolding a type needs no bound: any two that reach down from the type agree. -/
theorem Ordered.treeAux_eq {t : TypeTable} (h : t.Ordered) :
    ∀ m n id : Nat, (id < t.size → id < m) → (id < t.size → id < n) →
      t.treeAux m id = t.treeAux n id := by
  intro m
  induction m with
  | zero =>
      intro n id hm _
      have hget : t.get? id = none := Array.getElem?_eq_none (Nat.le_of_not_lt fun h => by simpa using hm h)
      cases n <;> simp [treeAux, hget]
  | succ m ih =>
      intro n id hm hn
      cases hget : t.get? id with
      | none => cases n <;> simp [treeAux, hget]
      | some s =>
          have hid := Interned.lt_of_get? hget
          obtain ⟨n, rfl⟩ : ∃ k, n = k + 1 := ⟨n - 1, by have := hn hid; omega⟩
          have hpart : ∀ part ∈ s.parts, t.treeAux m part = t.treeAux n part := by
            intro part hpart
            have hlt := h id s hget part hpart
            exact ih n part (fun _ => Nat.lt_of_lt_of_le hlt (Nat.le_of_lt_succ (hm hid)))
              fun _ => Nat.lt_of_lt_of_le hlt (Nat.le_of_lt_succ (hn hid))
          unfold treeAux
          rw [hget]
          cases s with
          | pointer element quals => simp [hpart element List.mem_cons_self]
          | array element size quals => simp [hpart element List.mem_cons_self]
          | lvalue element => simp [hpart element List.mem_cons_self]
          | function inputs results =>
              have hin := fun a ha => hpart a (List.mem_append_left results ha)
              have hout := fun a ha => hpart a (List.mem_append_right inputs ha)
              simp only [List.map_congr_left hin, List.map_congr_left hout]
          | _ => rfl

end TypeTable

/-! ### Graphs built from known types -/

/-- Whether the types that the step interns refer to types of the graph only. -/
def BuildStep.typesKnown (g : Graph) : BuildStep → Bool
  | .internType shape => shape.parts.all (· < g.types.size)
  | .asLvalue id => id < g.types.size
  | _ => true

namespace Graph

/-- A graph that some sequence of building steps leads to, each of which interns types over known
ones only. -/
inductive WellBuilt : Graph → Prop where
  | empty (registry : Registry) : WellBuilt (ofRegistry registry)
  | step {g : Graph} (b : BuildStep) (known : b.typesKnown g = true) (built : WellBuilt g) :
      WellBuilt (b.after g)

theorem WellBuilt.built {g : Graph} (h : g.WellBuilt) : g.Built := by
  induction h with
  | empty registry => exact .empty registry
  | step b _ _ ih => exact .step b ih

/-- Whether all steps in turn intern types over known ones. -/
def typesKnown (g : Graph) : List BuildStep → Bool
  | [] => true
  | b :: steps => b.typesKnown g && (b.after g).typesKnown steps

theorem wellBuilt_build {registry : Registry} {steps : List BuildStep}
    (h : (ofRegistry registry).typesKnown steps = true) : (build registry steps).WellBuilt := by
  have follow : ∀ (l : List BuildStep) (g : Graph), g.WellBuilt → g.typesKnown l = true →
      (l.foldl (fun g b => b.after g) g).WellBuilt := by
    intro l
    induction l with
    | nil => exact fun g hg _ => hg
    | cons b l ih =>
        intro g hg hl
        obtain ⟨hb, hl⟩ := Bool.and_eq_true_iff.mp hl
        exact ih _ (.step b hb hg) hl
  exact follow steps _ (.empty registry) h

/-- One building step interns at most one type. -/
theorem types_after (g : Graph) (b : BuildStep) : (b.after g).types = g.types ∨
    ∃ s, (b.after g).types = (g.types.intern s).2 ∧
      (b.typesKnown g = true → ∀ part ∈ s.parts, part < g.types.size) := by
  cases b with
  | internType shape =>
      refine .inr ⟨shape, rfl, fun known part hpart => ?_⟩
      simpa using List.all_eq_true.mp known part hpart
  | asLvalue id =>
      show (g.types.asLvalue id).2 = g.types ∨ ∃ s, (g.types.asLvalue id).2 = _ ∧ _
      unfold TypeTable.asLvalue
      split
      · exact .inl rfl
      · refine .inr ⟨_, rfl, fun known part hpart => ?_⟩
        exact List.mem_singleton.mp hpart ▸ of_decide_eq_true known
  | setAttribute op name value =>
      rw [after_setAttribute]
      split <;> exact .inl rfl
  | createRegion parent =>
      rw [after_createRegion]
      split <;> exact .inl rfl
  | createBlock region arguments =>
      rw [after_createBlock]
      split <;> exact .inl rfl
  | createOperation block spec =>
      rw [after_createOperation]
      split
      · exact .inl rfl
      split <;> exact .inl rfl

theorem WellBuilt.ordered {g : Graph} (h : g.WellBuilt) : g.types.Ordered := by
  induction h with
  | empty registry => exact TypeTable.ordered_empty
  | @step g b known _ ih =>
      obtain heq | ⟨s, heq, hparts⟩ := g.types_after b
      · exact heq ▸ ih
      · exact heq ▸ ih.intern (hparts known)

theorem Built.types_distinct {g : Graph} (h : g.Built) : g.types.Distinct := by
  induction h with
  | empty registry => exact Interned.distinct_empty
  | @step g b _ ih =>
      obtain heq | ⟨s, heq, -⟩ := g.types_after b
      · exact heq ▸ ih
      · exact heq ▸ ih.intern s

/-! ### Listings -/

theorem regionText_congr (g : Graph) (depth : Nat) {f f' : OpId → String} {r : RegionId}
    (h : ∀ c ∈ g.regionOps r, f c = f' c) : g.regionText depth f r = g.regionText depth f' r := by
  unfold regionText
  cases hR : g.region? r with
  | none => rfl
  | some R =>
      have hblock : ∀ B ∈ R.blocks.filterMap g.block?, B.operations.map f = B.operations.map f' := by
        intro B hB
        obtain ⟨b, hb, hB⟩ := List.mem_filterMap.mp hB
        exact List.map_congr_left fun c hc => h c (mem_regionOps.mpr ⟨R, b, B, hR, hb, hB, hc⟩)
      dsimp only
      rw [List.map_congr_left fun B hB => by rw [hblock B hB]]

/-- Listing an operation needs no bound: any two that reach from the operation to the last one
agree. -/
theorem Formed.opTextAux_eq {g : Graph} (h : g.Formed) :
    ∀ m n depth id : Nat, 0 < m → 0 < n → g.operations.size < m + id →
      g.operations.size < n + id → g.opTextAux m depth id = g.opTextAux n depth id := by
  intro m
  induction m with
  | zero => intro n depth id hm; omega
  | succ m ih =>
      intro n depth id _ hn hm hn'
      obtain ⟨n, rfl⟩ : ∃ k, n = k + 1 := ⟨n - 1, by omega⟩
      unfold opTextAux
      cases ho : g.op? id with
      | none => rfl
      | some o =>
          have hregion : ∀ r ∈ o.regions, g.regionText depth (g.opTextAux m (depth + 1)) r =
              g.regionText depth (g.opTextAux n (depth + 1)) r := by
            refine fun r hr => regionText_congr g depth fun c hc => ?_
            have hlt : id < c := h.lt_of_mem ho hr hc
            obtain ⟨q, hq⟩ := h.op_of_mem hc
            have hsize := op?_lt hq
            exact ih n (depth + 1) c (by omega) (by omega) (by omega) (by omega)
          dsimp only
          rw [List.map_congr_left fun r hr => by rw [hregion r hr]]

end Graph

end Readback
