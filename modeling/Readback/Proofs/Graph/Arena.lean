import Mathlib.Data.List.Nodup
import Readback.Proofs.Graph.Built

/-! # Everything in its place

Operations, regions and blocks refer to each other in both directions: a node lists what stands in it,
and knows what it stands in. A graph is `Arranged` if its tables agree (`Formed`) and every node is
listed exactly once by the node around it (`Listed`).

* That a table lists everything exactly once is said by a permutation: what its entries list, one after
  the other, is a permutation of all positions. A node that is appended is listed by one entry, which
  lists it in addition (`perm_range_modify`, `flatMap_modify`); an appended entry lists nothing yet
  (`flatMap_push`).
* Each building step keeps a graph arranged (`Change.arranged`), with one lemma per change
  (`Listed.addRegion`, `Listed.pushBlock`, `Listed.pushOperation`, `Listed.modifyOp`). So every built
  graph is (`Built.arranged`).

In an arranged graph every operation is listed by its block, every block by its region, and every region
but the body by its operation (`Arranged.op_place`, `Arranged.block_place`, `Arranged.region_place`). A
node lists nothing twice (`Arranged.nodup_of_mem`), and neither does a region as a whole
(`Arranged.regionOps_nodup`). Walks over a graph rest on these: they come to each node in one way only.
-/

namespace Readback

open Step

namespace Graph

/-- Nodes know their positions, operands come from earlier operations, and everything but the body is
listed exactly once: operations by blocks, blocks by regions, and regions by operations. -/
structure Listed (g : Graph) : Prop where
  region_id : ∀ r R, g.region? r = some R → R.id = r
  block_id : ∀ b B, g.block? b = some B → B.id = b
  earlier : ∀ i o d k, g.op? i = some o → Value.result d k ∈ o.operands → d < i
  body : ∃ R, g.region? g.body = some R ∧ R.parent = none
  operations : (g.blocks.toList.flatMap Block.operations).Perm (List.range g.operations.size)
  blocks : (g.regions.toList.flatMap Region.blocks).Perm (List.range g.blocks.size)
  regions : (g.body :: g.operations.toList.flatMap Operation.regions).Perm
    (List.range g.regions.size)

/-- The tables of the graph agree, and everything is listed exactly once. -/
structure Arranged (g : Graph) : Prop extends g.Formed, g.Listed

/-! ### Tables that list what is appended -/

section Tables

variable {α : Type} {f : α → List Nat} {table : Array α} {l : List Nat} {n : Nat}

/-- A table that lists everything below `n` lists everything up to `n` when one of its entries lists
`n` in addition. -/
theorem perm_range_modify {change : α → α} (hchange : ∀ a, f (change a) = f a ++ [n]) {i : Nat}
    (hi : i < table.size) (h : (l ++ table.toList.flatMap f).Perm (List.range n)) :
    (l ++ (table.modify i change).toList.flatMap f).Perm (List.range (n + 1)) := by
  obtain ⟨xs, a, ys, htable, -, hmodify⟩ := List.exists_of_modify change (l := table.toList) hi
  rw [Array.toList_modify, hmodify, List.range_succ]
  rw [htable] at h
  have hlast : (l ++ (xs ++ change a :: ys).flatMap f).Perm
      (l ++ (xs ++ a :: ys).flatMap f ++ [n]) := by
    simp only [List.flatMap_append, List.flatMap_cons, hchange, List.append_assoc]
    exact .append_left _ (.append_left _ (.append_left _ List.perm_append_comm))
  exact hlast.trans (h.append_right [n])

/-- What a table lists, when one of its entries changes in other respects. -/
theorem flatMap_modify {change : α → α} (hchange : ∀ a, f (change a) = f a) (i : Nat) :
    (table.modify i change).toList.flatMap f = table.toList.flatMap f := by
  rw [Array.toList_modify]
  by_cases hi : i < table.toList.length
  · obtain ⟨xs, a, ys, htable, -, hmodify⟩ := List.exists_of_modify change hi
    rw [hmodify, htable]
    simp [hchange]
  · rw [List.modify_eq_self (Nat.le_of_not_lt hi)]

theorem flatMap_push {a : α} (ha : f a = []) :
    (table.push a).toList.flatMap f = table.toList.flatMap f := by
  rw [Array.toList_push, List.flatMap_append, List.flatMap_singleton, ha, List.append_nil]

end Tables

/-! ### Steps -/

section Steps

variable {g : Graph}

/-- Changing an operation in other respects than its operands and regions. -/
theorem Listed.modifyOp (h : g.Listed) (i : OpId) {change : Operation → Operation}
    (hoperands : ∀ o, (change o).operands = o.operands)
    (hregions : ∀ o, (change o).regions = o.regions) :
    ({ g with operations := g.operations.modify i change } : Graph).Listed := by
  refine ⟨h.region_id, h.block_id, fun j o d k hj hv => ?_, h.body, ?_, h.blocks, ?_⟩
  · simp only [op?, Array.getElem?_modify] at hj
    split at hj
    · obtain ⟨q, hq, rfl⟩ := Option.map_eq_some_iff.mp hj
      exact h.earlier j q d k hq (hoperands q ▸ hv)
    · exact h.earlier j o d k hj hv
  · rw [Array.size_modify]
    exact h.operations
  · rw [flatMap_modify hregions]
    exact h.regions

theorem Listed.addRegion (h : g.Listed) {n : OpId} (hn : n < g.operations.size) :
    (g.addRegion n).Listed := by
  refine ⟨fun r R hR => ?_, h.block_id, fun j o d k hj hv => ?_, ?_, ?_, ?_, ?_⟩
  · rw [region?_addRegion] at hR
    split at hR
    · next heq =>
        cases hR
        exact heq.symm
    · exact h.region_id r R hR
  · obtain ⟨q, hq, -, hoperands, -⟩ := of_addRegion_op hj
    exact h.earlier j q d k hq (hoperands ▸ hv)
  · obtain ⟨R, hR, hp⟩ := h.body
    exact ⟨R, addRegion_region hR, hp⟩
  · simpa [Graph.addRegion, Graph.pushRegion] using h.operations
  · simp only [Graph.addRegion, Graph.pushRegion, flatMap_push]
    exact h.blocks
  · simp only [Graph.addRegion, Graph.pushRegion, Array.size_push]
    exact perm_range_modify (l := [g.body]) (fun _ => rfl) hn h.regions

theorem Listed.pushBlock (h : g.Listed) {n : RegionId} (hn : n < g.regions.size)
    (arguments : List TypeId) : (g.pushBlock n arguments).2.Listed := by
  refine ⟨fun r R hR => ?_, fun b B hB => ?_, h.earlier, ?_, ?_, ?_, ?_⟩
  · obtain ⟨Q, hQ, hid, -⟩ := of_pushBlock_region hR
    exact hid.trans (h.region_id r Q hQ)
  · rw [block?_pushBlock] at hB
    split at hB
    · next heq =>
        cases hB
        exact heq.symm
    · exact h.block_id b B hB
  · obtain ⟨R, hR, hp⟩ := h.body
    obtain ⟨R', hR', hparent⟩ := pushBlock_region n arguments hR
    exact ⟨R', hR', hparent.trans hp⟩
  · simp only [Graph.pushBlock, flatMap_push]
    exact h.operations
  · simp only [Graph.pushBlock, Array.size_push]
    exact perm_range_modify (l := []) (fun _ => rfl) hn h.blocks
  · simpa [Graph.pushBlock] using h.regions

theorem Listed.pushOperation (h : g.Listed) {n : BlockId} (hn : n < g.blocks.size) {spec : OpSpec}
    (known : ∀ v ∈ spec.operands, (g.valueType? v).isSome) : (g.pushOperation n spec).2.Listed := by
  refine ⟨h.region_id, fun b B hB => ?_, fun j o d k hj hv => ?_, h.body, ?_, ?_, ?_⟩
  · obtain ⟨C, hC, hid, -⟩ := of_pushOperation_block hB
    exact hid.trans (h.block_id b C hC)
  · obtain hold | ⟨rfl, -, hoperands, -⟩ := of_pushOperation_op hj
    · exact h.earlier j o d k hold hv
    · have hknown := known _ (hoperands ▸ hv)
      rw [valueType?] at hknown
      cases hd : g.op? d with
      | none => simp [hd] at hknown
      | some q => exact op?_lt hd
  · simp only [Graph.pushOperation, Array.size_push]
    exact perm_range_modify (l := []) (fun _ => rfl) hn h.operations
  · simpa [Graph.pushOperation] using h.blocks
  · simp only [Graph.pushOperation, flatMap_push]
    exact h.regions

theorem listed_ofRegistry (registry : Registry) : (ofRegistry registry).Listed := by
  constructor
  case region_id =>
    intro r R hR
    match r, hR with
    | 0, hR =>
        cases hR
        rfl
  case block_id =>
    intro b B hB
    match b, hB with
    | 0, hB =>
        cases hB
        rfl
  case earlier =>
    intro i o d k ho
    cases ho
  case body => exact ⟨_, rfl, rfl⟩
  case operations => exact .refl _
  case blocks => exact .refl _
  case regions => exact .refl _

theorem Change.listed {g' : Graph} (c : g.Change g') (h : g.Listed) : g'.Listed := by
  cases c with
  | none => exact h
  | intern shape =>
      exact ⟨h.region_id, h.block_id, h.earlier, h.body, h.operations, h.blocks, h.regions⟩
  | attributes op f => exact h.modifyOp op (fun _ => rfl) fun _ => rfl
  | addRegion known => exact h.addRegion known
  | pushBlock known arguments => exact h.pushBlock known arguments
  | pushOperation known operands => exact h.pushOperation known operands

/-- Whatever a building step does, it keeps a graph arranged. -/
theorem Change.arranged {g' : Graph} (c : g.Change g') (h : g.Arranged) : g'.Arranged :=
  ⟨c.formed h.toFormed, c.listed h.toListed⟩

theorem arranged_ofRegistry (registry : Registry) : (ofRegistry registry).Arranged :=
  ⟨formed_ofRegistry registry, listed_ofRegistry registry⟩

theorem Built.arranged (h : g.Built) : g.Arranged :=
  h.induct arranged_ofRegistry fun _ _ => Change.arranged

end Steps

/-! ### Places -/

section Places

variable {g : Graph}

/-- Every operation is listed by its block. -/
theorem Arranged.op_place (h : g.Arranged) {i : OpId} {o : Operation} (ho : g.op? i = some o) :
    ∃ b B, o.parent = some b ∧ g.block? b = some B ∧ i ∈ B.operations := by
  have hi := h.operations.mem_iff.mpr (List.mem_range.mpr (op?_lt ho))
  obtain ⟨B, hB, hi⟩ := List.mem_flatMap.mp hi
  obtain ⟨b, hb⟩ := List.getElem?_of_mem hB
  have hblock : g.block? b = some B := by simpa [block?] using hb
  obtain ⟨q, hq, hp⟩ := h.op_owner b B i hblock hi
  cases ho.symm.trans hq
  exact ⟨b, B, hp, hblock, hi⟩

/-- Every block is listed by its region. -/
theorem Arranged.block_place (h : g.Arranged) {b : BlockId} {B : Block} (hB : g.block? b = some B) :
    ∃ R, g.region? B.region = some R ∧ b ∈ R.blocks := by
  have hb := h.blocks.mem_iff.mpr (List.mem_range.mpr (block?_lt hB))
  obtain ⟨R, hR, hb⟩ := List.mem_flatMap.mp hb
  obtain ⟨r, hr⟩ := List.getElem?_of_mem hR
  have hregion : g.region? r = some R := by simpa [region?] using hr
  obtain ⟨C, hC, rfl⟩ := h.block_owner r R b hregion hb
  cases hB.symm.trans hC
  exact ⟨R, hregion, hb⟩

/-- Every region but the body is listed by its operation. -/
theorem Arranged.region_place (h : g.Arranged) {r : RegionId} {R : Region}
    (hR : g.region? r = some R) (hbody : r ≠ g.body) :
    ∃ i o, R.parent = some i ∧ g.op? i = some o ∧ r ∈ o.regions := by
  have hr := h.regions.mem_iff.mpr (List.mem_range.mpr (region?_lt hR))
  rcases List.mem_cons.mp hr with rfl | hr
  · exact absurd rfl hbody
  · obtain ⟨o, ho, hr⟩ := List.mem_flatMap.mp hr
    obtain ⟨i, hi⟩ := List.getElem?_of_mem ho
    have hop : g.op? i = some o := by simpa [op?] using hi
    obtain ⟨Q, hQ, hp⟩ := h.region_owner i o r hop hr
    cases hR.symm.trans hQ
    exact ⟨i, o, hp, hop, hr⟩

/-- A node lists nothing twice. -/
theorem Arranged.nodup_of_mem {α : Type} {f : α → List Nat} {table : Array α} {l : List Nat} {n : Nat}
    (h : (l ++ table.toList.flatMap f).Perm (List.range n)) {i : Nat} {a : α}
    (ha : table[i]? = some a) : (f a).Nodup := by
  have hnodup := (List.nodup_append.mp (h.nodup_iff.mpr List.nodup_range)).2.1
  exact (List.nodup_flatMap.mp hnodup).1 a (Array.mem_toList_iff.mpr (Array.mem_of_getElem? ha))

/-- A region has every operation once. -/
theorem Arranged.regionOps_nodup (h : g.Arranged) (r : RegionId) : (g.regionOps r).Nodup := by
  unfold regionOps
  split
  · next R hR =>
      refine List.nodup_flatMap.mpr ⟨fun B hB => ?_, ?_⟩
      · obtain ⟨b, _, hb⟩ := List.mem_filterMap.mp hB
        exact nodup_of_mem (l := []) h.operations hb
      · -- The operations of two blocks differ in their parents.
        refine List.pairwise_filterMap.mpr ((nodup_of_mem (l := []) h.blocks hR).imp ?_)
        intro b b' hne B hB B' hB' i hi hi'
        obtain ⟨o, ho, hp⟩ := h.op_owner b B i hB hi
        obtain ⟨o', ho', hp'⟩ := h.op_owner b' B' i hB' hi'
        cases ho.symm.trans ho'
        exact hne (Option.some.inj (hp.symm.trans hp'))
  · exact .nil

theorem Built.regionOps_nodup (h : g.Built) (r : RegionId) : (g.regionOps r).Nodup :=
  h.arranged.regionOps_nodup r

end Places

end Graph

end Readback
