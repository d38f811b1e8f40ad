import Mathlib.Data.Finset.Card
import Mathlib.Logic.Relation
import Readback.Proofs.Graph.Arena

/-! # Walks over a graph

Operations stand in regions of other operations (`Graph.Encloses`), each in one place only and none in
itself. In a graph that was built step by step these are theorems (`Formed.encloses_unique`,
`Formed.acyclic`); `Graph.Acyclic` is the hypothesis for other graphs.

* A walk comes to the operations of the body, and from each operation to some of those that stand in it,
  as a function `inner` says (`Graph.walk`). The number in `Graph.walkAux` bounds the depth, and it is
  never reached: any two bounds that reach from the operation to the last one agree
  (`Formed.walkAux_eq`), so the walk goes on from every operation that it comes to (`Formed.mem_walk`).
* `Graph.Descends` asks of `inner` that it gives only operations that stand in the operation. What a
  walk meets then stands below where it came from (`below_of_mem_walkAux`), and nothing is met twice
  (`Arranged.walk_nodup`). The walk that leaves nothing out meets every operation exactly once
  (`Arranged.walk_perm`).
* `walk_induction` is how properties of a walk are proved: what holds at the top, and from each
  operation on of those that the walk comes to from it, holds of all that the walk meets.
* `Graph.Shallow` bounds how deep the nesting in an operation goes. Where no operation encloses itself,
  the number of all operations is such a bound (`Acyclic.shallow`), because more operations stand in an
  operation than in any one of those (`Acyclic.shallow_of_card`).

The last section climbs instead: `Graph.functionAround?` is the nearest function around an operation. It
ends because an operation comes after the one that it stands in (`Formed.parentOp?_lt`). -/

namespace Readback

open Relation

namespace Graph

/-- The operation `c` stands in a region of the operation `o`. -/
def Encloses (g : Graph) (o c : OpId) : Prop :=
  ∃ q r, g.op? o = some q ∧ r ∈ q.regions ∧ c ∈ g.regionOps r

/-- No operation encloses itself. -/
def Acyclic (g : Graph) : Prop := ∀ o, ¬ TransGen g.Encloses o o

/-- The operations in the regions of an operation, in order. -/
def heldOps (g : Graph) (o : Operation) : List OpId := o.regions.flatMap g.regionOps

/-- The operation and what the walk comes to from it, in order. The number bounds the depth. -/
def walkAux (g : Graph) (inner : Operation → List OpId) : Nat → OpId → List OpId
  | 0, _ => []
  | n + 1, id =>
    id :: match g.op? id with
      | none => []
      | some o => (inner o).flatMap (g.walkAux inner n)

/-- The operations of the body and what the walk comes to from them. -/
def walk (g : Graph) (inner : Operation → List OpId) : List OpId :=
  g.topLevelOps.flatMap (g.walkAux inner (g.operations.size + 1))

section Places

variable {g : Graph}

/-- Operations come after those that they stand in, at whatever depth. -/
theorem Formed.lt_of_below (h : g.Formed) {a b : OpId} (hab : TransGen g.Encloses a b) : a < b := by
  induction hab with
  | single hc =>
      obtain ⟨q, r, hq, hr, hc⟩ := hc
      exact h.lt_of_mem hq hr hc
  | tail _ hc ih =>
      obtain ⟨q, r, hq, hr, hc⟩ := hc
      exact Nat.lt_trans ih (h.lt_of_mem hq hr hc)

theorem Formed.acyclic (h : g.Formed) : g.Acyclic := fun _ ho => Nat.lt_irrefl _ (h.lt_of_below ho)

/-- An operation stands in one region only. -/
theorem Formed.region_unique (hform : g.Formed) {r r' : RegionId} {i : OpId} (h : i ∈ g.regionOps r)
    (h' : i ∈ g.regionOps r') : r = r' := by
  obtain ⟨R, b, B, hR, hb, hB, hi⟩ := mem_regionOps.mp h
  obtain ⟨R', b', B', hR', hb', hB', hi'⟩ := mem_regionOps.mp h'
  obtain ⟨o, ho, hp⟩ := hform.op_owner b B i hB hi
  obtain ⟨o', ho', hp'⟩ := hform.op_owner b' B' i hB' hi'
  cases ho.symm.trans ho'
  cases hp.symm.trans hp'
  cases hB.symm.trans hB'
  obtain ⟨C, hC, hr⟩ := hform.block_owner r R b hR hb
  obtain ⟨C', hC', hr'⟩ := hform.block_owner r' R' b hR' hb'
  cases hC.symm.trans hC'
  exact hr.symm.trans hr'

/-- An operation stands in one operation at most. -/
theorem Formed.encloses_unique (hform : g.Formed) {a b c : OpId} (ha : g.Encloses a c)
    (hb : g.Encloses b c) : a = b := by
  obtain ⟨o, r, ho, hr, hc⟩ := ha
  obtain ⟨o', r', ho', hr', hc'⟩ := hb
  cases hform.region_unique hc hc'
  obtain ⟨R, hR, hp⟩ := hform.region_owner a o r ho hr
  obtain ⟨R', hR', hp'⟩ := hform.region_owner b o' r ho' hr'
  cases hR.symm.trans hR'
  exact Option.some.inj (hp.symm.trans hp')

/-- Operations at the top stand in no operation. -/
theorem Arranged.not_encloses_top (hg : g.Arranged) {a c : OpId} (hc : c ∈ g.topLevelOps) :
    ¬ g.Encloses a c := by
  rintro ⟨o, r, ho, hr, hc'⟩
  cases hg.region_unique hc hc'
  obtain ⟨R, hR, hp⟩ := hg.region_owner a o _ ho hr
  obtain ⟨R', hR', hp'⟩ := hg.body
  cases hR.symm.trans hR'
  rw [hp] at hp'
  cases hp'

theorem Formed.not_below_sibling (hform : g.Formed) {p a b : OpId} (ha : g.Encloses p a)
    (hb : g.Encloses p b) (hne : a ≠ b) : ¬ ReflTransGen g.Encloses a b := by
  intro h
  cases h with
  | refl => exact hne rfl
  | tail h hq =>
      cases hform.encloses_unique hq hb
      exact hform.acyclic p (.head' ha h)

theorem Arranged.not_below_top (hg : g.Arranged) {a b : OpId} (hb : b ∈ g.topLevelOps)
    (hne : a ≠ b) : ¬ ReflTransGen g.Encloses a b := by
  intro h
  cases h with
  | refl => exact hne rfl
  | tail _ hq => exact hg.not_encloses_top hb hq

/-- Operations that stand in an operation in turn have it in common with no other. -/
theorem Formed.below_total (hform : g.Formed) {a b x : OpId} (ha : ReflTransGen g.Encloses a x)
    (hb : ReflTransGen g.Encloses b x) :
    ReflTransGen g.Encloses a b ∨ ReflTransGen g.Encloses b a := by
  have unique : Relator.RightUnique (Function.swap g.Encloses) := fun _ _ _ h h' =>
    hform.encloses_unique h h'
  rcases ReflTransGen.total_of_right_unique unique (reflTransGen_swap.mpr ha)
    (reflTransGen_swap.mpr hb) with h | h
  · exact .inr (reflTransGen_swap.mp h)
  · exact .inl (reflTransGen_swap.mp h)

theorem encloses_of_mem {id c : OpId} {o : Operation} (ho : g.op? id = some o)
    (hc : c ∈ g.heldOps o) : g.Encloses id c := by
  obtain ⟨r, hr, hc⟩ := List.mem_flatMap.mp hc
  exact ⟨o, r, ho, hr, hc⟩

theorem mem_heldOps {id c : OpId} {o : Operation} (ho : g.op? id = some o) :
    c ∈ g.heldOps o ↔ g.Encloses id c := by
  refine ⟨encloses_of_mem ho, ?_⟩
  rintro ⟨q, r, hq, hr, hc⟩
  cases ho.symm.trans hq
  exact List.mem_flatMap.mpr ⟨r, hr, hc⟩

theorem Arranged.heldOps_nodup (hg : g.Arranged) {id : OpId} {o : Operation}
    (ho : g.op? id = some o) : (g.heldOps o).Nodup := by
  refine List.nodup_flatMap.mpr ⟨fun r _ => hg.regionOps_nodup r, ?_⟩
  have hregions : o.regions.Nodup := nodup_of_mem (l := [g.body]) hg.regions ho
  exact hregions.imp fun hne i hi hi' => hne (hg.region_unique hi hi')

/-- Every operation stands at the top or in another operation. -/
theorem Arranged.place (hg : g.Arranged) {i : OpId} {o : Operation} (ho : g.op? i = some o) :
    i ∈ g.topLevelOps ∨ ∃ outer, g.Encloses outer i := by
  obtain ⟨b, B, -, hB, hi⟩ := hg.op_place ho
  obtain ⟨R, hR, hb⟩ := hg.block_place hB
  have hmem : i ∈ g.regionOps B.region := mem_regionOps.mpr ⟨R, b, B, hR, hb, hB, hi⟩
  by_cases hbody : B.region = g.body
  · rw [hbody] at hmem
    exact .inl hmem
  · obtain ⟨outer, q, -, hq, hr⟩ := hg.region_place hR hbody
    exact .inr ⟨outer, q, B.region, hq, hr, hmem⟩

end Places

/-! ### Depth -/

/-- The number bounds how deep the nesting in the operation goes. -/
def Shallow (g : Graph) : Nat → OpId → Prop
  | 0, _ => False
  | n + 1, id => ∀ c, g.Encloses id c → g.Shallow n c

section Depth

variable {g : Graph}

open scoped Classical in
/-- More operations stand in an operation than in any one of those. -/
theorem Acyclic.shallow_of_card (h : g.Acyclic) {n : Nat} {id : OpId}
    (hn : {x ∈ Finset.range g.operations.size | ReflTransGen g.Encloses id x}.card < n) :
    g.Shallow n id := by
  induction n generalizing id with
  | zero => exact absurd hn (Nat.not_lt_zero _)
  | succ n ih =>
      refine fun c hc => ih (Nat.lt_of_lt_of_le (Finset.card_lt_card ?_) (Nat.le_of_lt_succ hn))
      have hid : id < g.operations.size := by
        obtain ⟨o, _, ho, _⟩ := hc
        exact op?_lt ho
      refine Finset.ssubset_iff_subset_ne.mpr ⟨fun x hx => ?_, fun heq => ?_⟩
      · rw [Finset.mem_filter] at hx ⊢
        exact ⟨hx.1, hx.2.head hc⟩
      · have hself : id ∈ {x ∈ Finset.range g.operations.size | ReflTransGen g.Encloses id x} :=
          Finset.mem_filter.mpr ⟨Finset.mem_range.mpr hid, .refl⟩
        rw [← heq] at hself
        exact h id (.head' hc (Finset.mem_filter.mp hself).2)

/-- Operations that do not contain themselves are nested no deeper than there are operations. -/
theorem Acyclic.shallow (h : g.Acyclic) (id : OpId) : g.Shallow (g.operations.size + 1) id := by
  classical
  refine h.shallow_of_card (Nat.lt_succ_of_le ?_)
  exact (Finset.card_filter_le _ _).trans (Finset.card_range _).le

theorem Shallow.succ {n : Nat} {id : OpId} (h : g.Shallow n id) : g.Shallow (n + 1) id := by
  induction n generalizing id with
  | zero => exact h.elim
  | succ n ih => exact fun c hc => ih (h c hc)

end Depth

/-! ### What a walk comes to -/

section Walk

variable {g : Graph} {inner : Operation → List OpId}

theorem walkAux_succ {n : Nat} {id : OpId} {o : Operation} (ho : g.op? id = some o) :
    g.walkAux inner (n + 1) id = id :: (inner o).flatMap (g.walkAux inner n) := by
  rw [walkAux, ho]

theorem walkAux_leaf {n : Nat} {id : OpId} {o : Operation} (ho : g.op? id = some o)
    (h : inner o = []) : g.walkAux inner (n + 1) id = [id] := by
  rw [walkAux_succ ho, h]
  rfl

/-- What holds at the top, and from each operation on of those that the walk comes to from it, holds of
all that the walk meets. -/
theorem walk_induction {P : OpId → Prop} (htop : ∀ id ∈ g.topLevelOps, P id)
    (hnext : ∀ x o c, P x → g.op? x = some o → c ∈ inner o → P c) {x : OpId} (hx : x ∈ g.walk inner) :
    P x := by
  have below : ∀ n id, P id → ∀ x ∈ g.walkAux inner n id, P x := by
    intro n
    induction n with
    | zero => exact fun _ _ _ => nofun
    | succ n ih =>
        intro id hid x hx
        cases ho : g.op? id with
        | none =>
            rw [walkAux, ho] at hx
            exact List.mem_singleton.mp hx ▸ hid
        | some o =>
            rw [walkAux_succ ho] at hx
            rcases List.mem_cons.mp hx with rfl | hx
            · exact hid
            · obtain ⟨c, hc, hx⟩ := List.mem_flatMap.mp hx
              exact ih c (hnext id o c hid ho hc) x hx
  obtain ⟨top, hmem, hx⟩ := List.mem_flatMap.mp hx
  exact below _ top (htop top hmem) x hx

/-- Two walks that go on alike from what one of them meets are the same. -/
theorem walkAux_congr {inner' : Operation → List OpId} {n : Nat} {id : OpId}
    (h : ∀ x ∈ g.walkAux inner n id, ∀ o, g.op? x = some o → inner' o = inner o) :
    g.walkAux inner' n id = g.walkAux inner n id := by
  induction n generalizing id with
  | zero => rfl
  | succ n ih =>
      cases ho : g.op? id with
      | none => rw [walkAux, walkAux, ho]
      | some o =>
          rw [walkAux_succ ho] at h
          rw [walkAux_succ ho, walkAux_succ ho, h id List.mem_cons_self o ho]
          congr 1
          refine List.flatMap_congr fun c hc => ih fun x hx => h x ?_
          exact List.mem_cons_of_mem _ (List.mem_flatMap.mpr ⟨c, hc, hx⟩)

theorem walk_congr {inner' : Operation → List OpId}
    (h : ∀ x ∈ g.walk inner, ∀ o, g.op? x = some o → inner' o = inner o) :
    g.walk inner' = g.walk inner :=
  List.flatMap_congr fun id hid => walkAux_congr fun x hx => h x (List.mem_flatMap.mpr ⟨id, hid, hx⟩)

/-- The walk comes only to operations that stand in an operation. -/
def Descends (g : Graph) (inner : Operation → List OpId) : Prop :=
  ∀ o, (inner o).Sublist (g.heldOps o)

variable (hinner : g.Descends inner)

include hinner

/-- Where the rest of a bound reaches from the operations further in to the last one. -/
theorem Formed.bound_inner (hform : g.Formed) {n : Nat} {id c : OpId} {o : Operation}
    (ho : g.op? id = some o) (hc : c ∈ inner o) (hn : g.operations.size < n + 1 + id) :
    0 < n ∧ g.operations.size < n + c := by
  obtain ⟨r, hr, hc⟩ := List.mem_flatMap.mp ((hinner o).subset hc)
  obtain ⟨p, hp⟩ := hform.op_of_mem hc
  have hlt := hform.lt_of_mem ho hr hc
  have hsize := op?_lt hp
  omega

/-- A walk needs no bound: any two that reach from the operation to the last one agree. -/
theorem Formed.walkAux_eq (hform : g.Formed) (m n : Nat) (id : OpId) (hm : 0 < m) (hn : 0 < n)
    (hm' : g.operations.size < m + id) (hn' : g.operations.size < n + id) :
    g.walkAux inner m id = g.walkAux inner n id := by
  induction m generalizing n id with
  | zero => omega
  | succ m ih =>
      obtain ⟨n, rfl⟩ : ∃ k, n = k + 1 := ⟨n - 1, by omega⟩
      cases ho : g.op? id with
      | none => rw [walkAux, walkAux, ho]
      | some o =>
          rw [walkAux_succ ho, walkAux_succ ho]
          congr 1
          refine List.flatMap_congr fun c hc => ?_
          have hm := hform.bound_inner hinner ho hc hm'
          have hn := hform.bound_inner hinner ho hc hn'
          exact ih n c hm.1 hn.1 hm.2 hn.2

/-- What the walk comes to from an operation stands in it. -/
theorem below_of_mem_walkAux {n : Nat} {id x : OpId} (h : x ∈ g.walkAux inner n id) :
    ReflTransGen g.Encloses id x := by
  induction n generalizing id with
  | zero => cases h
  | succ n ih =>
      cases ho : g.op? id with
      | none =>
          rw [walkAux, ho] at h
          exact List.mem_singleton.mp h ▸ .refl
      | some o =>
          rw [walkAux_succ ho] at h
          rcases List.mem_cons.mp h with rfl | h
          · exact .refl
          · obtain ⟨c, hc, hx⟩ := List.mem_flatMap.mp h
            exact .head (encloses_of_mem ho ((hinner o).subset hc)) (ih hx)

/-- With a bound that reaches from the operation to the last one, the walk goes on from every
operation that it comes to. -/
theorem Formed.mem_walkAux (hform : g.Formed) {n : Nat} {id x c : OpId} {o : Operation}
    (hn : g.operations.size < n + id) (hx : x ∈ g.walkAux inner n id) (ho : g.op? x = some o)
    (hc : c ∈ inner o) : c ∈ g.walkAux inner n id := by
  induction n generalizing id with
  | zero => cases hx
  | succ n ih =>
      cases hq : g.op? id with
      | none =>
          rw [walkAux, hq] at hx
          cases List.mem_singleton.mp hx
          rw [hq] at ho
          cases ho
      | some q =>
          rw [walkAux_succ hq] at hx ⊢
          rcases List.mem_cons.mp hx with rfl | hx
          · cases hq.symm.trans ho
            refine List.mem_cons_of_mem _ (List.mem_flatMap.mpr ⟨c, hc, ?_⟩)
            have hpos := (hform.bound_inner hinner hq hc hn).1
            obtain ⟨m, rfl⟩ : ∃ m, n = m + 1 := ⟨n - 1, by omega⟩
            exact List.mem_cons_self
          · obtain ⟨j, hj, hx⟩ := List.mem_flatMap.mp hx
            have hrest := (hform.bound_inner hinner hq hj hn).2
            exact List.mem_cons_of_mem _ (List.mem_flatMap.mpr ⟨j, hj, ih hrest hx⟩)

/-- The walk goes on from every operation that it comes to. -/
theorem Formed.mem_walk (hform : g.Formed) {x c : OpId} {o : Operation} (hx : x ∈ g.walk inner)
    (ho : g.op? x = some o) (hc : c ∈ inner o) : c ∈ g.walk inner := by
  obtain ⟨top, htop, hx⟩ := List.mem_flatMap.mp hx
  exact List.mem_flatMap.mpr ⟨top, htop, hform.mem_walkAux hinner (by omega) hx ho hc⟩

/-- Two operations of which neither stands in the other have nothing in common. -/
theorem Formed.disjoint_walkAux (hform : g.Formed) {m n : Nat} {a b : OpId}
    (hab : ¬ ReflTransGen g.Encloses a b) (hba : ¬ ReflTransGen g.Encloses b a) :
    List.Disjoint (g.walkAux inner m a) (g.walkAux inner n b) := by
  intro x hx hx'
  rcases hform.below_total (below_of_mem_walkAux hinner hx) (below_of_mem_walkAux hinner hx')
    with h | h
  · exact hab h
  · exact hba h

theorem Arranged.walkAux_nodup (hg : g.Arranged) (n : Nat) (id : OpId) :
    (g.walkAux inner n id).Nodup := by
  have hform := hg.toFormed
  induction n generalizing id with
  | zero => exact .nil
  | succ n ih =>
      cases ho : g.op? id with
      | none =>
          rw [walkAux, ho]
          exact List.nodup_singleton id
      | some o =>
          have held {c : OpId} (hc : c ∈ inner o) : g.Encloses id c :=
            encloses_of_mem ho ((hinner o).subset hc)
          rw [walkAux_succ ho]
          refine List.nodup_cons.mpr ⟨fun hmem => ?_, List.nodup_flatMap.mpr ⟨fun c _ => ih c, ?_⟩⟩
          · obtain ⟨c, hc, hid⟩ := List.mem_flatMap.mp hmem
            exact hform.acyclic id (.head' (held hc) (below_of_mem_walkAux hinner hid))
          · refine ((hg.heldOps_nodup ho).sublist (hinner o)).imp_of_mem fun ha hb hne => ?_
            exact hform.disjoint_walkAux hinner (hform.not_below_sibling (held ha) (held hb) hne)
              (hform.not_below_sibling (held hb) (held ha) (Ne.symm hne))

/-- A walk meets no operation twice. -/
theorem Arranged.walk_nodup (hg : g.Arranged) : (g.walk inner).Nodup := by
  refine List.nodup_flatMap.mpr ⟨fun c _ => hg.walkAux_nodup hinner _ c, ?_⟩
  refine (hg.regionOps_nodup g.body).imp_of_mem fun ha hb hne => ?_
  exact hg.disjoint_walkAux hinner (hg.not_below_top hb hne) (hg.not_below_top ha (Ne.symm hne))

end Walk

/-- The walk that leaves nothing out meets every operation exactly once. -/
theorem Arranged.walk_perm {g : Graph} (hg : g.Arranged) :
    (g.walk g.heldOps).Perm (List.range g.operations.size) := by
  have hinner : g.Descends g.heldOps := fun _ => .refl _
  have reached : ∀ i, i < g.operations.size → i ∈ g.walk g.heldOps := by
    intro i
    -- The operation around comes first.
    induction i using Nat.strongRecOn with
    | ind i ih =>
        intro hi
        have ho : g.op? i = some g.operations[i] := Array.getElem?_eq_getElem hi
        rcases hg.place ho with htop | ⟨outer, hout⟩
        · exact List.mem_flatMap.mpr ⟨i, htop, List.mem_cons_self⟩
        · obtain ⟨q, _, hq, _⟩ := id hout
          exact hg.mem_walk hinner (ih outer (hg.lt_of_below (.single hout)) (op?_lt hq)) hq
            ((mem_heldOps hq).mpr hout)
  refine (List.perm_ext_iff_of_nodup (hg.walk_nodup hinner) List.nodup_range).mpr fun i => ?_
  refine ⟨fun hi => List.mem_range.mpr ?_, fun hi => reached i (List.mem_range.mp hi)⟩
  have exists_of_mem {r : RegionId} {x : OpId} (hx : x ∈ g.regionOps r) : x < g.operations.size := by
    obtain ⟨o, ho⟩ := hg.op_of_mem hx
    exact op?_lt ho
  refine walk_induction (fun _ => exists_of_mem) (fun _ o _ _ _ hc => ?_) hi
  obtain ⟨r, _, hc⟩ := List.mem_flatMap.mp hc
  exact exists_of_mem hc

/-! ### The function around an operation -/

/-- Climbs from an operation to the nearest function around it, at most as far as the number says. -/
def functionAroundAux (g : Graph) : Nat → OpId → Option OpId
  | 0, _ => none
  | n + 1, id =>
    match (g.op? id).bind g.parentOp? with
    | none => none
    | some outer =>
      if outer.kind? = some .function then some outer.id else g.functionAroundAux n outer.id

/-- The nearest function around an operation. Operations come after those that they stand in. -/
def functionAround? (g : Graph) (id : OpId) : Option OpId := g.functionAroundAux (id + 1) id

section Around

variable {g : Graph} {outer id : OpId} {o : Operation}

/-- The operation around those of a region is the one that the region belongs to. -/
theorem Formed.parentOp?_of_mem (hform : g.Formed) {r : RegionId} (hid : id ∈ g.regionOps r) :
    (g.op? id).bind g.parentOp? = ((g.region? r).bind Region.parent).bind g.op? := by
  obtain ⟨R, b, B, hR, hb, hB, hid⟩ := mem_regionOps.mp hid
  obtain ⟨c, hc, hparent⟩ := hform.op_owner b B id hB hid
  obtain ⟨B', hB', hregion⟩ := hform.block_owner r R b hR hb
  cases hB.symm.trans hB'
  simp [parentOp?, hc, hparent, hB, hregion, hR]

theorem Formed.parentOp?_of_encloses (hform : g.Formed) (ho : g.op? outer = some o)
    (h : g.Encloses outer id) : (g.op? id).bind g.parentOp? = some o := by
  obtain ⟨q, r, hq, hr, hid⟩ := h
  cases ho.symm.trans hq
  obtain ⟨R, hR, howner⟩ := hform.region_owner outer o r ho hr
  simp [hform.parentOp?_of_mem hid, hR, howner, ho]

theorem Arranged.parentOp?_of_top (hg : g.Arranged) (hid : id ∈ g.topLevelOps) :
    (g.op? id).bind g.parentOp? = none := by
  obtain ⟨R, hR, howner⟩ := hg.body
  rw [hg.parentOp?_of_mem (show id ∈ g.regionOps g.body from hid), hR, Option.bind_some, howner]
  rfl

/-- An operation comes after the one that it stands in. -/
theorem Formed.parentOp?_lt (hform : g.Formed) (h : (g.op? id).bind g.parentOp? = some o) :
    o.id < id := by
  obtain ⟨q, hq, hparent⟩ := Option.bind_eq_some_iff.mp h
  simp only [parentOp?, Option.bind_eq_bind, Option.bind_eq_some_iff] at hparent
  obtain ⟨b, hb, B, hB, R, hR, i, hi, ho⟩ := hparent
  rw [hform.op_id i o ho]
  exact hform.after_owner id q b B R i hq hb hB hR hi

/-- Any two bounds that reach down to the first operation agree. -/
theorem Formed.functionAroundAux_eq (hform : g.Formed) (m n : Nat) (hm : id < m) (hn : id < n) :
    g.functionAroundAux m id = g.functionAroundAux n id := by
  induction m generalizing n id with
  | zero => exact absurd hm (Nat.not_lt_zero _)
  | succ m ih =>
      cases n with
      | zero => exact absurd hn (Nat.not_lt_zero _)
      | succ n =>
          rw [functionAroundAux, functionAroundAux]
          split
          · rfl
          · next outer hparent =>
              have hlt := hform.parentOp?_lt hparent
              rw [ih n (Nat.lt_of_lt_of_le hlt (Nat.le_of_lt_succ hm))
                (Nat.lt_of_lt_of_le hlt (Nat.le_of_lt_succ hn))]

theorem Arranged.functionAround?_top (hg : g.Arranged) (hid : id ∈ g.topLevelOps) :
    g.functionAround? id = none := by
  rw [functionAround?, functionAroundAux, hg.parentOp?_of_top hid]

theorem Formed.functionAround?_function (hform : g.Formed) (ho : g.op? outer = some o)
    (hk : o.kind? = some .function) (h : g.Encloses outer id) : g.functionAround? id = some outer := by
  rw [functionAround?, functionAroundAux, hform.parentOp?_of_encloses ho h]
  simp [hk, hform.op_id outer o ho]

theorem Formed.functionAround?_through (hform : g.Formed) (ho : g.op? outer = some o)
    (hk : o.kind? ≠ some .function) (h : g.Encloses outer id) :
    g.functionAround? id = g.functionAround? outer := by
  have hlt := hform.lt_of_below (.single h)
  rw [functionAround?, functionAroundAux, hform.parentOp?_of_encloses ho h]
  simp only [hk, if_false, hform.op_id outer o ho]
  exact hform.functionAroundAux_eq _ _ hlt (Nat.lt_succ_self _)

end Around

end Graph

end Readback
