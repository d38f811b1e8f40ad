import Readback.Proofs.Graph.Types
import Readback.Proofs.Graph.Walk

/-! # Graphs with a unit around everything

A translation unit is put around what stands at the top of a graph.

* `Graph.Wraps g g'` says what the new graph `g'` is: one operation more, the unit, which has one region
  with one block that lists what stands at the top of `g`. The unit, its region and its block have the
  next ids. Nothing else changes, save that an operation may say that it stands in another block
  (`Operation.Alike`).
* `Graph.wrapped` makes such a graph (`Graph.wraps_wrapped`).
* `Graph.Intact` says that what stands in a graph (`Graph.Placed`) carries its own id and does not refer
  to the next ids, and that several blocks of a body are not shared. A graph that is not intact can
  change its meaning when the next ids come into use: a region id that leads nowhere then leads to the
  new region. Graphs that were built step by step are intact (`Graph.Formed.intact`).

In an intact graph in which no operation encloses itself, all regions below the top are the same with
and without the unit (`Graph.Wraps.regionOps_eq`), and so are the listings of operations
(`Graph.Wraps.opText_eq`) and whether their results are used (`Graph.Wraps.hasUses_eq`). -/

namespace Readback

open Relation

/-- The same operation, except that it may say that it stands in another block. -/
def Operation.Alike (o o' : Operation) : Prop := ∃ b, o' = { o with parent := b }

namespace Graph

/-! ### What stands in a graph -/

/-- The operation stands at the top, or in an operation that does. -/
def Placed (g : Graph) (id : OpId) : Prop := ∃ t ∈ g.topLevelOps, ReflTransGen g.Encloses t id

/-- The region is one of an operation that stands in the graph. -/
def Holds (g : Graph) (r : RegionId) : Prop := ∃ id o, g.Placed id ∧ g.op? id = some o ∧ r ∈ o.regions

/-- The blocks of the body. -/
def bodyBlocks (g : Graph) : List BlockId := (g.region? g.body).elim [] Region.blocks

/-- What stands in the graph carries its own id and does not refer to the next ids. If the body has
several blocks, no region below lists one of them. -/
structure Intact (g : Graph) : Prop where
  own {id o} : g.Placed id → g.op? id = some o → o.id = id
  ops {id} : g.Placed id → id ≠ g.operations.size
  regions {r} : g.Holds r → r ≠ g.regions.size
  blocks {r R b} : g.Holds r → g.region? r = some R → b ∈ R.blocks → b ≠ g.blocks.size
  unshared {r R b} : g.Holds r → g.region? r = some R → b ∈ R.blocks → 1 < g.bodyBlocks.length →
    b ∉ g.bodyBlocks

section Places

variable {g : Graph}

theorem placed_of_top {id : OpId} (h : id ∈ g.topLevelOps) : g.Placed id := ⟨id, h, .refl⟩

theorem Placed.inner {id c : OpId} (h : g.Placed id) (hc : g.Encloses id c) : g.Placed c := by
  obtain ⟨t, ht, hid⟩ := h
  exact ⟨t, ht, hid.tail hc⟩

theorem Placed.holds {id : OpId} (h : g.Placed id) {o : Operation} (ho : g.op? id = some o)
    {r : RegionId} (hr : r ∈ o.regions) : g.Holds r := ⟨id, o, h, ho, hr⟩

theorem Holds.placed {r : RegionId} (h : g.Holds r) {c : OpId} (hc : c ∈ g.regionOps r) : g.Placed c := by
  obtain ⟨id, o, hid, ho, hr⟩ := h
  exact hid.inner ⟨o, r, ho, hr, hc⟩

/-- The body is no region of an operation in it, which would enclose itself. -/
theorem Acyclic.ne_body (h : g.Acyclic) {r : RegionId} (hr : g.Holds r) : r ≠ g.body := by
  rintro rfl
  obtain ⟨id, o, ⟨t, ht, hid⟩, ho, hbody⟩ := hr
  exact h t (.tail' hid ⟨o, g.body, ho, hbody, ht⟩)

/-- The only block of the body is in no region below: an operation there would enclose itself. -/
theorem Acyclic.not_mem_bodyBlocks (h : g.Acyclic) (hone : g.bodyBlocks.length ≤ 1) {r : RegionId}
    (hr : g.Holds r) {R : Region} (hR : g.region? r = some R) {b : BlockId} (hb : b ∈ R.blocks) :
    b ∉ g.bodyBlocks := by
  intro hbody
  obtain ⟨id, o, ⟨t, ht, hid⟩, ho, hro⟩ := hr
  obtain ⟨Q, a, A, hQ, ha, hA, htA⟩ := mem_regionOps.mp ht
  have hblocks : g.bodyBlocks = Q.blocks := by rw [bodyBlocks, hQ, Option.elim_some]
  rw [hblocks] at hone hbody
  obtain rfl : a = b := by
    match Q.blocks, hone, ha, hbody with
    | [_], _, ha, hbody => exact (List.mem_singleton.mp ha).trans (List.mem_singleton.mp hbody).symm
  exact h t (.tail' hid ⟨o, r, ho, hro, mem_regionOps.mpr ⟨R, a, A, hR, hb, hA, htA⟩⟩)

/-- A graph that was built step by step has everything that it refers to. -/
theorem Formed.intact (h : g.Formed) : g.Intact where
  own _ ho := h.op_id _ _ ho
  ops := by
    rintro _ ⟨t, ht, hid⟩ rfl
    obtain ⟨r, hr⟩ : ∃ r, g.operations.size ∈ g.regionOps r := by
      cases hid with
      | refl => exact ⟨g.body, ht⟩
      | tail _ hc =>
          obtain ⟨_, r, -, -, hc⟩ := hc
          exact ⟨r, hc⟩
    obtain ⟨o, ho⟩ := h.op_of_mem hr
    exact Nat.lt_irrefl _ (op?_lt ho)
  regions := by
    rintro _ ⟨id, o, -, ho, hr⟩ rfl
    obtain ⟨R, hR, -⟩ := h.region_owner id o _ ho hr
    exact Nat.lt_irrefl _ (region?_lt hR)
  blocks {r R b} _ hR hb := by
    obtain ⟨B, hB, -⟩ := h.block_owner r R b hR hb
    exact Nat.ne_of_lt (block?_lt hB)
  unshared {r R b} hr hR hb _ hmem := by
    obtain ⟨B, hB, hregion⟩ := h.block_owner r R b hR hb
    refine h.acyclic.ne_body hr ?_
    unfold bodyBlocks at hmem
    cases hbody : g.region? g.body with
    | none =>
        rw [hbody] at hmem
        cases hmem
    | some Q =>
        rw [hbody] at hmem
        obtain ⟨B', hB', hregion'⟩ := h.block_owner g.body Q b hbody hmem
        cases hB.symm.trans hB'
        exact hregion.symm.trans hregion'

end Places

/-! ### The graph with a unit -/

/-- The graph `g'` is `g` with a translation unit around what stands at the top. -/
structure Wraps (g g' : Graph) : Prop where
  size : g'.operations.size = g.operations.size + 1
  added : ∃ o, g'.op? g.operations.size = some o ∧ o.kind? = some .translationUnit ∧
    o.regions = [g.regions.size]
  inside : ∃ R B, g'.region? g.regions.size = some R ∧ R.blocks = [g.blocks.size] ∧
    g'.block? g.blocks.size = some B ∧ B.operations = g.topLevelOps
  top : g'.topLevelOps = [g.operations.size]
  ops {id} : id ≠ g.operations.size → Option.Rel Operation.Alike (g.op? id) (g'.op? id)
  regions {r} : r ≠ g.regions.size → r ≠ g.body → g'.region? r = g.region? r
  blocks {b} : b ≠ g.blocks.size → b ∉ g.bodyBlocks → g'.block? b = g.block? b
  types : g'.types = g.types
  useLists : g'.useLists = g.useLists

namespace Wraps

variable {g g' : Graph} (h : g.Wraps g')

include h

/-- In the region of the unit stands what stands at the top of the other graph. -/
theorem moved : g'.regionOps g.regions.size = g.topLevelOps := by
  obtain ⟨R, B, hR, hblocks, hB, hops⟩ := h.inside
  simp [regionOps, hR, hblocks, hB, hops]

theorem hasUses_eq {id : OpId} (hid : id ≠ g.operations.size) : g'.hasUses id = g.hasUses id := by
  have hop := h.ops hid
  have huses : g'.uses = g.uses := by
    funext v
    rw [uses, uses, h.useLists]
  unfold hasUses
  rw [huses]
  generalize g.op? id = o at hop
  generalize g'.op? id = o' at hop
  cases hop with
  | none => rfl
  | some halike =>
      obtain ⟨b, rfl⟩ := halike
      rfl

theorem headText_eq (o : Operation) (b : Option BlockId) :
    g'.headText { o with parent := b } = g.headText o := by
  have hattribute : g'.attributeText = g.attributeText := by
    funext a
    cases a <;> simp only [attributeText, h.types]
  unfold headText attributesText
  rw [hattribute, h.types]
  rfl

section Intact

variable (intact : g.Intact) (acyclic : g.Acyclic) {r : RegionId} (hr : g.Holds r)

include intact acyclic hr

theorem region?_eq : g'.region? r = g.region? r :=
  h.regions (intact.regions hr) (acyclic.ne_body hr)

theorem block?_eq {R : Region} (hR : g.region? r = some R) {b : BlockId} (hb : b ∈ R.blocks) :
    g'.block? b = g.block? b := by
  refine h.blocks (intact.blocks hr hR hb) ?_
  by_cases hone : g.bodyBlocks.length ≤ 1
  · exact acyclic.not_mem_bodyBlocks hone hr hR hb
  · exact intact.unshared hr hR hb (Nat.lt_of_not_le hone)

theorem regionOps_eq : g'.regionOps r = g.regionOps r := by
  unfold regionOps
  rw [h.region?_eq intact acyclic hr]
  cases hR : g.region? r with
  | none => rfl
  | some R =>
      dsimp only
      rw [List.filterMap_congr fun b hb => h.block?_eq intact acyclic hr hR hb]

theorem regionText_eq (depth : Nat) (inner : OpId → String) :
    g'.regionText depth inner r = g.regionText depth inner r := by
  unfold regionText
  rw [h.region?_eq intact acyclic hr]
  cases hR : g.region? r with
  | none => rfl
  | some R =>
      have hhead : g'.blockHead depth = g.blockHead depth := by
        funext b isOnly
        rw [blockHead, blockHead, h.types]
      dsimp only
      rw [List.filterMap_congr fun b hb => h.block?_eq intact acyclic hr hR hb, hhead]

omit hr

/-- An operation is listed alike, if both bounds are enough. -/
theorem opTextAux_eq {m n : Nat} (depth : Nat) {id : OpId} (hid : g.Placed id) (hm : g.Shallow m id)
    (hn : g.Shallow n id) : g'.opTextAux m depth id = g.opTextAux n depth id := by
  induction m generalizing n depth id with
  | zero => exact hm.elim
  | succ m ih =>
      obtain ⟨n, rfl⟩ : ∃ k, n = k + 1 := by
        cases n with
        | zero => exact hn.elim
        | succ n => exact ⟨n, rfl⟩
      have hop := h.ops (intact.ops hid)
      unfold opTextAux
      cases ho : g.op? id with
      | none =>
          rw [ho] at hop
          generalize g'.op? id = o' at hop
          cases hop
          rfl
      | some o =>
          rw [ho] at hop
          generalize g'.op? id = o' at hop
          cases hop with
          | some halike =>
              obtain ⟨b, rfl⟩ := halike
              have hhead : g'.headText { o with parent := b } = g.headText o := h.headText_eq o b
              have hregion : ∀ r ∈ o.regions, g'.regionText depth (g'.opTextAux m (depth + 1)) r =
                  g.regionText depth (g.opTextAux n (depth + 1)) r := by
                intro r hr
                have hholds := hid.holds ho hr
                rw [h.regionText_eq intact acyclic hholds]
                refine regionText_congr g depth fun c hc => ?_
                have henc : g.Encloses id c := ⟨o, r, ho, hr, hc⟩
                exact ih (depth + 1) (hid.inner henc) (hm c henc) (hn c henc)
              dsimp only
              rw [hhead, List.map_congr_left fun r hr => by rw [hregion r hr]]

theorem opText_eq {id : OpId} (hid : g.Placed id) : g'.opText id = g.opText id := by
  unfold opText
  rw [h.size]
  exact h.opTextAux_eq intact acyclic 0 hid (acyclic.shallow _).succ (acyclic.shallow _)

end Intact

end Wraps

/-! ### Putting a unit around -/

/-- The graph with a translation unit of the given name around what stands in the first block of the
body. -/
def wrapped (g : Graph) (name : OpName) : Graph :=
  let unit := g.operations.size
  let inside := g.regions.size
  let block := g.blocks.size
  { g with
    operations := (g.operations.map fun o =>
      if o.id ∈ g.topLevelOps then { o with parent := some block } else o).push
        ⟨unit, name, [], [], [inside], .empty, g.bodyBlock?⟩
    regions := g.regions.push ⟨inside, some unit, [block]⟩
    blocks := (g.blocks.modify (g.bodyBlock?.getD 0) fun b => { b with operations := [unit] }).push
      ⟨block, inside, [], g.topLevelOps⟩ }

section Tables

variable (g : Graph) (name : OpName)

theorem op?_wrapped (id : OpId) : (g.wrapped name).op? id =
    if id = g.operations.size then
      some ⟨g.operations.size, name, [], [], [g.regions.size], .empty, g.bodyBlock?⟩
    else (g.op? id).map fun o =>
      if o.id ∈ g.topLevelOps then { o with parent := some g.blocks.size } else o := by
  simp [wrapped, op?, Array.getElem?_push]

theorem region?_wrapped (r : RegionId) : (g.wrapped name).region? r =
    if r = g.regions.size then some ⟨g.regions.size, some g.operations.size, [g.blocks.size]⟩
    else g.region? r := by
  simp [wrapped, region?, Array.getElem?_push]

theorem block?_wrapped (b : BlockId) : (g.wrapped name).block? b =
    if b = g.blocks.size then some ⟨g.blocks.size, g.regions.size, [], g.topLevelOps⟩
    else if g.bodyBlock?.getD 0 = b then
      (g.block? b).map fun b => { b with operations := [g.operations.size] }
    else g.block? b := by
  simp [wrapped, block?, Array.getElem?_push, Array.getElem?_modify]

end Tables

/-- Where the body has one block, this is the graph with a unit around the top. -/
theorem wraps_wrapped {g : Graph} {R : Region} {b : BlockId} {B : Block}
    (hbody : g.region? g.body = some R) (hblocks : R.blocks = [b]) (hB : g.block? b = some B)
    {name : OpName} (hname : name.kind? = some .translationUnit) : g.Wraps (g.wrapped name) := by
  have hfirst : g.bodyBlock? = some b := by simp [bodyBlock?, hbody, hblocks]
  refine ⟨by simp [wrapped], ⟨_, (op?_wrapped g name _).trans (if_pos rfl), hname, rfl⟩,
    ⟨_, _, (region?_wrapped g name _).trans (if_pos rfl), rfl,
      (block?_wrapped g name _).trans (if_pos rfl), rfl⟩, ?_, fun {id} hid => ?_,
    fun {r} hr _ => (region?_wrapped g name r).trans (if_neg hr), fun {x} hx hx' => ?_, rfl, rfl⟩
  · show (g.wrapped name).regionOps g.body = _
    simp [regionOps, region?_wrapped, block?_wrapped, Nat.ne_of_lt (region?_lt hbody), hbody, hblocks,
      hfirst, Nat.ne_of_lt (block?_lt hB), hB]
  · rw [op?_wrapped, if_neg hid]
    cases g.op? id with
    | none => exact .none
    | some o =>
        refine .some ?_
        dsimp only
        split
        · exact ⟨_, rfl⟩
        · exact ⟨_, rfl⟩
  · rw [block?_wrapped, if_neg hx, if_neg]
    rintro rfl
    exact hx' (by simp [bodyBlocks, hbody, hblocks, hfirst])

end Graph

end Readback
