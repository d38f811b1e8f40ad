import Readback.Graph.Basic
import Readback.Proofs.Steps

/-! # Built graphs

A graph is `Built` if some sequence of building steps leads to it from an empty one; steps that fail
count too.

* `BuildStep` lists the building steps with their arguments, `BuildStep.after` is the graph that a step
  leaves, and `Graph.build` makes a whole list of steps.
* A step makes at most one change (`Graph.change_after`). `Graph.Change` lists them: nothing, a type, an
  attribute, a region, a block, or an operation, each over nodes and values that are there. So an
  invariant of built graphs needs a proof for five changes and not for every step
  (`Graph.Built.induct`).
* `Graph.addRegion`, `Graph.pushBlock` and `Graph.pushOperation` are the changes that add a node. What a
  look-up gives afterwards is stated once for each of them and each table, in three groups: nodes that
  were there stay there, nodes that are there were there or are the one that was appended, and values
  keep their types.

Every built graph is `Formed`: its tables agree on who owns whom, an operation stands after the
operation around it, and the recorded uses are the operands (`Graph.Built.formed`). The proof takes one
lemma per change (`Formed.addRegion`, `Formed.pushBlock`, `Formed.pushOperation`, `Formed.modify`).

What other modules use of it: the members of regions exist (`Formed.op_of_mem`) and stand after their
owner (`Formed.lt_of_mem`), a block is the entry of one operation only (`Formed.entry_unique`), and an
operation has uses if and only if some operation takes one of its results (`Formed.hasUses_iff`). -/

namespace Readback

open Step

/-- A building step with its arguments. -/
inductive BuildStep where
  | internType (shape : Shape)
  | asLvalue (id : TypeId)
  | setAttribute (op : OpId) (name : String) (value : Attribute)
  | createRegion (parent : OpId)
  | createBlock (region : RegionId) (arguments : List TypeId)
  | createOperation (block : BlockId) (spec : OpSpec)

namespace BuildStep

/-- Makes the step. Its result is not looked at. -/
def run : BuildStep → Build Unit
  | .internType shape => discard (Build.internType shape)
  | .asLvalue id => discard (Build.asLvalue id)
  | .setAttribute op name value => Build.setAttribute op name value
  | .createRegion parent => discard (Build.createRegion parent)
  | .createBlock region arguments => discard (Build.createBlock region arguments)
  | .createOperation block spec => discard (Build.createOperation block spec)

/-- The graph that the step leaves, whether it succeeds or fails. -/
def after (b : BuildStep) (g : Graph) : Graph := Step.after b.run g

end BuildStep

namespace Graph

/-- What an operation has to do with the other nodes of a graph. -/
def placeOf (o : Operation) : OpId × List Value × List TypeId × List RegionId × Option BlockId :=
  (o.id, o.operands, o.resultTypes, o.regions, o.parent)

/-- A graph that some sequence of building steps leads to. -/
inductive Built : Graph → Prop where
  | empty (registry : Registry) : Built (ofRegistry registry)
  | step {g : Graph} (b : BuildStep) (built : Built g) : Built (b.after g)

/-- The graph that the steps lead to from an empty one over the registry. -/
def build (registry : Registry) (steps : List BuildStep) : Graph :=
  steps.foldl (fun g b => b.after g) (ofRegistry registry)

theorem built_build (registry : Registry) (steps : List BuildStep) :
    (build registry steps).Built := by
  have follow : ∀ (l : List BuildStep) (g : Graph), g.Built →
      (l.foldl (fun g b => b.after g) g).Built := by
    intro l
    induction l with
    | nil => exact fun g hg => hg
    | cons b l ih => exact fun g hg => ih _ (.step b hg)
  exact follow steps _ (.empty registry)

/-- The tables of the graph agree with each other. -/
structure Formed (g : Graph) : Prop where
  op_id : ∀ i o, g.op? i = some o → o.id = i
  region_owner : ∀ i o r, g.op? i = some o → r ∈ o.regions →
    ∃ R, g.region? r = some R ∧ R.parent = some i
  block_owner : ∀ r R b, g.region? r = some R → b ∈ R.blocks →
    ∃ B, g.block? b = some B ∧ B.region = r
  op_owner : ∀ b B i, g.block? b = some B → i ∈ B.operations →
    ∃ o, g.op? i = some o ∧ o.parent = some b
  op_block : ∀ i o b, g.op? i = some o → o.parent = some b → b < g.blocks.size
  block_region : ∀ b B, g.block? b = some B → B.region < g.regions.size
  region_op : ∀ r R i, g.region? r = some R → R.parent = some i → i < g.operations.size
  after_owner : ∀ j o b B R i, g.op? j = some o → o.parent = some b → g.block? b = some B →
    g.region? B.region = some R → R.parent = some i → i < j
  operand_known : ∀ i o v, g.op? i = some o → v ∈ o.operands → (g.valueType? v).isSome
  mem_uses : ∀ v i, i ∈ g.uses v ↔ ∃ o, g.op? i = some o ∧ v ∈ o.operands

/-! ### Tables after a step -/

theorem op?_lt {g : Graph} {i : Nat} {o : Operation} (h : g.op? i = some o) :
    i < g.operations.size := (Array.getElem?_eq_some_iff.mp h).1

theorem region?_lt {g : Graph} {i : Nat} {r : Region} (h : g.region? i = some r) :
    i < g.regions.size := (Array.getElem?_eq_some_iff.mp h).1

theorem block?_lt {g : Graph} {i : Nat} {b : Block} (h : g.block? i = some b) :
    i < g.blocks.size := (Array.getElem?_eq_some_iff.mp h).1

/-- The graph with a further region of an operation. -/
def addRegion (g : Graph) (parent : OpId) : Graph :=
  { (g.pushRegion (some parent)).2 with
    operations := g.operations.modify parent fun o =>
      { o with regions := o.regions ++ [g.regions.size] } }

section Tables

variable (g : Graph) {n i r b : Nat} {o o' : Operation} {R R' : Region} {B B' : Block}
  {arguments : List TypeId} {spec : OpSpec}

theorem region?_addRegion (n : OpId) (r : RegionId) : (g.addRegion n).region? r =
    if r = g.regions.size then some ⟨g.regions.size, some n, []⟩ else g.region? r := by
  simp [addRegion, pushRegion, region?, Array.getElem?_push]

theorem op?_addRegion (n i : OpId) : (g.addRegion n).op? i =
    if n = i then (g.op? i).map fun o => { o with regions := o.regions ++ [g.regions.size] }
    else g.op? i := by
  simp only [addRegion, op?, Array.getElem?_modify]

theorem block?_pushBlock (n : RegionId) (arguments : List TypeId) (b : BlockId) :
    (g.pushBlock n arguments).2.block? b =
      if b = g.blocks.size then some ⟨g.blocks.size, n, arguments, []⟩ else g.block? b := by
  simp [pushBlock, block?, Array.getElem?_push]

theorem region?_pushBlock (n : RegionId) (arguments : List TypeId) (r : RegionId) :
    (g.pushBlock n arguments).2.region? r =
      if n = r then (g.region? r).map fun R => { R with blocks := R.blocks ++ [g.blocks.size] }
      else g.region? r := by
  simp only [pushBlock, region?, Array.getElem?_modify]

theorem block?_pushOperation (n : BlockId) (spec : OpSpec) (b : BlockId) :
    (g.pushOperation n spec).2.block? b =
      if n = b then (g.block? b).map fun B =>
        { B with operations := B.operations ++ [g.operations.size] }
      else g.block? b := by
  simp only [pushOperation, block?, Array.getElem?_modify]

variable {g}

/-! Nodes that were there stay there. -/

theorem addRegion_region (h : g.region? r = some R) : (g.addRegion n).region? r = some R := by
  rw [region?_addRegion, if_neg (Nat.ne_of_lt (region?_lt h)), h]

theorem addRegion_op (n : OpId) (h : g.op? i = some o) : ∃ o', (g.addRegion n).op? i = some o' ∧
    o'.operands = o.operands ∧ o'.parent = o.parent := by
  rw [op?_addRegion, h]
  split
  · exact ⟨_, rfl, rfl, rfl⟩
  · exact ⟨o, rfl, rfl, rfl⟩

theorem pushBlock_block (h : g.block? b = some B) :
    (g.pushBlock n arguments).2.block? b = some B := by
  rw [block?_pushBlock, if_neg (Nat.ne_of_lt (block?_lt h)), h]

theorem pushBlock_region (n : RegionId) (arguments : List TypeId) (h : g.region? r = some R) :
    ∃ R', (g.pushBlock n arguments).2.region? r = some R' ∧ R'.parent = R.parent := by
  rw [region?_pushBlock, h]
  split
  · exact ⟨_, rfl, rfl⟩
  · exact ⟨R, rfl, rfl⟩

theorem pushOperation_op (h : g.op? i = some o) : (g.pushOperation n spec).2.op? i = some o := by
  simp only [pushOperation, op?, Array.getElem?_push, if_neg (Nat.ne_of_lt (op?_lt h))]
  exact h

theorem pushOperation_block (n : BlockId) (spec : OpSpec) (h : g.block? b = some B) :
    ∃ B', (g.pushOperation n spec).2.block? b = some B' ∧ B'.region = B.region ∧
      B'.arguments = B.arguments := by
  rw [block?_pushOperation, h]
  split
  · exact ⟨_, rfl, rfl, rfl⟩
  · exact ⟨B, rfl, rfl, rfl⟩

/-! Nodes that are there were there, or are the one that was appended. -/

theorem of_addRegion_op (h : (g.addRegion n).op? i = some o') : ∃ o, g.op? i = some o ∧
    o'.id = o.id ∧ o'.operands = o.operands ∧ o'.parent = o.parent ∧
    ∀ r ∈ o'.regions, r ∈ o.regions ∨ i = n ∧ r = g.regions.size := by
  rw [op?_addRegion] at h
  split at h
  · next hin =>
      obtain ⟨o, ho, rfl⟩ := Option.map_eq_some_iff.mp h
      refine ⟨o, ho, rfl, rfl, rfl, fun r hr => ?_⟩
      simpa [hin] using hr
  · exact ⟨o', h, rfl, rfl, rfl, fun r hr => .inl hr⟩

theorem of_pushBlock_region (h : (g.pushBlock n arguments).2.region? r = some R') :
    ∃ R, g.region? r = some R ∧ R'.id = R.id ∧ R'.parent = R.parent ∧
      ∀ b ∈ R'.blocks, b ∈ R.blocks ∨ r = n ∧ b = g.blocks.size := by
  rw [region?_pushBlock] at h
  split at h
  · next hrn =>
      obtain ⟨R, hR, rfl⟩ := Option.map_eq_some_iff.mp h
      refine ⟨R, hR, rfl, rfl, fun b hb => ?_⟩
      simpa [hrn] using hb
  · exact ⟨R', h, rfl, rfl, fun b hb => .inl hb⟩

theorem of_pushOperation_op (h : (g.pushOperation n spec).2.op? i = some o') :
    g.op? i = some o' ∨ (i = g.operations.size ∧ o'.id = i ∧ o'.operands = spec.operands ∧
      o'.regions = [] ∧ o'.parent = some n) := by
  simp only [pushOperation, op?, Array.getElem?_push] at h
  split at h
  · next hi =>
      cases h
      exact .inr ⟨hi, hi.symm, rfl, rfl, rfl⟩
  · exact .inl h

theorem of_pushOperation_block (h : (g.pushOperation n spec).2.block? b = some B') :
    ∃ B, g.block? b = some B ∧ B'.id = B.id ∧ B'.region = B.region ∧
      ∀ i ∈ B'.operations, i ∈ B.operations ∨ b = n ∧ i = g.operations.size := by
  rw [block?_pushOperation] at h
  split at h
  · next hbn =>
      obtain ⟨B, hB, rfl⟩ := Option.map_eq_some_iff.mp h
      refine ⟨B, hB, rfl, rfl, fun i hi => ?_⟩
      simpa [hbn] using hi
  · exact ⟨B', h, rfl, rfl, fun i hi => .inl hi⟩

/-! Values keep their types. -/

theorem valueType?_addRegion (v : Value) : (g.addRegion n).valueType? v = g.valueType? v := by
  cases v with
  | argument b j => rfl
  | result d j =>
      simp only [valueType?, op?_addRegion]
      split
      · cases g.op? d <;> rfl
      · rfl

theorem pushBlock_known {v : Value} (h : (g.valueType? v).isSome) :
    ((g.pushBlock n arguments).2.valueType? v).isSome := by
  cases v with
  | result d j => exact h
  | argument b j =>
      rw [valueType?] at h ⊢
      cases hB : g.block? b with
      | none => simp [hB] at h
      | some B => rwa [pushBlock_block hB, ← hB]

theorem pushOperation_known {v : Value} (h : (g.valueType? v).isSome) :
    ((g.pushOperation n spec).2.valueType? v).isSome := by
  cases v with
  | result d j =>
      rw [valueType?] at h ⊢
      cases ho : g.op? d with
      | none => simp [ho] at h
      | some o => rwa [pushOperation_op ho, ← ho]
  | argument b j =>
      rw [valueType?] at h ⊢
      cases hB : g.block? b with
      | none => simp [hB] at h
      | some B =>
          obtain ⟨B', hB', -, hargs⟩ := pushOperation_block n spec hB
          rw [hB']
          simpa [hB, hargs] using h

end Tables

/-! ### Other changes -/

/-- Types, registry and attributes have nothing to do with being formed. -/
theorem Formed.congr {g g' : Graph} (h : g.Formed) (hr : g'.regions = g.regions)
    (hb : g'.blocks = g.blocks) (hu : g'.useLists = g.useLists)
    (size : g'.operations.size = g.operations.size)
    (place : ∀ i, (g'.op? i).map placeOf = (g.op? i).map placeOf) : g'.Formed := by
  have hreg : g'.region? = g.region? := by funext r; simp [region?, hr]
  have hblk : g'.block? = g.block? := by funext b; simp [block?, hb]
  have huse : g'.uses = g.uses := by funext v; simp [uses, hu]
  have old : ∀ i o', g'.op? i = some o' → ∃ o, g.op? i = some o ∧ placeOf o = placeOf o' := by
    intro i o' ho
    have := place i
    rw [ho] at this
    simpa using this.symm
  have new : ∀ i o, g.op? i = some o → ∃ o', g'.op? i = some o' ∧ placeOf o' = placeOf o := by
    intro i o ho
    have := place i
    rw [ho] at this
    simpa using this
  have types : g'.valueType? = g.valueType? := by
    funext v
    cases v with
    | argument b j => simp [valueType?, hblk]
    | result d j =>
        have hmap : ∀ x : Option Operation,
            (x.bind fun o => o.resultTypes[j]?) = (x.map placeOf).bind fun t => t.2.2.1[j]? := by
          intro x
          cases x <;> rfl
        rw [valueType?, valueType?, hmap, hmap, place]
  simp only [placeOf, Prod.mk.injEq] at old new
  constructor
  case op_id =>
    intro i o' ho
    obtain ⟨o, hoo, hid, -⟩ := old i o' ho
    rw [← hid]
    exact h.op_id i o hoo
  case region_owner =>
    intro i o' r ho hm
    obtain ⟨o, hoo, -, -, -, hregs, -⟩ := old i o' ho
    rw [hreg]
    exact h.region_owner i o r hoo (hregs ▸ hm)
  case block_owner =>
    rw [hreg, hblk]
    exact h.block_owner
  case op_owner =>
    intro b B i hB hm
    rw [hblk] at hB
    obtain ⟨o, ho, hp⟩ := h.op_owner b B i hB hm
    obtain ⟨o', ho', -, -, -, -, hpar⟩ := new i o ho
    exact ⟨o', ho', hpar.trans hp⟩
  case op_block =>
    intro i o' b ho hp
    obtain ⟨o, hoo, -, -, -, -, hpar⟩ := old i o' ho
    rw [hb]
    exact h.op_block i o b hoo (hpar.trans hp)
  case block_region =>
    rw [hblk, hr]
    exact h.block_region
  case region_op =>
    rw [hreg, size]
    exact h.region_op
  case after_owner =>
    intro j o' b B R i ho hp
    obtain ⟨o, hoo, -, -, -, -, hpar⟩ := old j o' ho
    rw [hblk, hreg]
    exact h.after_owner j o b B R i hoo (hpar.trans hp)
  case operand_known =>
    intro i o' v ho hv
    obtain ⟨o, hoo, -, hops, -⟩ := old i o' ho
    rw [types]
    exact h.operand_known i o v hoo (hops ▸ hv)
  case mem_uses =>
    intro v i
    rw [huse, h.mem_uses]
    constructor
    · rintro ⟨o, ho, hv⟩
      obtain ⟨o', ho', -, hops, -⟩ := new i o ho
      exact ⟨o', ho', hops ▸ hv⟩
    · rintro ⟨o', ho', hv⟩
      obtain ⟨o, ho, -, hops, -⟩ := old i o' ho'
      exact ⟨o, ho, hops ▸ hv⟩

/-- Changing attributes keeps a graph formed. -/
theorem Formed.modify {g : Graph} (h : g.Formed) (n : Nat)
    (f : Dict String Attribute → Dict String Attribute) :
    ({ g with operations := g.operations.modify n fun o =>
      { o with attributes := f o.attributes } } : Graph).Formed := by
  refine h.congr rfl rfl rfl (by simp) fun i => ?_
  simp only [op?, Array.getElem?_modify]
  split
  · cases g.operations[i]? <;> rfl
  · rfl

/-! ### Regions and blocks -/

theorem Formed.addRegion {g : Graph} (h : g.Formed) {n : Nat} (hn : n < g.operations.size) :
    (g.addRegion n).Formed := by
  constructor
  case op_id =>
    intro i o' ho
    obtain ⟨o, hoo, hid, -⟩ := of_addRegion_op ho
    exact hid.trans (h.op_id i o hoo)
  case region_owner =>
    intro i o' r ho hm
    obtain ⟨o, hoo, -, -, -, hregs⟩ := of_addRegion_op ho
    obtain hm | ⟨rfl, rfl⟩ := hregs r hm
    · obtain ⟨R, hR, hp⟩ := h.region_owner i o r hoo hm
      exact ⟨R, addRegion_region hR, hp⟩
    · exact ⟨_, by rw [region?_addRegion, if_pos rfl], rfl⟩
  case block_owner =>
    intro r R b hR hm
    rw [region?_addRegion] at hR
    split at hR
    · cases hR
      cases hm
    · exact h.block_owner r R b hR hm
  case op_owner =>
    intro b B i hB hm
    obtain ⟨o, ho, hp⟩ := h.op_owner b B i hB hm
    obtain ⟨o', ho', -, hpar⟩ := addRegion_op n ho
    exact ⟨o', ho', hpar.trans hp⟩
  case op_block =>
    intro i o' b ho hp
    obtain ⟨o, hoo, -, -, hpar, -⟩ := of_addRegion_op ho
    exact h.op_block i o b hoo (hpar ▸ hp)
  case block_region =>
    intro b B hB
    simp only [Graph.addRegion, pushRegion, Array.size_push]
    exact Nat.lt_succ_of_lt (h.block_region b B hB)
  case region_op =>
    intro r R i hR hp
    simp only [Graph.addRegion, Array.size_modify]
    rw [region?_addRegion] at hR
    split at hR
    · cases hR
      cases hp
      exact hn
    · exact h.region_op r R i hR hp
  case after_owner =>
    intro j o' b B R i ho hp hB hR hRp
    obtain ⟨o, hoo, -, -, hpar, -⟩ := of_addRegion_op ho
    rw [region?_addRegion, if_neg (Nat.ne_of_lt (h.block_region b B hB))] at hR
    exact h.after_owner j o b B R i hoo (hpar ▸ hp) hB hR hRp
  case operand_known =>
    intro i o' v ho hv
    obtain ⟨o, hoo, -, hops, -⟩ := of_addRegion_op ho
    rw [valueType?_addRegion]
    exact h.operand_known i o v hoo (hops ▸ hv)
  case mem_uses =>
    intro v i
    show i ∈ g.uses v ↔ _
    rw [h.mem_uses]
    constructor
    · rintro ⟨o, ho, hv⟩
      obtain ⟨o', ho', hops, -⟩ := addRegion_op n ho
      exact ⟨o', ho', hops ▸ hv⟩
    · rintro ⟨o', ho', hv⟩
      obtain ⟨o, ho, -, hops, -⟩ := of_addRegion_op ho'
      exact ⟨o, ho, hops ▸ hv⟩

theorem Formed.pushBlock {g : Graph} (h : g.Formed) {n : Nat} (hn : n < g.regions.size)
    (arguments : List TypeId) : (g.pushBlock n arguments).2.Formed := by
  constructor
  case op_id => exact h.op_id
  case region_owner =>
    intro i o r ho hm
    obtain ⟨R, hR, hp⟩ := h.region_owner i o r ho hm
    obtain ⟨R', hR', hp'⟩ := pushBlock_region n arguments hR
    exact ⟨R', hR', hp'.trans hp⟩
  case block_owner =>
    intro r R' b hR hm
    obtain ⟨R, hRR, -, -, hblks⟩ := of_pushBlock_region hR
    obtain hm | ⟨rfl, rfl⟩ := hblks b hm
    · obtain ⟨B, hB, hr⟩ := h.block_owner r R b hRR hm
      exact ⟨B, pushBlock_block hB, hr⟩
    · exact ⟨_, by rw [block?_pushBlock, if_pos rfl], rfl⟩
  case op_owner =>
    intro b B i hB hm
    rw [block?_pushBlock] at hB
    split at hB
    · cases hB
      cases hm
    · exact h.op_owner b B i hB hm
  case op_block =>
    intro i o b ho hp
    simp only [Graph.pushBlock, Array.size_push]
    exact Nat.lt_succ_of_lt (h.op_block i o b ho hp)
  case block_region =>
    intro b B hB
    simp only [Graph.pushBlock, Array.size_modify]
    rw [block?_pushBlock] at hB
    split at hB
    · cases hB
      exact hn
    · exact h.block_region b B hB
  case region_op =>
    intro r R' i hR hp
    obtain ⟨R, hRR, -, hpar, -⟩ := of_pushBlock_region hR
    exact h.region_op r R i hRR (hpar ▸ hp)
  case after_owner =>
    intro j o b B R' i ho hp hB hR hRp
    rw [block?_pushBlock, if_neg (Nat.ne_of_lt (h.op_block j o b ho hp))] at hB
    obtain ⟨R, hRR, -, hpar, -⟩ := of_pushBlock_region hR
    exact h.after_owner j o b B R i ho hp hB hRR (hpar ▸ hRp)
  case operand_known => exact fun i o v ho hv => pushBlock_known (h.operand_known i o v ho hv)
  case mem_uses => exact h.mem_uses

/-! ### Operations and their uses -/

/-- Recording the operands of an operation adds the operation to their uses, once per operand. -/
theorem foldl_recordUse (id : OpId) (vs : List Value) (u : Dict Value (List OpId)) (v : Value) :
    ((vs.foldl (recordUse id) u).get? v).getD [] =
      (u.get? v).getD [] ++ List.replicate (vs.count v) id := by
  induction vs generalizing u with
  | nil => simp
  | cons w vs ih =>
      rw [List.foldl_cons, ih]
      simp only [recordUse, Dict.get?_insert]
      by_cases hw : w = v
      · subst hw
        simp [List.replicate_succ]
      · rw [if_neg hw, List.count_cons_of_ne hw]

theorem mem_foldl_recordUse (id : OpId) (vs : List Value) (u : Dict Value (List OpId)) (v : Value)
    (i : OpId) : i ∈ ((vs.foldl (recordUse id) u).get? v).getD [] ↔
      i ∈ (u.get? v).getD [] ∨ i = id ∧ v ∈ vs := by
  have hcount : vs.count v ≠ 0 ↔ v ∈ vs := by rw [← Nat.pos_iff_ne_zero, List.count_pos_iff]
  rw [foldl_recordUse, List.mem_append, List.mem_replicate, hcount, and_comm]

theorem Formed.pushOperation {g : Graph} (h : g.Formed) {n : Nat} (hn : n < g.blocks.size)
    {spec : OpSpec} (known : ∀ v ∈ spec.operands, (g.valueType? v).isSome) :
    (g.pushOperation n spec).2.Formed := by
  have newOp : ∃ o, (g.pushOperation n spec).2.op? g.operations.size = some o ∧
      o.operands = spec.operands ∧ o.parent = some n := by
    simp [Graph.pushOperation, op?]
  constructor
  case op_id =>
    intro i o' ho
    obtain ho | ⟨-, hid, -⟩ := of_pushOperation_op ho
    · exact h.op_id i o' ho
    · exact hid
  case region_owner =>
    intro i o' r ho hm
    obtain ho | ⟨-, -, -, hregs, -⟩ := of_pushOperation_op ho
    · exact h.region_owner i o' r ho hm
    · rw [hregs] at hm
      cases hm
  case block_owner =>
    intro r R b hR hm
    obtain ⟨B, hB, hr⟩ := h.block_owner r R b hR hm
    obtain ⟨B', hB', hr', -⟩ := pushOperation_block n spec hB
    exact ⟨B', hB', hr'.trans hr⟩
  case op_owner =>
    intro b B' i hB hm
    obtain ⟨B, hBB, -, -, hops⟩ := of_pushOperation_block hB
    obtain hm | ⟨rfl, rfl⟩ := hops i hm
    · obtain ⟨o, ho, hp⟩ := h.op_owner b B i hBB hm
      exact ⟨o, pushOperation_op ho, hp⟩
    · obtain ⟨o, ho, -, hp⟩ := newOp
      exact ⟨o, ho, hp⟩
  case op_block =>
    intro i o' b ho hp
    simp only [Graph.pushOperation, Array.size_modify]
    obtain ho | ⟨-, -, -, -, hpar⟩ := of_pushOperation_op ho
    · exact h.op_block i o' b ho hp
    · cases hpar.symm.trans hp
      exact hn
  case block_region =>
    intro b B' hB
    obtain ⟨B, hBB, -, hr, -⟩ := of_pushOperation_block hB
    exact hr ▸ h.block_region b B hBB
  case region_op =>
    intro r R i hR hp
    simp only [Graph.pushOperation, Array.size_push]
    exact Nat.lt_succ_of_lt (h.region_op r R i hR hp)
  case after_owner =>
    intro j o' b B' R i ho hp hB hR hRp
    obtain ⟨B, hBB, -, hr, -⟩ := of_pushOperation_block hB
    rw [hr] at hR
    obtain ho | ⟨hj, -⟩ := of_pushOperation_op ho
    · exact h.after_owner j o' b B R i ho hp hBB hR hRp
    · rw [hj]
      exact h.region_op _ R i hR hRp
  case operand_known =>
    intro i o' v ho hv
    obtain ho | ⟨-, -, hops, -⟩ := of_pushOperation_op ho
    · exact pushOperation_known (h.operand_known i o' v ho hv)
    · exact pushOperation_known (known v (hops ▸ hv))
  case mem_uses =>
    intro v i
    show i ∈ ((spec.operands.foldl (recordUse g.operations.size) g.useLists).get? v).getD [] ↔ _
    rw [mem_foldl_recordUse]
    constructor
    · rintro (hi | ⟨rfl, hv⟩)
      · obtain ⟨o, ho, hv⟩ := (h.mem_uses v i).mp hi
        exact ⟨o, pushOperation_op ho, hv⟩
      · obtain ⟨o, ho, hops, -⟩ := newOp
        exact ⟨o, ho, hops ▸ hv⟩
    · rintro ⟨o', ho, hv⟩
      obtain ho | ⟨hi, -, hops, -⟩ := of_pushOperation_op ho
      · exact .inl ((h.mem_uses v i).mpr ⟨o', ho, hv⟩)
      · exact .inr ⟨hi, hops ▸ hv⟩

theorem formed_ofRegistry (registry : Registry) : (ofRegistry registry).Formed := by
  refine Formed.pushBlock (n := 0) ?_ (by simp [pushRegion]) []
  have hreg : ∀ r, (pushRegion ⟨#[], #[], #[], .empty, registry, 0, .empty⟩ none).2.region? r =
      if r = 0 then some ⟨0, none, []⟩ else none := by
    intro r
    simp only [pushRegion, region?, Array.getElem?_push]
    simp
  constructor
  case op_id =>
    intro i o ho
    cases ho
  case region_owner =>
    intro i o r ho
    cases ho
  case block_owner =>
    intro r R b hR hb
    rw [hreg] at hR
    split at hR
    · cases hR
      cases hb
    · cases hR
  case op_owner =>
    intro b B i hB
    cases hB
  case op_block =>
    intro i o b ho
    cases ho
  case block_region =>
    intro b B hB
    cases hB
  case region_op =>
    intro r R i hR hp
    rw [hreg] at hR
    split at hR
    · cases hR
      cases hp
    · cases hR
  case after_owner =>
    intro j o b B R i ho
    cases ho
  case operand_known =>
    intro i o v ho
    cases ho
  case mem_uses =>
    intro v i
    constructor
    · intro hi
      cases hi
    · rintro ⟨o, ho, -⟩
      cases ho

/-! ### What a step does -/

section Steps

variable (g : Graph)

/-- A step that is made under a condition leaves the graph as it was or makes its change. -/
theorem after_guarded {α : Type} (c : Graph → Bool) (e : Graph → BuildError) (f : Graph → α × Graph) :
    Step.after (do
      let g ← get
      if c g then throw (e g)
      modifyGet f : Build α) g = if c g then g else (f g).2 := by
  unfold Step.after
  rw [get_bind]
  by_cases h : c g
  · rw [if_pos h, if_pos h]
    rfl
  · rw [if_neg h, if_neg h]
    rfl

theorem after_setAttribute (op : OpId) (name : String) (value : Attribute) :
    (BuildStep.setAttribute op name value).after g = if (g.op? op).isNone then g else
      { g with operations := g.operations.modify op fun o =>
        { o with attributes := o.attributes.insert name value } } :=
  after_guarded g (fun g => (g.op? op).isNone) _ _

theorem after_createRegion (parent : OpId) : (BuildStep.createRegion parent).after g =
    if (g.op? parent).isNone then g else g.addRegion parent := by
  rw [BuildStep.after, BuildStep.run, after_discard]
  exact after_guarded g (fun g => (g.op? parent).isNone) _ _

theorem after_createBlock (region : RegionId) (arguments : List TypeId) :
    (BuildStep.createBlock region arguments).after g =
      if (g.region? region).isNone then g else (g.pushBlock region arguments).2 := by
  rw [BuildStep.after, BuildStep.run, after_discard]
  exact after_guarded g (fun g => (g.region? region).isNone) _ _

/-- Adding an operation fails, or the operation comes last. -/
theorem createOperation_eq (block : BlockId) (spec : OpSpec) :
    Build.createOperation block spec g =
      if (g.block? block).isNone then .error (.noBlock block) g
      else match spec.operands.find? fun v => (g.valueType? v).isNone with
        | some v => .error (.missingOperand v spec.name) g
        | none => .ok g.operations.size (g.pushOperation block spec).2 := by
  unfold Build.createOperation
  rw [get_bind]
  by_cases h : (g.block? block).isNone
  · rw [if_pos h, if_pos h]
    rfl
  · rw [if_neg h, if_neg h]
    show (match spec.operands.find? fun v => (g.valueType? v).isNone with
      | some v => throw (.missingOperand v spec.name)
      | none => modifyGet fun g => g.pushOperation block spec : Build OpId) g = _
    cases spec.operands.find? fun v => (g.valueType? v).isNone <;> rfl

theorem after_createOperation (block : BlockId) (spec : OpSpec) :
    (BuildStep.createOperation block spec).after g =
      if (g.block? block).isNone then g
      else match spec.operands.find? fun v => (g.valueType? v).isNone with
        | some _ => g
        | none => (g.pushOperation block spec).2 := by
  rw [BuildStep.after, BuildStep.run, after_discard]
  unfold Step.after
  rw [createOperation_eq]
  by_cases h : (g.block? block).isNone
  · rw [if_pos h, if_pos h]
  · rw [if_neg h, if_neg h]
    cases spec.operands.find? fun v => (g.valueType? v).isNone <;> rfl

end Steps

/-! ### Changes -/

/-- What a building step makes of a graph: nothing when it fails, or one change over nodes and values
that are there. -/
inductive Change (g : Graph) : Graph → Prop where
  | none : Change g g
  | intern (shape : Shape) : Change g { g with types := (g.types.intern shape).2 }
  | attributes (op : OpId) (f : Dict String Attribute → Dict String Attribute) :
      Change g { g with operations := g.operations.modify op fun o =>
        { o with attributes := f o.attributes } }
  | addRegion {op : OpId} (known : op < g.operations.size) : Change g (g.addRegion op)
  | pushBlock {region : RegionId} (known : region < g.regions.size) (arguments : List TypeId) :
      Change g (g.pushBlock region arguments).2
  | pushOperation {block : BlockId} (known : block < g.blocks.size) {spec : OpSpec}
      (operands : ∀ v ∈ spec.operands, (g.valueType? v).isSome) :
      Change g (g.pushOperation block spec).2

theorem change_after (g : Graph) (b : BuildStep) : g.Change (b.after g) := by
  cases b with
  | internType shape => exact .intern shape
  | asLvalue id =>
      show g.Change { g with types := (g.types.asLvalue id).2 }
      unfold TypeTable.asLvalue
      split
      · exact .none
      · exact .intern _
  | setAttribute op name value =>
      rw [after_setAttribute]
      split
      · exact .none
      · exact .attributes op fun attributes => attributes.insert name value
  | createRegion parent =>
      rw [after_createRegion]
      split
      · exact .none
      · next hp => exact .addRegion (by simpa [op?] using hp)
  | createBlock region arguments =>
      rw [after_createBlock]
      split
      · exact .none
      · next hr => exact .pushBlock (by simpa [region?] using hr) arguments
  | createOperation block spec =>
      rw [after_createOperation]
      split
      · exact .none
      split
      · exact .none
      · next hb _ hnone =>
          refine .pushOperation (by simpa [block?] using hb) fun v hv => ?_
          simpa [Option.isSome_iff_ne_none] using List.find?_eq_none.mp hnone v hv

/-- What holds of empty graphs and is kept by every change holds of built graphs. -/
theorem Built.induct {P : Graph → Prop} {g : Graph} (h : g.Built)
    (empty : ∀ registry, P (ofRegistry registry)) (change : ∀ g g', g.Change g' → P g → P g') :
    P g := by
  induction h with
  | empty registry => exact empty registry
  | step b _ ih => exact change _ _ (change_after _ b) ih

/-- Whatever a building step does, it keeps a graph formed. -/
theorem Change.formed {g g' : Graph} (c : g.Change g') (h : g.Formed) : g'.Formed := by
  cases c with
  | none => exact h
  | intern shape => exact h.congr rfl rfl rfl rfl fun _ => rfl
  | attributes op f => exact h.modify op f
  | addRegion known => exact h.addRegion known
  | pushBlock known arguments => exact h.pushBlock known arguments
  | pushOperation known operands => exact h.pushOperation known operands

/-- **Built graphs are formed.** -/
theorem Built.formed {g : Graph} (h : g.Built) : g.Formed :=
  h.induct formed_ofRegistry fun _ _ => Change.formed

/-! ### Consequences -/

theorem mem_regionOps {g : Graph} {r : RegionId} {i : OpId} :
    i ∈ g.regionOps r ↔ ∃ R b B, g.region? r = some R ∧ b ∈ R.blocks ∧ g.block? b = some B ∧
      i ∈ B.operations := by
  unfold regionOps
  cases hR : g.region? r with
  | none => simp
  | some R =>
      simp only [List.mem_flatMap, List.mem_filterMap]
      constructor
      · rintro ⟨B, ⟨b, hb, hB⟩, hi⟩
        exact ⟨R, b, B, rfl, hb, hB, hi⟩
      · rintro ⟨_, b, B, ⟨⟩, hb, hB, hi⟩
        exact ⟨B, ⟨b, hb, hB⟩, hi⟩

/-- Regions list operations that exist. -/
theorem Formed.op_of_mem {g : Graph} (h : g.Formed) {r : RegionId} {i : OpId}
    (hi : i ∈ g.regionOps r) : ∃ o, g.op? i = some o := by
  obtain ⟨R, b, B, _, _, hB, hi⟩ := mem_regionOps.mp hi
  obtain ⟨o, ho, _⟩ := h.op_owner b B i hB hi
  exact ⟨o, ho⟩

/-- An operation stands after the operation around it. -/
theorem Formed.lt_of_mem {g : Graph} (h : g.Formed) {i j : Nat} {o : Operation} {r : RegionId}
    (ho : g.op? i = some o) (hr : r ∈ o.regions) (hj : j ∈ g.regionOps r) : i < j := by
  obtain ⟨R, b, B, hR, hb, hB, hj⟩ := mem_regionOps.mp hj
  obtain ⟨R', hR', hp⟩ := h.region_owner i o r ho hr
  obtain ⟨B', hB', hBr⟩ := h.block_owner r R b hR hb
  obtain ⟨oj, hoj, hpj⟩ := h.op_owner b B j hB hj
  cases hB.symm.trans hB'
  cases hR.symm.trans hR'
  exact h.after_owner j oj b B R i hoj hpj hB (hBr ▸ hR) hp

/-- The first block of the first region of an operation. -/
def entry? (g : Graph) (o : Operation) : Option BlockId :=
  (((o.regions.head?.bind g.region?).map Region.blocks).getD []).head?

/-- A block is the entry of one operation only. -/
theorem Formed.entry_unique {g : Graph} (h : g.Formed) {i j : OpId} {o o' : Operation} {b : BlockId}
    (ho : g.op? i = some o) (ho' : g.op? j = some o') (hb : g.entry? o = some b)
    (hb' : g.entry? o' = some b) : i = j := by
  have owner : ∀ {k : OpId} {q : Operation}, g.op? k = some q → g.entry? q = some b →
      ∃ B R, g.block? b = some B ∧ g.region? B.region = some R ∧ R.parent = some k := by
    intro k q hq hbq
    unfold entry? at hbq
    cases hr : q.regions.head? with
    | none => simp [hr] at hbq
    | some r =>
        cases hR : g.region? r with
        | none => simp [hr, hR] at hbq
        | some R =>
            have hmem : b ∈ R.blocks := List.mem_of_mem_head? (by simpa [hr, hR] using hbq)
            obtain ⟨R', hR', hp⟩ := h.region_owner k q r hq (List.mem_of_mem_head? hr)
            obtain ⟨B, hB, hBr⟩ := h.block_owner r R b hR hmem
            cases hR.symm.trans hR'
            exact ⟨B, R, hB, hBr ▸ hR, hp⟩
  obtain ⟨B, R, hB, hR, hp⟩ := owner ho hb
  obtain ⟨B', R', hB', hR', hp'⟩ := owner ho' hb'
  cases hB.symm.trans hB'
  cases hR.symm.trans hR'
  exact Option.some.inj (hp.symm.trans hp')

/-- An operation has uses if and only if some operation takes one of its results. -/
theorem Formed.hasUses_iff {g : Graph} (h : g.Formed) (i : OpId) :
    g.hasUses i = true ↔ ∃ u o k, g.op? u = some o ∧ Value.result i k ∈ o.operands := by
  constructor
  · intro hi
    unfold hasUses at hi
    split at hi
    · next o ho =>
        obtain ⟨v, hv, hne⟩ := List.any_eq_true.mp hi
        obtain ⟨k, -, rfl⟩ := List.mem_map.mp hv
        obtain ⟨u, hu⟩ := List.exists_mem_of_ne_nil (g.uses (.result o.id k)) (by simpa using hne)
        obtain ⟨q, hq, hvq⟩ := (h.mem_uses _ u).mp hu
        exact ⟨u, q, k, hq, h.op_id i o ho ▸ hvq⟩
    · cases hi
  · rintro ⟨u, q, k, hq, hv⟩
    have hknown := h.operand_known u q _ hq hv
    rw [valueType?] at hknown
    cases ho : g.op? i with
    | none => simp [ho] at hknown
    | some o =>
        have hk : k < o.resultTypes.length := by simpa [ho] using hknown
        have hu : u ∈ g.uses (.result i k) := (h.mem_uses _ u).mpr ⟨q, hq, hv⟩
        unfold hasUses
        rw [ho]
        refine List.any_eq_true.mpr ⟨.result i k, ?_, ?_⟩
        · rw [Operation.results, h.op_id i o ho]
          exact List.mem_map.mpr ⟨k, List.mem_range.mpr hk, rfl⟩
        · simpa using List.ne_nil_of_mem hu

end Graph

end Readback
