import Readback.Proofs.Graph.Types
import Readback.Proofs.Graph.Walk

/-! # Graphs with two operations exchanged

Two operations next to each other at the top of a graph change places (`Graph.Swaps`). All operations
stay, with their regions and what uses them; only the order at the top is another
(`Graph.Reordered`). Exchanging two operations in the list of a block of the body is such a change
(`Arranged.swaps_relisted`).

For the operations that change places it matters what stands in them. `DefinedIn g id v` says that the
value is made somewhere in the regions of the operation, and `Foreign g id other` that nothing in `id`
uses such a value of `other`. Different operations at the top have nothing inside in common
(`Arranged.apart_of_top`), and what stands outside of one stays outside
(`Arranged.outside_inner`). -/

namespace Readback

open Relation

namespace Graph

/-- The graphs hold the same operations and regions. They may list the operations of the body in
different orders. -/
structure Reordered (g g' : Graph) : Prop where
  operations : g'.operations = g.operations
  regions : g'.regions = g.regions
  types : g'.types = g.types
  useLists : g'.useLists = g.useLists
  inner {r} : r ≠ g.body → g'.regionOps r = g.regionOps r

namespace Reordered

variable {g g' : Graph} (h : g.Reordered g')

include h

theorem op?_eq (id : OpId) : g'.op? id = g.op? id := by rw [op?, op?, h.operations]

theorem region?_eq (r : RegionId) : g'.region? r = g.region? r := by rw [region?, region?, h.regions]

theorem hasUses_eq (id : OpId) : g'.hasUses id = g.hasUses id := by
  have huses : g'.uses = g.uses := by
    funext v
    rw [uses, uses, h.useLists]
  unfold hasUses
  rw [h.op?_eq, huses]

end Reordered

/-! ### Another order in a block -/

/-- The graph with other operations in a block. -/
def relisted (g : Graph) (b : BlockId) (ops : List OpId) : Graph :=
  { g with blocks := g.blocks.modify b fun B => { B with operations := ops } }

section Relisted

variable {g : Graph} {R : Region} {b : BlockId} {B : Block}

theorem block?_relisted (g : Graph) (b x : BlockId) (ops : List OpId) : (g.relisted b ops).block? x =
    if b = x then (g.block? x).map fun B => { B with operations := ops } else g.block? x := by
  simp [relisted, block?, Array.getElem?_modify]

theorem Formed.reordered_relisted (h : g.Formed) (hbody : g.region? g.body = some R) (hb : b ∈ R.blocks)
    (ops : List OpId) : g.Reordered (g.relisted b ops) where
  operations := rfl
  regions := rfl
  types := rfl
  useLists := rfl
  inner {r} hr := by
    unfold regionOps
    rw [show (g.relisted b ops).region? r = g.region? r from rfl]
    cases hQ : g.region? r with
    | none => rfl
    | some Q =>
        have hsame : ∀ x ∈ Q.blocks, (g.relisted b ops).block? x = g.block? x := by
          intro x hx
          rw [block?_relisted, if_neg]
          rintro rfl
          obtain ⟨B, hB, hregion⟩ := h.block_owner _ R b hbody hb
          obtain ⟨B', hB', hregion'⟩ := h.block_owner r Q b hQ hx
          cases hB.symm.trans hB'
          exact hr (hregion'.symm.trans hregion)
        dsimp only
        rw [List.filterMap_congr hsame]

/-- The operations of a block of the body stand together at the top. -/
theorem Arranged.topLevelOps_relisted (h : g.Arranged) (hbody : g.region? g.body = some R)
    (hb : b ∈ R.blocks) (hB : g.block? b = some B) :
    ∃ front back, g.topLevelOps = front ++ B.operations ++ back ∧
      ∀ ops, (g.relisted b ops).topLevelOps = front ++ ops ++ back := by
  obtain ⟨xs, ys, hblocks⟩ := List.append_of_mem hb
  have hnodup : R.blocks.Nodup := nodup_of_mem (l := []) h.blocks hbody
  rw [hblocks] at hnodup
  obtain ⟨-, hys, hapart⟩ := List.nodup_append.mp hnodup
  have same {l : List BlockId} (hl : b ∉ l) (ops : List OpId) :
      l.filterMap (g.relisted b ops).block? = l.filterMap g.block? := by
    refine List.filterMap_congr fun x hx => ?_
    rw [block?_relisted, if_neg]
    rintro rfl
    exact hl hx
  refine ⟨(xs.filterMap g.block?).flatMap Block.operations,
    (ys.filterMap g.block?).flatMap Block.operations, ?_, fun ops => ?_⟩
  · unfold topLevelOps regionOps
    simp [hbody, hblocks, hB]
  · have hblock : (g.relisted b ops).block? b = some { B with operations := ops } := by
      rw [block?_relisted, if_pos rfl, hB]
      rfl
    have hxs := same (fun hmem => hapart b hmem b List.mem_cons_self rfl) ops
    have hys := same (List.nodup_cons.mp hys).1 ops
    unfold topLevelOps regionOps
    rw [show (g.relisted b ops).region? (g.relisted b ops).body = some R from hbody]
    simp [hblocks, hblock, hxs, hys]

end Relisted

/-! ### Two operations next to each other -/

/-- The second graph is the first one with two operations at the top exchanged, which stand next to
each other. -/
structure Swaps (g g' : Graph) (f k : OpId) (front back : List OpId) : Prop extends g.Reordered g' where
  left : g.topLevelOps = front ++ f :: k :: back
  right : g'.topLevelOps = front ++ k :: f :: back

theorem Arranged.swaps_relisted {g : Graph} {R : Region} {b : BlockId} {B : Block} {f k : OpId}
    {pre post : List OpId} (h : g.Arranged) (hbody : g.region? g.body = some R) (hb : b ∈ R.blocks)
    (hB : g.block? b = some B) (hops : B.operations = pre ++ f :: k :: post) :
    ∃ front back, g.Swaps (g.relisted b (pre ++ k :: f :: post)) f k front back := by
  obtain ⟨front, back, hleft, hright⟩ := h.topLevelOps_relisted hbody hb hB
  refine ⟨front ++ pre, post ++ back, h.toFormed.reordered_relisted hbody hb _, ?_, ?_⟩
  · rw [hleft, hops]
    simp
  · rw [hright]
    simp

/-! ### What is inside an operation -/

/-- The value is made in a region of the operation: it is a result of an operation there, or an argument
of a block there. -/
def DefinedIn (g : Graph) (id : OpId) : Value → Prop
  | .result c _ => TransGen g.Encloses id c
  | .argument b _ => ∃ c o r B, ReflTransGen g.Encloses id c ∧ g.op? c = some o ∧ r ∈ o.regions ∧
      g.block? b = some B ∧ B.region = r

/-- What stands in the operation `id` uses no value that is made in the operation `other`. -/
def Foreign (g : Graph) (id other : OpId) : Prop :=
  ∀ c o v, TransGen g.Encloses id c → g.op? c = some o → v ∈ o.operands → ¬ g.DefinedIn other v

section Inside

variable {g : Graph} {f k id c : OpId} {o : Operation} {r : RegionId}

/-- The region is one of an operation for which `P` holds. -/
def OwnedBy (g : Graph) (P : OpId → Prop) (r : RegionId) : Prop :=
  ∃ id o, P id ∧ g.op? id = some o ∧ r ∈ o.regions

theorem Arranged.ne_body (h : g.Arranged) (ho : g.op? id = some o) (hr : r ∈ o.regions) :
    r ≠ g.body := by
  rintro rfl
  obtain ⟨R, hR, hp⟩ := h.region_owner id o _ ho hr
  obtain ⟨R', hR', hp'⟩ := h.body
  cases hR.symm.trans hR'
  rw [hp] at hp'
  cases hp'

/-- Different operations at the top have nothing inside in common. -/
theorem Arranged.apart_of_top (h : g.Arranged) (hf : f ∈ g.topLevelOps) (hk : k ∈ g.topLevelOps)
    (hne : f ≠ k) (hfc : ReflTransGen g.Encloses f c) : ¬ ReflTransGen g.Encloses k c := fun hkc =>
  (h.toFormed.below_total hfc hkc).elim (h.not_below_top hk hne) (h.not_below_top hf hne.symm)

/-- What stands in an operation that is not below `f` is not below `f`, which stands at the top. -/
theorem Arranged.outside_inner (h : g.Arranged) (hf : f ∈ g.topLevelOps)
    (hid : ¬ ReflTransGen g.Encloses f id) (hc : g.Encloses id c) : ¬ ReflTransGen g.Encloses f c := by
  intro hfc
  cases hfc with
  | refl => exact h.not_encloses_top hf hc
  | tail hfx hx =>
      cases h.toFormed.encloses_unique hx hc
      exact hid hfx

/-- An operation uses no argument of an entry block in `k`, nor what is made there, if it uses nothing
from there. -/
theorem definedIn_entry {b : BlockId} (h : g.Formed) (hid : ReflTransGen g.Encloses k id)
    (ho : g.op? id = some o) (hb : g.entry? o = some b) (i : Nat) : g.DefinedIn k (.argument b i) := by
  unfold entry? at hb
  cases hr : o.regions.head? with
  | none => simp [hr] at hb
  | some r =>
      cases hR : g.region? r with
      | none => simp [hr, hR] at hb
      | some R =>
          have hmem : b ∈ R.blocks := List.mem_of_mem_head? (by simpa [hr, hR] using hb)
          obtain ⟨B, hB, hregion⟩ := h.block_owner r R b hR hmem
          exact ⟨id, o, r, B, hid, ho, List.mem_of_mem_head? hr, hB, hregion⟩

end Inside

end Graph

end Readback
