import Mathlib.Data.List.Induction
import Readback.Graph.Builder
import Readback.Proofs.Graph.Built

/-! # Recorded uses

A graph records the uses of its values while it is built. Recording all of them afresh gives the very
same record, so that what is recorded at any time is what one finds by going through the operands of all
operations. A step that fails has recorded nothing.

* `Graph.record` goes through the operations of a list and records their operands. What it gives for a
  value are the operations that have the value as an operand, in their order and once per operand
  (`get?_record`); only the ids and the operands of the operations matter (`record_congr`).
* `Graph.Tallied` says that what is recorded in a graph is what recording afresh gives. Appending an
  operation records its operands last, as recording afresh does (`Tallied.pushOperation`), and other
  changes touch neither operands nor the record (`Tallied.modifyOp`). So every building step keeps a
  graph tallied (`Change.tallied`), and every built graph is (`Built.tallied`).
* A building step that fails leaves the graph as it was (`BuildStep.eq_of_error`): operands are checked
  before any of them is recorded.

The main result is `Graph.Built.uses_takers`: the recorded uses of a value are the operations that have
it as an operand, in the order in which they were created; recording them afresh changes nothing
(`Built.rebuildUses_eq`); and an operation has uses exactly if one of its results is an operand
somewhere. In `shared` a constant is used three times by two operations, and by none that failed. -/

namespace Readback

open Step

namespace Graph

/-- The uses of the operands of operations, recorded one operation after the other. -/
def record (os : List Operation) : Dict Value (List OpId) :=
  os.foldl (fun u o => o.operands.foldl (recordUse o.id) u) .empty

/-- What is recorded is what recording afresh gives. -/
def Tallied (g : Graph) : Prop := g.useLists = record g.operations.toList

theorem record_snoc (os : List Operation) (o : Operation) :
    record (os ++ [o]) = o.operands.foldl (recordUse o.id) (record os) := by
  simp [record]

/-- Only the ids and the operands of the operations matter. -/
theorem record_congr {os os' : List Operation}
    (h : os'.map (fun o => (o.id, o.operands)) = os.map fun o => (o.id, o.operands)) :
    record os' = record os := by
  have hpairs (l : List Operation) : record l =
      (l.map fun o => (o.id, o.operands)).foldl (fun u p => p.2.foldl (recordUse p.1) u) .empty := by
    rw [List.foldl_map]
    rfl
  rw [hpairs, hpairs, h]

/-- The recorded uses of a value are the operations that have it as an operand, once per operand. -/
theorem get?_record (os : List Operation) (v : Value) :
    ((record os).get? v).getD [] =
      os.flatMap fun o => List.replicate (o.operands.count v) o.id := by
  induction os using List.reverseRecOn with
  | nil => rfl
  | append_singleton os o ih =>
      rw [record_snoc, foldl_recordUse, ih, List.flatMap_append, List.flatMap_singleton]

/-- Changing an operation in other respects than its operands. -/
theorem Tallied.modifyOp {g : Graph} (h : g.Tallied) (i : OpId) {change : Operation → Operation}
    (hchange : ∀ o, ((change o).id, (change o).operands) = (o.id, o.operands)) :
    ({ g with operations := g.operations.modify i change } : Graph).Tallied := by
  refine Eq.trans h (record_congr ?_).symm
  refine List.ext_getElem? fun j => ?_
  simp only [Array.toList_modify, List.getElem?_map, List.getElem?_modify]
  cases g.operations.toList[j]? with
  | none => rfl
  | some o =>
      by_cases hij : i = j
      · simpa [hij] using hchange o
      · simp [hij]

theorem Tallied.pushOperation {g : Graph} (h : g.Tallied) (block : BlockId) (spec : OpSpec) :
    (g.pushOperation block spec).2.Tallied := by
  unfold Tallied Graph.pushOperation
  rw [Array.toList_push, record_snoc, ← h]

/-- Whatever a building step does, it keeps the record right. -/
theorem Change.tallied {g g' : Graph} (c : g.Change g') (h : g.Tallied) : g'.Tallied := by
  cases c with
  | none => exact h
  | intern shape => exact h
  | attributes op f => exact h.modifyOp op fun _ => rfl
  | addRegion known => exact h.modifyOp _ fun _ => rfl
  | pushBlock known arguments => exact h
  | pushOperation known operands => exact h.pushOperation _ _

theorem Built.tallied {g : Graph} (h : g.Built) : g.Tallied :=
  h.induct (fun _ => rfl) fun _ _ => Change.tallied

/-- Recording the uses of a built graph afresh changes nothing. -/
theorem Built.rebuildUses_eq {g : Graph} (h : g.Built) : g.rebuildUses = g := by
  have hrecord : ({ g with useLists := record g.operations.toList } : Graph) = g := by
    rw [← h.tallied]
  exact hrecord

end Graph

/-! ### Steps that fail -/

/-- A building step that fails leaves the graph as it was. -/
theorem BuildStep.eq_of_error {b : BuildStep} {g g' : Graph} {e : BuildError}
    (h : b.run g = .error e g') : g' = g := by
  have dropped {α : Type} {m : Build α} (hm : Outcome m g (fun _ _ => True) fun _ t => t = g) :
      Outcome (discard m) g (fun _ _ => True) fun _ t => t = g := Outcome.map hm
  have guarded {α : Type} {c : Prop} [Decidable c] {e : BuildError} {k : Build α}
      (hk : Outcome k g (fun _ _ => True) fun _ t => t = g) :
      Outcome (if c then do let _ ← (MonadExcept.throw e : Build PUnit); k else k) g
        (fun _ _ => True) fun _ t => t = g := by
    split
    · exact rfl
    · exact hk
  have hrun : Outcome b.run g (fun _ _ => True) fun _ t => t = g := by
    cases b with
    | internType shape => trivial
    | asLvalue id => trivial
    | setAttribute op name value => exact .get_bind (guarded trivial)
    | createRegion parent => exact dropped (.get_bind (guarded trivial))
    | createBlock region arguments => exact dropped (.get_bind (guarded trivial))
    | createOperation block spec =>
        refine dropped (.get_bind (guarded ?_))
        split
        · exact rfl
        · trivial
  unfold Outcome at hrun
  rw [h] at hrun
  exact hrun

/-- In every built graph the recorded uses of a value are the operations that have it as an operand,
in the order in which they were created and once per operand. So recording the uses afresh changes
nothing, an operation has uses exactly if some operation has a result of it as an operand, and a step
that fails leaves the whole graph as it was. -/
theorem Graph.Built.uses_takers {g : Graph} (hg : g.Built) :
    (∀ v, g.uses v = g.operations.toList.flatMap fun o => List.replicate (o.operands.count v) o.id) ∧
    g.rebuildUses = g ∧
    (∀ id, g.hasUses id = true ↔ ∃ o ∈ g.operations.toList, ∃ k, Value.result id k ∈ o.operands) ∧
    ∀ (b : BuildStep) e g', b.run g = .error e g' → g' = g := by
  refine ⟨fun v => ?_, hg.rebuildUses_eq, fun id => ?_, fun b e g' h => b.eq_of_error h⟩
  · rw [← get?_record, ← hg.tallied]
    rfl
  · rw [hg.formed.hasUses_iff]
    constructor
    · rintro ⟨u, o, k, ho, hv⟩
      exact ⟨o, Array.mem_toList_iff.mpr (Array.mem_of_getElem? ho), k, hv⟩
    · rintro ⟨o, ho, k, hv⟩
      obtain ⟨u, hu⟩ := List.getElem?_of_mem ho
      exact ⟨u, o, k, by simpa [op?] using hu, hv⟩

/-- A constant, its sum with itself, and its negation; a product of which the second operand does not
exist came in between. -/
def shared : Graph :=
  .build .empty
    [.internType (.integer .int none),
      .createOperation 0 ((OpSpec.ofKind .constant).withResults [0]
        |>.withAttr AttrName.value (.integer 1)),
      .createOperation 0 ((OpSpec.named "hl.add").withOperands [.result 0 0, .result 0 0]
        |>.withResults [0]),
      .createOperation 0 ((OpSpec.named "hl.mul").withOperands [.result 0 0, .result 7 0]
        |>.withResults [0]),
      .createOperation 0 ((OpSpec.named "hl.minus").withOperands [.result 0 0] |>.withResults [0])]

/-- The constant is used twice by the sum and once by the negation, and not by the product. -/
theorem Graph.Built.uses_takers_shared :
    shared.Built ∧ shared.uses (.result 0 0) = [1, 1, 2] ∧
      shared.rebuildUses.uses (.result 0 0) = [1, 1, 2] ∧ shared.hasUses 0 = true ∧
      shared.hasUses 1 = false := by
  have hbuilt : shared.Built := Graph.built_build _ _
  obtain ⟨huses, hrebuild, -, -⟩ := Graph.Built.uses_takers hbuilt
  have hlist : shared.uses (.result 0 0) = [1, 1, 2] := by
    rw [huses]
    decide +kernel
  exact ⟨hbuilt, hlist, hrebuild.symm ▸ hlist, by decide +kernel, by decide +kernel⟩

end Readback
