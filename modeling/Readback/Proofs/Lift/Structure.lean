import Readback.Graph.Builder
import Readback.Proofs.Lift.Run

/-! # Control structure

A lift that succeeds has kept the control structure of the graph: bodies, branches and scopes are
sequences of what their operations leave, and conditions and increments are what their regions yield.

* Whether an operation leaves a statement is said here in terms of the whole graph: it does unless some
  operation uses its result (`Graph.isUsed`) and it is an expression. For graphs that were built step by
  step that is what the recorded uses say (`Formed.isUsed_eq`), by which a lift goes.
* `LiftState.leaves?` is the statement that an operation leaves in a sequence, `SequenceOf` says of a
  statement that it is the sequence of what the operations of a region leave, in their order, and
  `StepOf` which operation becomes the increment of a counting loop.
* `Structured g s o r` puts these together for each kind of operation: what the parts of the statement
  are that the operation became. It follows from what is known of operations that were lifted, once
  nothing is owed any more (`Settled.structured`), since only then do declarations have their bodies and
  initial values.
* `Graph.Walked` are the operations that a lift comes to: those at the top, and those in regions that
  are read (`Graph.readRegions`). All of them have been lifted (`Settled.lifted_of_walked`).

The main result is `Graph.lift_structured`: in a lift that succeeds, everything that the lift comes to
has been lifted, and what has been lifted has the control structure of its operation.
`Graph.lift_structured_choice` is a branch with something after it. -/

namespace Readback

open Step LiftState

namespace Graph

/-- Whether some operation of the graph has a result of the given one for an operand. -/
def isUsed (g : Graph) (op : OpId) : Bool :=
  g.operations.any fun q => q.operands.any fun v => v.definingOp? == some op

theorem Formed.isUsed_eq {g : Graph} (h : g.Formed) (op : OpId) : g.isUsed op = g.hasUses op := by
  rw [Bool.eq_iff_iff, h.hasUses_iff, isUsed, Array.any_eq_true']
  constructor
  · rintro ⟨q, hq, hv⟩
    obtain ⟨u, hu⟩ := Array.mem_iff_getElem?.mp hq
    obtain ⟨v, hv, hdef⟩ := List.any_eq_true.mp hv
    cases v with
    | result op' k =>
        cases eq_of_beq hdef
        exact ⟨u, q, k, hu, hv⟩
    | argument b k => cases eq_of_beq hdef
  · rintro ⟨u, q, k, hu, hv⟩
    exact ⟨q, Array.mem_iff_getElem?.mpr ⟨u, hu⟩,
      List.any_eq_true.mpr ⟨.result op k, hv, beq_self_eq_true _⟩⟩

/-- The regions whose operations are lifted along with the operation. -/
def readRegions (g : Graph) (o : Operation) : List RegionId :=
  match o.kind? with
  | none => o.regions[0]?.toList
  | some .translationUnit => o.regions
  | some .function | some .var => (g.filling? o).toList
  | some .expression => o.regions.head?.toList
  | some .ifStmt => o.regions[0]?.toList ++ o.regions[1]?.toList ++ (g.elseRegion? o).toList
  | some .whileStmt | some .doStmt => o.regions[0]?.toList ++ o.regions[1]?.toList
  | some .forStmt => o.regions[0]?.toList ++ o.regions[1]?.toList ++ o.regions[2]?.toList
  | _ => []

/-- The operations that a lift comes to: those at the top, and those in regions that are read. -/
inductive Walked (g : Graph) : OpId → Prop where
  | top {id} (mem : id ∈ g.topLevelOps) : Walked g id
  | inner {id o r j} (outer : Walked g id) (op : g.op? id = some o) (region : r ∈ g.readRegions o)
      (mem : j ∈ g.regionOps r) : Walked g j

end Graph

namespace LiftState

/-- The statement that an operation leaves in a sequence. An operation whose result is used leaves
none if it is an expression wrapper or became an expression. -/
def leaves? (g : Graph) (s : LiftState) (op : OpId) : Option StmtId :=
  (s.stmtOf? op).filter fun i =>
    !(g.isUsed op && (g.kind? op == some .expression || (s.program.asExpr? i).isSome))

/-- The statement is the sequence of what the operations of the region leave, in their order. -/
def SequenceOf (g : Graph) (s : LiftState) (r : RegionId) (i : StmtId) : Prop :=
  s.Lifted g r ∧ (s.program.stmt i).kind = .compound ((g.regionOps r).filterMap (s.leaves? g))

/-- Whether an operation other than a yield became an expression that nothing uses. -/
def isUnused (g : Graph) (s : LiftState) (op : OpId) : Bool :=
  !Lift.isYield g op && (s.exprOf? op).isSome && !g.isUsed op

/-- The increment is the node of the yield of the region if there is one, else that of the only
operation that nothing uses, and there are no two of them. -/
def StepOf (g : Graph) (s : LiftState) (r : RegionId) (inc : Option ExprId) : Prop :=
  s.Lifted g r ∧ s.Exprs ((g.regionOps r).filter (Lift.isYield g) ++
    (g.regionOps r).filter (s.isUnused g)) inc.toList

theorem ConditionOf.lifted {g : Graph} {s : LiftState} {r : RegionId} {c : Option ExprId}
    (h : s.ConditionOf g r c) : s.Lifted g r := by
  cases c with
  | none =>
      intro o ho
      rw [show g.regionOps r = [] from h] at ho
      cases ho
  | some e => exact h.2.1

end LiftState

/-- `Structured g s o r`: the operation `o` became `r`, which has the control structure of `o`. -/
def Structured (g : Graph) (s : LiftState) (o : Operation) (r : Option StmtId) : Prop :=
  match o.kind? with
  | some .function => ∃ d type params body locals, s.opDecl.get? o.id = some d ∧
      (s.program.decl d).kind = .function type params body locals ∧
      Option.Rel (s.SequenceOf g) (g.filling? o) body
  | some .ifStmt => ∃ i rc ry c y n, r = some i ∧ o.regions[0]? = some rc ∧
      o.regions[1]? = some ry ∧ (s.program.stmt i).kind = .ifElse c y n ∧ s.YieldOf g rc c ∧
      s.SequenceOf g ry y ∧ Option.Rel (s.SequenceOf g) (g.elseRegion? o) n
  | some .whileStmt => ∃ i rc rb c b, r = some i ∧ o.regions[0]? = some rc ∧
      o.regions[1]? = some rb ∧ (s.program.stmt i).kind = .whileLoop c b ∧ s.YieldOf g rc c ∧
      s.SequenceOf g rb b
  | some .doStmt => ∃ i rb rc b c, r = some i ∧ o.regions[0]? = some rb ∧
      o.regions[1]? = some rc ∧ (s.program.stmt i).kind = .doLoop b c ∧ s.YieldOf g rc c ∧
      s.SequenceOf g rb b
  | some .forStmt => ∃ i rc ri rb c inc b, r = some i ∧ o.regions[0]? = some rc ∧
      o.regions[1]? = some ri ∧ o.regions[2]? = some rb ∧
      (s.program.stmt i).kind = .forLoop none c inc b ∧ s.ConditionOf g rc c ∧
      s.StepOf g ri inc ∧ s.SequenceOf g rb b
  -- Scopes are the only operations without a kind that can be lifted.
  | none => ∃ i rb, r = some i ∧ o.regions[0]? = some rb ∧ s.SequenceOf g rb i
  | _ => True

section Structured

variable {g : Graph} {extra : List Task} {s : LiftState}

/-- What an operation leaves can be told from the graph. -/
theorem Inv.leaves?_eq (hform : g.Formed) (h : Inv g extra s) {op : OpId} {l : Option StmtId}
    (hl : s.opStmt.get? op = some l) :
    s.leaves? g op = if g.elides op then none else s.stmtOf? op := by
  obtain ⟨o, ho, hshown⟩ := h.shown op l hl
  unfold leaves? stmtOf?
  rw [hl, hform.isUsed_eq]
  cases l with
  | none => simp
  | some i =>
      have hel := hshown.isElided_eq ho
      unfold isElided at hel
      rw [Option.join_some, Option.filter_some, hel]
      cases g.elides op <;> rfl

theorem Inv.sequence_of_compound (hform : g.Formed) (h : Inv g extra s) {r : RegionId} {i : StmtId}
    (hc : s.CompoundOf g r i) : s.SequenceOf g r i := by
  obtain ⟨hl, _, hk⟩ := hc
  refine ⟨hl, hk.trans (congrArg _ (List.filterMap_congr fun o ho => ?_))⟩
  obtain ⟨l, hl⟩ := hl o ho
  exact (h.leaves?_eq hform hl).symm

theorem Inv.step_of_increment (hform : g.Formed) (h : Inv g extra s) {r : RegionId}
    {inc : Option ExprId} (hi : s.IncrementOf g r inc) : s.StepOf g r inc := by
  obtain ⟨hl, hes⟩ := hi
  have hsame : (g.regionOps r).filter g.isLoose = (g.regionOps r).filter (s.isUnused g) := by
    refine List.filter_congr fun op hop => ?_
    obtain ⟨l, hl⟩ := hl op hop
    rw [Graph.isLoose, isUnused, h.exprOf?_isSome hl, hform.isUsed_eq, Bool.and_assoc]
  exact ⟨hl, hsame ▸ hes⟩

/-- What an operation became has its control structure, once nothing is owed. -/
theorem Settled.structured (hform : g.Formed) (h : Settled g s) {id : OpId} {o : Operation}
    {r : Option StmtId} (ho : g.op? id = some o) (hr : s.opStmt.get? id = some r) :
    Structured g s o r := by
  obtain ⟨q, hq, hshown⟩ := h.shown id r hr
  cases hq.symm.trans ho
  have hseq : ∀ {r' i}, s.BranchOf g r' i → s.SequenceOf g r' i := fun hb =>
    h.sequence_of_compound hform hb.1
  cases hshown with
  | expr _ _ node =>
      have hexpr := node.isExpr
      unfold Structured
      cases hk : o.kind? with
      | none => simp [hk] at hexpr
      | some k => cases k <;> first | trivial | simp [hk, Kind.isExpr] at hexpr
  | stmt _ node =>
      unfold Structured
      cases node with
      | ifElse kind cond yes node condition branch other =>
          rw [kind]
          exact ⟨_, _, _, _, _, _, rfl, cond, yes, node, condition, hseq branch,
            relImp other fun _ _ hb => hseq hb⟩
      | whileLoop kind cond body node condition branch =>
          rw [kind]
          exact ⟨_, _, _, _, _, rfl, cond, body, node, condition, hseq branch⟩
      | doLoop kind body cond node condition branch =>
          rw [kind]
          exact ⟨_, _, _, _, _, rfl, body, cond, node, condition, hseq branch⟩
      | forLoop kind cond increment body node condition step branch =>
          rw [kind]
          exact ⟨_, _, _, _, _, _, _, rfl, cond, increment, body, node, condition,
            h.step_of_increment hform step, hseq branch⟩
      | scope kind _ region compound =>
          rw [kind]
          exact ⟨_, _, rfl, region, h.sequence_of_compound hform compound⟩
      | returns kind => rw [kind]; trivial
      | leaf kind => obtain ⟨kind, -⟩ | ⟨kind, -⟩ | ⟨kind, -⟩ := kind <;> rw [kind] <;> trivial
      | declares kind => obtain kind | kind := kind <;> rw [kind] <;> trivial
  | silent silent =>
      unfold Structured
      cases silent with
      | unit kind => rw [kind]; trivial
      | name kind => obtain kind | kind | kind | kind := kind <;> rw [kind] <;> trivial
      | @decl d kind noted =>
          obtain kind | kind | kind := kind
          · obtain rfl := hform.op_id id o ho
            obtain ⟨type, params, body, locals, hkind, hbody⟩ := h.function ho kind noted
            rw [kind]
            exact ⟨d, type, params, body, locals, noted, hkind, relImp hbody fun _ _ hb => hseq hb⟩
          · rw [kind]; trivial
          · rw [kind]; trivial

/-- The declaration of a variable that has been lifted. -/
theorem Inv.noted_of_var (h : Inv g extra s) {id : OpId} {o : Operation} {l : Option StmtId}
    (ho : g.op? id = some o) (hk : o.kind? = some .var) (hl : s.opStmt.get? id = some l) :
    ∃ d, s.opDecl.get? o.id = some d := by
  obtain ⟨q, hq, hshown⟩ := h.shown id l hl
  cases hq.symm.trans ho
  cases hshown with
  | expr _ _ node => simpa [hk, Kind.isExpr] using node.isExpr
  | stmt _ node =>
      cases node with
      | declares _ noted => exact ⟨_, noted⟩
      | _ => simp_all
  | silent silent =>
      cases silent with
      | decl _ noted => exact ⟨_, noted⟩
      | _ => simp_all

/-- The operations of the regions that are read have been lifted with their operation. -/
theorem Settled.lifted_region (hform : g.Formed) (h : Settled g s) {id : OpId} {o : Operation}
    {l : Option StmtId} {r : RegionId} (ho : g.op? id = some o) (hl : s.opStmt.get? id = some l)
    (hr : r ∈ g.readRegions o) : s.Lifted g r := by
  have hstruct := h.structured hform ho hl
  unfold Structured at hstruct
  unfold Graph.readRegions at hr
  split at hr
  · next hk =>
      rw [hk] at hstruct
      obtain ⟨i, rb, _, hrb, hseq⟩ := hstruct
      cases (Option.mem_toList.mp hr).symm.trans hrb
      exact hseq.1
  · next hk =>
      obtain ⟨q, hq, hshown⟩ := h.shown id l hl
      cases hq.symm.trans ho
      cases hshown with
      | expr _ _ node => simpa [hk, Kind.isExpr] using node.isExpr
      | stmt _ node => cases node <;> simp_all
      | silent silent =>
          cases silent with
          | unit _ lifted => exact lifted r hr
          | _ => simp_all
  · next hk =>
      rw [hk] at hstruct
      obtain ⟨d, type, params, body, locals, _, _, hbody⟩ := hstruct
      rw [Option.mem_toList.mp hr] at hbody
      cases hbody with
      | some hseq => exact hseq.1
  · next hk =>
      obtain ⟨d, hd⟩ := h.noted_of_var ho hk hl
      rw [hform.op_id id o ho] at hd
      obtain ⟨type, init, storage, _, hinit⟩ := h.var ho hk hd
      rw [Option.mem_toList.mp hr] at hinit
      cases hinit with
      | some hyield => exact hyield.1
  · next hk =>
      obtain ⟨q, hq, hshown⟩ := h.shown id l hl
      cases hq.symm.trans ho
      cases hshown with
      | expr _ _ node =>
          obtain ⟨r', y, hr', hlifted, _⟩ := node.of_wrapper hk
          cases (Option.mem_toList.mp hr).symm.trans hr'
          exact hlifted
      | stmt _ node => simpa [hk, Kind.isExpr] using node.not_expr.2
      | silent silent => simpa [hk, Kind.isExpr] using silent.not_expr
  · next hk =>
      rw [hk] at hstruct
      obtain ⟨i, rc, ry, c, y, n, _, hrc, hry, _, hc, hy, hn⟩ := hstruct
      simp only [List.mem_append, Option.mem_toList, hrc, hry] at hr
      obtain (hr | hr) | hr := hr
      · cases hr
        exact hc.1
      · cases hr
        exact hy.1
      · rw [hr] at hn
        cases hn with
        | some hseq => exact hseq.1
  · next hk =>
      rw [hk] at hstruct
      obtain ⟨i, rc, rb, c, b, _, hrc, hrb, _, hc, hseq⟩ := hstruct
      simp only [List.mem_append, Option.mem_toList, hrc, hrb] at hr
      obtain hr | hr := hr
      · cases hr
        exact hc.1
      · cases hr
        exact hseq.1
  · next hk =>
      rw [hk] at hstruct
      obtain ⟨i, rb, rc, b, c, _, hrb, hrc, _, hc, hseq⟩ := hstruct
      simp only [List.mem_append, Option.mem_toList, hrc, hrb] at hr
      obtain hr | hr := hr
      · cases hr
        exact hseq.1
      · cases hr
        exact hc.1
  · next hk =>
      rw [hk] at hstruct
      obtain ⟨i, rc, ri, rb, c, inc, b, _, hrc, hri, hrb, _, hc, hstep, hseq⟩ := hstruct
      simp only [List.mem_append, Option.mem_toList, hrc, hri, hrb] at hr
      obtain (hr | hr) | hr := hr
      · cases hr
        exact hc.lifted
      · cases hr
        exact hstep.1
      · cases hr
        exact hseq.1
  · cases hr

/-- Everything that a lift comes to has been lifted. -/
theorem Settled.lifted_of_walked (hform : g.Formed) (h : Settled g s) {id : OpId}
    (hw : g.Walked id) : ∃ r, s.opStmt.get? id = some r := by
  induction hw with
  | top mem => exact h.topLevel _ mem
  | inner _ op region mem ih =>
      obtain ⟨l, hl⟩ := ih
      exact h.lifted_region hform op hl region _ mem

end Structured

/-- In a lift that succeeds, everything that the lift comes to has been lifted, and what has been
lifted has the control structure of its operation. -/
theorem Graph.lift_structured {g : Graph} (hg : g.Built) (naming : Naming) (c : LiftConfig)
    {s : LiftState} (h : g.lift naming c = (.ok (), s)) :
    (∀ id, g.Walked id → ∃ r, s.opStmt.get? id = some r) ∧
      ∀ id o r, g.op? id = some o → s.opStmt.get? id = some r → Structured g s o r := by
  have hs := Graph.lift_settled hg h
  exact ⟨fun id hw => hs.lifted_of_walked hg.formed hw,
    fun id o r ho hr => hs.structured hg.formed ho hr⟩

/-- A function with a branch, both parts of which return, and a constant after it that nothing uses.
-/
def choice : Graph :=
  .build .empty
    [.internType (.integer .int none), .internType (.function [0] [0]),
      .createOperation 0 ((OpSpec.ofKind .function).withAttr AttrName.symName (.text "choice")
        |>.withAttr AttrName.functionType (.type 1)),
      .createRegion 0, .createBlock 1 [0],
      .createOperation 1 (OpSpec.ofKind .ifStmt),
      .createRegion 1, .createRegion 1, .createRegion 1,
      .createBlock 2 [], .createBlock 3 [], .createBlock 4 [],
      .createOperation 2 ((OpSpec.ofKind .condYield).withOperands [.argument 1 0]),
      .createOperation 3 ((OpSpec.ofKind .constant).withResults [0]
        |>.withAttr AttrName.value (.integer 1)),
      .createOperation 3 ((OpSpec.ofKind .returnStmt).withOperands [.result 3 0]),
      .createOperation 4 ((OpSpec.ofKind .constant).withResults [0]
        |>.withAttr AttrName.value (.integer 2)),
      .createOperation 4 ((OpSpec.ofKind .returnStmt).withOperands [.result 5 0]),
      .createOperation 1 ((OpSpec.ofKind .constant).withResults [0]
        |>.withAttr AttrName.value (.integer 3))]

/-- A branch and what follows it. -/
theorem Graph.lift_structured_choice :
    ∃ s, choice.lift .standard (.forTarget .host) = (.ok (), s) ∧
      (∀ id, choice.Walked id → ∃ r, s.opStmt.get? id = some r) ∧
      (∀ id o r, choice.op? id = some o → s.opStmt.get? id = some r → Structured choice s o r) ∧
      choice.kind? 1 = some .ifStmt ∧ s.leaves? choice 3 = none ∧
      (s.leaves? choice 7).isSome = true := by
  have hlift : (choice.lift .standard (.forTarget .host)).1 = .ok () := by decide +kernel
  have hs := Graph.lift_eq_of_fst hlift
  obtain ⟨hwalked, hstruct⟩ :=
    Graph.lift_structured (built_build _ _) .standard (.forTarget .host) hs
  exact ⟨_, hs, hwalked, hstruct, by decide +kernel, by decide +kernel, by decide +kernel⟩

end Readback
