import Readback.Graph.Builder
import Readback.Proofs.Lift.References

/-! # Nesting of expressions

A graph says which value uses which, one operation at a time. A lift that succeeds has rebuilt the
nesting of expressions from that: the operands of every expression stand for the values that its
operation uses, in their order (`Graph.lift_reconstructs`).

`Nested g s v x` says that the expression `x` stands for the value `v`, up to one pair of parentheses,
which are put where precedence asks for them. What a value is in the program is `Res`: the node of the
operation behind it, or a reference to the declaration behind it. `Reconstructed` goes through the forms
of expressions (`Form`) and says for each how its parts come from the values of its operation. Binary
operators take the first two operands and unary ones the first; calls and initializer lists take all.
A symbol is the declaration that is meant where the operation stands (`LiftState.Meant`).

Operands beyond those that an operator takes are not looked at
(`Graph.lift_drops_third_operand`). -/

namespace Readback

open Step LiftState

/-- `Nested g s v x`: the expression `x` stands for the value `v`, up to one pair of parentheses. -/
def Nested (g : Graph) (s : LiftState) (v : Value) (x : ExprId) : Prop :=
  ∃ e, Res g s v e ∧ (x = e ∨ (s.program.expr x).kind = .paren e)

/-- `Reconstructed env s o e f`: the expression `e` is made in the form `f` from the values that the
operation `o` uses. -/
def Reconstructed (env : LiftEnv) (s : LiftState) (o : Operation) (e : ExprId) : Form → Prop
  -- Arithmetic, comparisons and assignments apply an operator to the first two operands.
  | .binary => ∃ op v w l r, o.binaryOp? = some op ∧ o.operands[0]? = some v ∧
      o.operands[1]? = some w ∧ (s.program.expr e).kind = .binary op l r ∧
      Nested env.graph s v l ∧ Nested env.graph s w r
  | .unary => ∃ op v x, o.unaryOp? = some op ∧ o.operands[0]? = some v ∧
      (s.program.expr e).kind = .unary op x ∧ Nested env.graph s v x
  -- A cast has the lifted result type and stands for a location exactly if that type is one.
  | .cast => ∃ style c id v x, o.castStyle? = some style ∧
      o.attr? AttrName.kind = some (.conversion c) ∧ o.resultTypes.head? = some id ∧
      o.operands[0]? = some v ∧ (s.program.expr e).kind = .cast style c x ∧
      Nested env.graph s v x ∧ Lift.type env id s = .ok (s.program.expr e).type s ∧
      ((s.program.expr e).category = .lvalue ↔
        (env.graph.types.get? id).any Shape.isLvalue = true)
  | .call => ∃ sym d f xs, o.textAttr? AttrName.callee = some sym ∧ s.Meant env.graph o.id sym d ∧
      (s.program.expr e).kind = .call f xs ∧ (s.program.expr f).kind = .ref d ∧
      List.Forall₂ (Nested env.graph s) o.operands xs
  | .initList => ∃ xs, (s.program.expr e).kind = .initList xs ∧
      List.Forall₂ (Nested env.graph s) o.operands xs
  | .symbol => ∃ attr sym d, o.textAttr? attr = some sym ∧ s.Meant env.graph o.id sym d ∧
      (s.program.expr e).kind = .ref d
  | .constant => (s.program.expr e).kind.parts = []
  -- References and yields have no node of their own.
  | .passed => ∃ v, o.operands[0]? = some v ∧ Res env.graph s v e
  | .wrapper => ∃ r y q v, o.regions.head? = some r ∧
      (env.graph.regionOps r).filter (Lift.isYield env.graph) = [y] ∧ env.graph.op? y = some q ∧
      q.operands[0]? = some v ∧ Res env.graph s v e
  | .none => False

theorem Operand.nested {g : Graph} {s : LiftState} {v : Value} {x : ExprId} (h : Operand g s v x) :
    Nested g s v x := by
  obtain ⟨e, huse, rfl | ⟨_, hk⟩⟩ := h
  · exact ⟨x, huse.1, .inl rfl⟩
  · exact ⟨e, huse.1, .inr hk⟩

/-! ### Lifted expressions -/

/-- A type that has been lifted is found again. -/
theorem Lift.type_of_get? (env : LiftEnv) {s : LiftState} {id : TypeId} {type : QualType}
    (h : s.typeOf.get? id = some type) : Lift.type env id s = .ok type s := by
  unfold Lift.type
  cases env.graph.types.size <;>
    · unfold Lift.typeAux
      refine bind_eq_ok.mpr ⟨s, s, rfl, ?_⟩
      rw [h]
      rfl

section Reconstructed

variable {env : LiftEnv} {extra : List Task} {s : LiftState} {o : Operation} {e : ExprId}

theorem ExprNode.reconstructed (env : LiftEnv) (h : Inv env.graph extra s)
    (hn : ExprNode env.graph s o e) (he : e < s.program.exprs.size)
    (meant : ∀ name d, o.cited? = some name → s.Cites e d → s.Named env.graph name d →
      s.Meant env.graph o.id name d) :
    ∃ k, o.kind? = some k ∧ Reconstructed env s o e k.form := by
  have nested : ∀ {vs xs}, List.Forall₂ (Operand env.graph s) vs xs →
      List.Forall₂ (Nested env.graph s) vs xs := fun h => h.imp fun _ _ h => h.nested
  cases hn with
  | same kind operand res => obtain kind | kind | kind := kind <;> exact ⟨_, kind, _, operand, res⟩
  | wrapper kind region _ yields yield node =>
      obtain ⟨q, hq, hqk⟩ := Option.bind_eq_some_iff.mp yield
      obtain ⟨v, hv, hres⟩ := (h.exprNode hq node).of_yield hqk
      exact ⟨_, kind, _, _, q, v, region, yields, hq, hv, hres⟩
  | @symbol attr sym d kind name named node =>
      have hmeant := meant sym d (o.cited?_of_symbol kind name) ⟨he, .inl node⟩ named
      obtain ⟨kind, -⟩ | ⟨kind, -⟩ := kind <;> exact ⟨_, kind, _, _, _, name, hmeant, node⟩
  | constant kind node => exact ⟨_, kind, node⟩
  | binary operator lhs rhs node left right =>
      obtain ⟨k, hk, hform⟩ := Operation.form_of_binaryOp? operator
      refine ⟨k, hk, ?_⟩
      rw [hform]
      exact ⟨_, _, _, _, _, operator, lhs, rhs, node, left.nested, right.nested⟩
  | unary operator arg node operand =>
      obtain ⟨k, hk, hform⟩ := Operation.form_of_unaryOp? operator
      refine ⟨k, hk, ?_⟩
      rw [hform]
      exact ⟨_, _, _, operator, arg, node, operand.nested⟩
  | cast style conversion result arg node operand type category =>
      obtain ⟨k, hk, hform⟩ := Operation.form_of_castStyle? style
      refine ⟨k, hk, ?_⟩
      rw [hform]
      exact ⟨_, _, _, _, _, style, conversion, result, arg, node, operand.nested,
        Lift.type_of_get? env type, category⟩
  | @call sym d f xs kind name named node own callee args =>
      have hmeant := meant sym d (o.cited?_of_call kind name)
        ⟨he, .inr ⟨f, xs, node, own.1, callee⟩⟩ named
      exact ⟨_, kind, _, _, _, _, name, hmeant, node, callee, nested args⟩
  | initList kind _ node elements => exact ⟨_, kind, _, node, nested elements⟩

end Reconstructed

/-- In a lift that succeeds, every operation that became an expression is made in the form of its
kind from the values that it uses. -/
theorem Graph.lift_reconstructs {g : Graph} (hg : g.Built) (naming : Naming) (c : LiftConfig)
    {s : LiftState} (h : g.lift naming c = (.ok (), s)) {id : OpId} {o : Operation} {e : ExprId}
    (ho : g.op? id = some o) (he : s.exprOf? id = some e) :
    ∃ k, o.kind? = some k ∧ Reconstructed ⟨g, naming, c.showOps⟩ s o e k.form := by
  have hs := Graph.lift_settled hg h
  have hid : o.id = id := hg.formed.op_id id o ho
  obtain ⟨i, -, htwin⟩ := exprOf?_eq_some.mp he
  refine ExprNode.reconstructed ⟨g, naming, c.showOps⟩ hs.toInv (hs.exprNode ho he)
    ((hs.twinned i e).mp htwin).1 fun name d hname hcites hnamed => ?_
  rw [hid]
  exact Graph.lift_meant hg h ho he hname hcites hnamed

/-- A function that adds one to its parameter. -/
def successor : Graph :=
  .build .empty
    [.internType (.integer .int none), .internType (.function [0] [0]),
      .createOperation 0 ((OpSpec.ofKind .function).withAttr AttrName.symName (.text "successor")
        |>.withAttr AttrName.functionType (.type 1)),
      .createRegion 0, .createBlock 1 [0],
      .createOperation 1 ((OpSpec.ofKind .constant).withResults [0]
        |>.withAttr AttrName.value (.integer 1)),
      .createOperation 1 ((OpSpec.ofKind .add).withOperands [.argument 1 0, .result 1 0]
        |>.withResults [0]),
      .createOperation 1 ((OpSpec.ofKind .returnStmt).withOperands [.result 2 0])]

/-- The sum of a parameter and a constant. -/
theorem Graph.lift_reconstructs_successor :
    ∃ s o e, successor.lift .standard (.forTarget .host) = (.ok (), s) ∧ successor.op? 2 = some o ∧
      s.exprOf? 2 = some e ∧ o.kind? = some .add ∧
      Reconstructed ⟨successor, .standard, true⟩ s o e .binary := by
  have hlift : (successor.lift .standard (.forTarget .host)).1 = .ok () := by decide +kernel
  have hop : (successor.op? 2).isSome := by decide +kernel
  have hexpr : ((successor.lift .standard (.forTarget .host)).2.exprOf? 2).isSome := by decide +kernel
  have hkind : successor.kind? 2 = some .add := by decide +kernel
  obtain ⟨o, ho⟩ := Option.isSome_iff_exists.mp hop
  obtain ⟨e, he⟩ := Option.isSome_iff_exists.mp hexpr
  have hk : o.kind? = some .add := by simpa [Graph.kind?, ho] using hkind
  have hs := Graph.lift_eq_of_fst hlift
  obtain ⟨k, hk', hrec⟩ := Graph.lift_reconstructs (built_build _ _) .standard (.forTarget .host) hs ho he
  cases hk.symm.trans hk'
  exact ⟨_, o, e, hs, ho, he, hk, hrec⟩

/-- An addition with three operands. -/
def threefold : Graph :=
  .build .empty
    [.internType (.integer .int none),
      .createOperation 0 ((OpSpec.ofKind .constant).withResults [0]
        |>.withAttr AttrName.value (.integer 1)),
      .createOperation 0 ((OpSpec.ofKind .constant).withResults [0]
        |>.withAttr AttrName.value (.integer 2)),
      .createOperation 0 ((OpSpec.ofKind .constant).withResults [0]
        |>.withAttr AttrName.value (.integer 3)),
      .createOperation 0 ((OpSpec.ofKind .add).withResults [0]
        |>.withOperands [.result 0 0, .result 1 0, .result 2 0])]

/-- Operands beyond those that an operator takes are not looked at: the lift of an addition with
three operands succeeds, and its expression has no part for the third. -/
theorem Graph.lift_drops_third_operand :
    threefold.Built ∧ ∃ s o e, threefold.lift .standard (.forTarget .host) = (.ok (), s) ∧
      threefold.op? 3 = some o ∧ o.kind? = some .add ∧ s.exprOf? 3 = some e ∧
      ¬ List.Forall₂ (Nested threefold s) o.operands (s.program.expr e).kind.parts := by
  have hlift : (threefold.lift .standard (.forTarget .host)).1 = .ok () := by decide +kernel
  have hop : (threefold.op? 3).map (·.operands.length) = some 3 := by decide +kernel
  have hexpr : ((threefold.lift .standard (.forTarget .host)).2.exprOf? 3).map (fun e =>
      ((threefold.lift .standard (.forTarget .host)).2.program.expr e).kind.parts.length) = some 2 := by
    decide +kernel
  have hkind : threefold.kind? 3 = some .add := by decide +kernel
  obtain ⟨o, ho, hlen⟩ := Option.map_eq_some_iff.mp hop
  obtain ⟨e, he, hparts⟩ := Option.map_eq_some_iff.mp hexpr
  have hk : o.kind? = some .add := by simpa [Graph.kind?, ho] using hkind
  refine ⟨built_build _ _, _, o, e, Graph.lift_eq_of_fst hlift, ho, hk, he, fun h => ?_⟩
  have := h.length_eq
  rw [hlen, hparts] at this
  cases this

end Readback
