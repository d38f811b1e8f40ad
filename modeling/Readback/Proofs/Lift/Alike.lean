import Readback.Proofs.Graph.Walk
import Readback.Proofs.Lift.Likeness
import Readback.Proofs.Lift.Run

/-! # Lifts that run alike

If the steps of a lift respect a likeness (`Likeness.Respected`), then so do its rules: from alike
states, lifting an operation that is compared gives alike statements on both sides, or fails on both.

The module goes through the rules in the order of the lift. Each lemma `..._runs` is about the rule of
that name and says that it runs alike (`Likeness.Runs`), given that what it lifts along does:

* `operation_bind`, `operand_bind`, `resultType_bind` and `region_bind` read the two graphs, which show
  the same of a compared operation, so that both sides go on with the same data or both fail alike. The
  failures that list the operation are the same by `malformed_eq`, `noRule_eq` and `shown_eq`.
* Values and expressions (`value_runs`, `operandValue_runs`, `simpleExpr_runs`) are found in tables that
  hold alike nodes. What was found stays alike when the states grow (`expr?_mono`, `stmt?_mono`,
  `scope_mono`).
* Regions are lifted by walking over the same operations (`Covered`): their statements (`stmts_runs`,
  `compound_runs`), their yields (`yields_runs`, `yielded_runs`) and the structured statements over
  them.
* Declarations are made, listed, noted and registered (`declare_bind`), and put their fillers off.

`rule_runs` joins the rules. `Likeness.opAux_lifts` is the induction over nested operations: two lifts
of one operation run alike if the bounds on the depth are the same, or both are enough. Tasks are
carried out alike (`body_runs`, `init_runs`), and two queues are drained alike if their tasks are
(`drain_together`).

No rule is opened again for a particular likeness: the uses of this module, a lift with a unit around
everything and two lifts that run in tandem, only show that the steps respect theirs. -/

namespace Readback

open Step Lift

namespace Likeness

variable {env env' : LiftEnv} {L : Likeness env env'} (hL : L.Respected) {α α' : Type} {w : Twin}

/-! ### Compared operations -/

section Operations

variable {id : OpId} {o o' : Operation} {V : Twin → α → α' → Prop}

theorem Shares.kind? (h : L.Shares id o o') : o'.kind? = o.kind? := by
  obtain ⟨b, rfl⟩ := h.alike
  rfl

include hL

theorem kind?_eq (h : L.covers id) : env'.graph.kind? id = env.graph.kind? id := by
  have hop := hL.op h
  unfold Graph.kind?
  cases ho : env.graph.op? id with
  | none =>
      rw [ho] at hop
      cases ho' : env'.graph.op? id with
      | none => rfl
      | some o' => rw [ho'] at hop; cases hop
  | some o =>
      rw [ho] at hop
      cases ho' : env'.graph.op? id with
      | none => rw [ho'] at hop; cases hop
      | some o' =>
          rw [ho'] at hop
          cases hop with
          | some halike => exact Shares.kind? (L := L) ⟨h, ho, ho', halike⟩

/-- Both graphs hold alike operations at the position, or neither holds one. -/
theorem operation_bind {f : Operation → Lift α} {f' : Operation → Lift α'} (h : L.covers id)
    (hf : ∀ o o', L.Shares id o o' → L.Runs w (f o) (f' o') V) :
    L.Runs w (operation env id >>= f) (operation env' id >>= f') V := by
  have hop := hL.op h
  unfold operation
  cases ho : env.graph.op? id with
  | none =>
      rw [ho] at hop
      cases ho' : env'.graph.op? id with
      | none => exact .throw fun _ => rfl
      | some o' => rw [ho'] at hop; cases hop
  | some o =>
      rw [ho] at hop
      cases ho' : env'.graph.op? id with
      | none => rw [ho'] at hop; cases hop
      | some o' =>
          rw [ho'] at hop
          cases hop with
          | some halike => exact hf o o' ⟨h, ho, ho', halike⟩

theorem malformed_eq (h : L.Shares id o o') (message : String) (hs : L.strict) :
    env.malformed o message = env'.malformed o' message := by
  rw [LiftEnv.malformed, LiftEnv.malformed, hL.dump hs h]
  obtain ⟨b, rfl⟩ := h.alike
  rfl

theorem noRule_eq (h : L.Shares id o o') (hs : L.strict) : env.noRule o = env'.noRule o' := by
  rw [LiftEnv.noRule, LiftEnv.noRule, hL.dump hs h]
  obtain ⟨b, rfl⟩ := h.alike
  rfl

theorem shown_eq (h : L.Shares id o o') (hs : L.strict) : env.shown o = env'.shown o' := by
  rw [LiftEnv.shown, LiftEnv.shown, hL.dump hs h]
  obtain ⟨b, rfl⟩ := h.alike
  rfl

theorem operand_bind {f : Value → Lift α} {f' : Value → Lift α'} (h : L.Shares id o o') {index : Nat}
    (hf : ∀ v ∈ o.operands, L.Runs w (f v) (f' v) V) :
    L.Runs w (operand env o index >>= f) (operand env' o' index >>= f') V := by
  have hmalformed := malformed_eq hL h ("missing operand " ++ toString index)
  obtain ⟨b, rfl⟩ := h.alike
  unfold operand
  dsimp only
  split
  · next v hv => exact hf v (List.mem_of_getElem? hv)
  · exact .throw hmalformed

theorem resultType_bind {f : TypeId → Lift α} {f' : TypeId → Lift α'} (h : L.Shares id o o')
    (hf : ∀ t, L.Runs w (f t) (f' t) V) :
    L.Runs w (resultType env o >>= f) (resultType env' o' >>= f') V := by
  have hmalformed := malformed_eq hL h "operation produces no value"
  obtain ⟨b, rfl⟩ := h.alike
  unfold resultType
  dsimp only
  split
  · next t _ => exact hf t
  · exact .throw hmalformed

theorem region_bind {f : RegionId → Lift α} {f' : RegionId → Lift α'} (h : L.Shares id o o')
    {index : Nat} {what : String}
    (hf : ∀ r, o.regions[index]? = some r → env'.graph.regionOps r = env.graph.regionOps r →
      L.Runs w (f r) (f' r) V) :
    L.Runs w (region env o index what >>= f) (region env' o' index what >>= f') V := by
  have hmalformed := malformed_eq hL h ("missing " ++ what ++ " region")
  have hregion {r : RegionId} := hL.region (r := r) h
  obtain ⟨b, rfl⟩ := h.alike
  unfold region
  dsimp only
  split
  · next r hr => exact hf r hr (hregion (List.mem_of_getElem? hr)).2
  · exact .throw hmalformed

theorem chooseName_runs (h : L.Shares id o o') (role : NameRole) (index : Nat) :
    L.Runs w (chooseName env role o index) (chooseName env' role o' index) fun _ n n' => n' = n := by
  unfold chooseName
  dsimp only
  rw [hL.naming h]
  exact .bind (hL.name w role _) fun _ _ _ _ _ => .pure rfl

/-! ### Values and expressions -/

section Values

variable (h : L.Shares id o o') (hdecl : o.isDeclaration = false)

include h hdecl

theorem value_runs {v : Value} (hv : v ∈ o.operands) : L.Runs w (value v) (value v) L.expr := by
  refine .get_bind fun hw => ?_
  have hd := hL.declared hw h hdecl hv
  have he := hL.source hw h hdecl hv
  have ha := hL.argument hw h hdecl hv
  generalize v.definingOp?.bind w.1.opDecl.get? = d at hd
  generalize v.definingOp?.bind w.2.opDecl.get? = d' at hd
  generalize v.definingOp?.bind w.1.exprOf? = e at he
  generalize v.definingOp?.bind w.2.exprOf? = e' at he
  generalize w.1.argDecl.get? v = a at ha
  generalize w.2.argDecl.get? v = a' at ha
  cases hd with
  | some hd => exact hL.declRef hd
  | none =>
      cases he with
      | some he => exact .pure he
      | none =>
          cases ha with
          | some ha => exact hL.declRef ha
          | none => exact .throw fun _ => rfl

theorem operandValue_runs (index : Nat) :
    L.Runs w (operandValue env o index) (operandValue env' o' index) L.expr :=
  operand_bind hL h fun _ hv => value_runs hL h hdecl hv

theorem values_runs : L.Runs w (o.operands.mapM value) (o'.operands.mapM value)
    fun v => List.Forall₂ (L.expr v) := by
  have hvalue {v : Value} (hv : v ∈ o.operands) (u : Twin) := value_runs hL (w := u) h hdecl hv
  obtain ⟨b, rfl⟩ := h.alike
  exact .mapM hL.expr_mono fun v hv u _ => hvalue hv u

theorem symbolRef_runs (name : String) :
    L.Runs w (symbolRef env o name) (symbolRef env' o' name) L.expr := by
  have hmalformed := malformed_eq hL h ("missing symbol attribute '" ++ name ++ "'")
  refine Runs.bind (V := L.decl) ?_ fun d d' v _ hd => hL.declRef hd
  unfold symbol
  have htext : o'.textAttr? name = o.textAttr? name := by
    obtain ⟨b, rfl⟩ := h.alike
    rfl
  rw [htext]
  cases o.textAttr? name with
  | none => exact .throw hmalformed
  | some s =>
      refine .get_bind fun hw => ?_
      have hs := hL.symbol hw h hdecl s
      generalize w.1.symbols.get? s = d at hs
      generalize w.2.symbols.get? s = d' at hs
      cases hs with
      | some hd => exact .pure hd
      | none => exact .throw fun _ => rfl

theorem binary_runs (op : BinaryOp) : L.Runs w (binary env o op) (binary env' o' op) L.expr :=
  operand_bind hL h fun _ hl => operand_bind hL h fun _ hr =>
    .bind (value_runs hL h hdecl hl) fun _ _ _ _ hl =>
    .bind (value_runs hL h hdecl hr) fun _ _ _ hv hr => hL.binary op (hL.expr_mono hv hl) hr

theorem compare_runs : L.Runs w (Lift.compare env o) (Lift.compare env' o') L.expr := by
  have hmalformed := malformed_eq hL h "comparison without a predicate"
  have hbinary (p : Predicate) := binary_runs hL (w := w) h hdecl p.operator
  obtain ⟨b, rfl⟩ := h.alike
  unfold Lift.compare
  dsimp only [Operation.attr?]
  split
  · exact hbinary _
  · exact .throw hmalformed

omit hdecl in
theorem constant_runs : L.Runs w (constant env o) (constant env' o') L.expr := by
  have hmalformed := malformed_eq hL h "constant without a value"
  have hshown := shown_eq hL h
  have hattr : o'.attr? AttrName.value = o.attr? AttrName.value := by
    obtain ⟨b, rfl⟩ := h.alike
    rfl
  unfold constant
  rw [hattr]
  split
  · exact .throw hmalformed
  · exact resultType_bind hL h fun t => .bind (hL.type w t) fun _ _ _ _ ht => hL.integer _ ht
  · exact resultType_bind hL h fun t => .bind (hL.type w t) fun _ _ _ _ ht => hL.floating _ ht
  · exact hL.text w _
  · exact .throw fun hs => by rw [hshown hs]

theorem cast_runs (style : CastStyle) :
    L.Runs w (Lift.cast env o style) (Lift.cast env' o' style) L.expr := by
  have hmalformed := malformed_eq hL h "cast without a kind"
  have hshown := shown_eq hL h
  have hattr : o'.attr? AttrName.kind = o.attr? AttrName.kind := by
    obtain ⟨b, rfl⟩ := h.alike
    rfl
  unfold Lift.cast
  rw [hattr, hL.types]
  split
  · refine .guard .rfl (fun hs => by rw [hshown hs]) fun _ => resultType_bind hL h fun t => ?_
    exact .bind (hL.type w t) fun _ _ _ _ ht =>
      .bind (operandValue_runs hL h hdecl 0) fun _ _ _ hv he =>
        hL.cast style _ _ (hL.type_mono hv ht) he
  · exact .throw hmalformed

theorem call_runs : L.Runs w (call env o) (call env' o') L.expr := by
  refine .guard ?_ (malformed_eq hL h _) fun _ => ?_
  · obtain ⟨b, rfl⟩ := h.alike
    rfl
  · exact .bind (symbolRef_runs hL h hdecl _) fun _ _ _ _ hf =>
      .bind (values_runs hL h hdecl) fun _ _ _ hv hargs => hL.call (hL.expr_mono hv hf) hargs

theorem initList_runs : L.Runs w (initList env o) (initList env' o') L.expr :=
  resultType_bind hL h fun t => .bind (hL.type w t) fun _ _ _ _ ht =>
    .bind (values_runs hL h hdecl) fun _ _ _ hv hes => hL.initList (hL.type_mono hv ht) hes

theorem simpleExpr_runs (kind : Kind) :
    L.Runs w (simpleExpr env o kind) (simpleExpr env' o' kind) L.expr := by
  unfold simpleExpr
  split
  · exact operandValue_runs hL h hdecl 0
  · exact operandValue_runs hL h hdecl 0
  · exact operandValue_runs hL h hdecl 0
  · exact symbolRef_runs hL h hdecl _
  · exact symbolRef_runs hL h hdecl _
  · exact call_runs hL h hdecl
  · exact constant_runs hL h
  · exact initList_runs hL h hdecl
  · exact cast_runs hL h hdecl _
  · exact cast_runs hL h hdecl _
  · exact compare_runs hL h hdecl
  · split
    · exact binary_runs hL h hdecl _
    · exact .bind (operandValue_runs hL h hdecl 0) fun _ _ _ _ he => hL.unary _ he
    · exact .throw (noRule_eq hL h)

theorem returns_runs {sc sc' : Scope} (hsc : L.scope w sc sc') :
    L.Runs w (returns env sc o) (returns env' sc' o') L.stmt := by
  have houtside := malformed_eq hL h "return outside of a function"
  have hmalformed := malformed_eq hL h "return with more than one operand"
  have hvalue {v : Value} (hv : v ∈ o.operands) := value_runs hL (w := w) h hdecl hv
  obtain ⟨b, rfl⟩ := h.alike
  match sc, sc', hsc with
  | .file, .file, _ => exact .throw houtside
  | .function f, .function f', ⟨_, hf⟩ =>
      unfold returns
      dsimp only
      generalize o.operands = vs at hvalue
      have result {e e' : Option ExprId} {v : Twin} (hv : L.leads w v) (he : Option.Rel (L.expr v) e e') :=
        hL.returns (hL.noted_mono hv hf) he
      rcases vs with _ | ⟨v, _ | ⟨_, _⟩⟩
      · exact Runs.bind (V := fun v => Option.Rel (L.expr v)) (.pure .none)
          fun _ _ _ hv he => result hv he
      · exact Runs.bind (V := fun v => Option.Rel (L.expr v))
          (.map ((hvalue List.mem_cons_self).imp fun _ _ _ _ he => .some he))
          fun _ _ _ hv he => result hv he
      · exact Runs.bind (V := fun _ _ _ => False) (.throw hmalformed) fun _ _ _ _ he => he.elim

end Values

/-! ### Regions -/

/-- Lifting the operation in alike scopes gives alike statements, or none on either side. -/
def Lifts (L : Likeness env env') (lift lift' : OpLifter) (id : OpId) : Prop :=
  ∀ w sc sc', L.scope w sc sc' → L.Runs w (lift sc id) (lift' sc' id) fun v => Option.Rel (L.stmt v)

omit hL in
theorem asExpr_isSome {s s' : Option ExprId} {r : ExprId → ExprId → Prop} (h : Option.Rel r s s') :
    s'.isSome = s.isSome := by
  cases h <;> rfl

include hL in
theorem expr?_mono {v : Twin} {e e' : Option ExprId} (hv : L.leads w v)
    (h : Option.Rel (L.expr w) e e') : Option.Rel (L.expr v) e e' := by
  cases h with
  | none => exact .none
  | some he => exact .some (hL.expr_mono hv he)

include hL in
theorem stmt?_mono {v : Twin} {s s' : Option StmtId} (hv : L.leads w v)
    (h : Option.Rel (L.stmt w) s s') : Option.Rel (L.stmt v) s s' := by
  cases h with
  | none => exact .none
  | some hs => exact .some (hL.stmt_mono hv hs)

include hL in
theorem scope_mono {v : Twin} {sc sc' : Scope} (hv : L.leads w v) (h : L.scope w sc sc') :
    L.scope v sc sc' := by
  match sc, sc', h with
  | .file, .file, h => exact h
  | .function _, .function _, ⟨id, hf⟩ => exact ⟨id, hL.noted_mono hv hf⟩

/-- The region lists the same operations on both sides, which are compared and lifted alike. -/
structure Covered (L : Likeness env env') (lift lift' : OpLifter) (r : RegionId) : Prop where
  same : env'.graph.regionOps r = env.graph.regionOps r
  covers : ∀ c ∈ env.graph.regionOps r, L.covers c
  lifts : ∀ c ∈ env.graph.regionOps r, L.Lifts lift lift' c

section Regions

variable {lift lift' : OpLifter} {sc sc' : Scope} {r : RegionId}

include hL

theorem stmts_runs {ops : List OpId} (hcovers : ∀ c ∈ ops, L.covers c)
    (hlift : ∀ c ∈ ops, L.Lifts lift lift' c) (hsc : L.scope w sc sc') :
    L.Runs w (stmts env lift sc ops) (stmts env' lift' sc' ops) fun v => List.Forall₂ (L.stmt v) := by
  induction ops generalizing w with
  | nil => exact .pure .nil
  | cons op rest ih =>
      have hrest {v : Twin} (hv : L.leads w v) :=
        ih (fun c hc => hcovers c (List.mem_cons_of_mem op hc))
          (fun c hc => hlift c (List.mem_cons_of_mem op hc)) (scope_mono hL hv hsc)
      refine .bind (hlift op List.mem_cons_self w sc sc' hsc) fun s s' v hv hs => ?_
      cases hs with
      | none => exact hrest hv
      | some hs =>
          refine .get_bind fun hstate => ?_
          have helided := asExpr_isSome (hL.asExpr hstate hs)
          refine .bind (hrest hv) fun others others' u hu hothers => ?_
          unfold isElided
          rw [hL.hasUses (hcovers op List.mem_cons_self), kind?_eq hL (hcovers op List.mem_cons_self),
            helided]
          split
          · exact .pure hothers
          · exact .pure (.cons (hL.stmt_mono hu hs) hothers)

theorem compound_runs (hr : L.Covered lift lift' r) (hsc : L.scope w sc sc') :
    L.Runs w (compound env lift sc r) (compound env' lift' sc' r) L.stmt := by
  unfold compound
  rw [hr.same]
  exact .bind (stmts_runs hL hr.covers hr.lifts hsc) fun _ _ _ _ hs => hL.compound hs

/-- The expressions that the operations of a region leave. -/
theorem yieldsAux_runs {ops : List OpId} (hcovers : ∀ c ∈ ops, L.covers c)
    (hlift : ∀ c ∈ ops, L.Lifts lift lift' c) (hsc : L.scope w sc sc') {y y' : Option ExprId}
    (hy : Option.Rel (L.expr w) y y') {es es' : List ExprId} (hes : List.Forall₂ (L.expr w) es es') :
    L.Runs w (yieldsAux env lift sc r ops y es) (yieldsAux env' lift' sc' r ops y' es')
      fun v a a' => Option.Rel (L.expr v) a.1 a'.1 ∧ List.Forall₂ (L.expr v) a.2 a'.2 := by
  induction ops generalizing w y y' es es' with
  | nil => exact .pure ⟨hy, List.rel_reverse hes⟩
  | cons op rest ih =>
      have hop := hcovers op List.mem_cons_self
      refine .bind (hlift op List.mem_cons_self w sc sc' hsc) fun s s' v hv hs => ?_
      have hrest {z z' : Option ExprId} {xs xs' : List ExprId} (hz : Option.Rel (L.expr v) z z')
          (hxs : List.Forall₂ (L.expr v) xs xs') :=
        ih (fun c hc => hcovers c (List.mem_cons_of_mem op hc))
          (fun c hc => hlift c (List.mem_cons_of_mem op hc)) (scope_mono hL hv hsc) hz hxs
      refine .get_bind fun hstate => ?_
      have hexpr : Option.Rel (L.expr v) (s.bind v.1.program.asExpr?) (s'.bind v.2.program.asExpr?) := by
        cases hs with
        | none => exact .none
        | some hs => exact hL.asExpr hstate hs
      have hy' := expr?_mono hL hv hy
      have hes' : List.Forall₂ (L.expr v) es es' := hes.imp fun _ _ he => hL.expr_mono hv he
      dsimp only
      generalize s.bind v.1.program.asExpr? = e at hexpr
      generalize s'.bind v.2.program.asExpr? = e' at hexpr
      have hyield : isYield env'.graph op = isYield env.graph op := by
        unfold isYield
        rw [kind?_eq hL hop]
      rw [hyield]
      split
      · refine .guard (by rw [asExpr_isSome hy']) (fun _ => rfl) fun _ => ?_
        cases hexpr with
        | none => exact .throw fun _ => rfl
        | some he => exact hrest (.some he) hes'
      · cases hexpr with
        | none => exact hrest hy' hes'
        | some he =>
            rw [hL.hasUses hop]
            refine hrest hy' ?_
            split
            · exact hes'
            · exact .cons he hes'

theorem yields_runs (hr : L.Covered lift lift' r) (hsc : L.scope w sc sc') :
    L.Runs w (yields env lift sc r) (yields env' lift' sc' r)
      fun v a a' => Option.Rel (L.expr v) a.1 a'.1 ∧ List.Forall₂ (L.expr v) a.2 a'.2 := by
  unfold yields
  rw [hr.same]
  exact yieldsAux_runs hL hr.covers hr.lifts hsc .none .nil

theorem yielded_runs (hr : L.Covered lift lift' r) (hsc : L.scope w sc sc') :
    L.Runs w (yielded env lift sc r) (yielded env' lift' sc' r) L.expr := by
  refine .bind (yields_runs hL hr hsc) fun a a' v _ ha => ?_
  obtain ⟨y, es⟩ := a
  obtain ⟨y', es'⟩ := a'
  cases ha.1 with
  | none => exact .throw fun _ => rfl
  | some he => exact .pure he

theorem loopCondition_runs (hr : L.Covered lift lift' r) (hsc : L.scope w sc sc') :
    L.Runs w (loopCondition env lift sc r) (loopCondition env' lift' sc' r)
      fun v => Option.Rel (L.expr v) := by
  unfold loopCondition
  rw [hr.same]
  split
  · exact .pure .none
  · exact .map ((yielded_runs hL hr hsc).imp fun _ _ _ _ he => .some he)

variable {id : OpId} {o o' : Operation} (h : L.Shares id o o')

include h

theorem loopIncrement_runs (hr : L.Covered lift lift' r) (hsc : L.scope w sc sc') :
    L.Runs w (loopIncrement env lift sc o r) (loopIncrement env' lift' sc' o' r)
      fun v => Option.Rel (L.expr v) := by
  refine .bind (yields_runs hL hr hsc) fun a a' v _ ha => ?_
  obtain ⟨y, es⟩ := a
  obtain ⟨y', es'⟩ := a'
  obtain ⟨hy, hes⟩ := ha
  have hmalformed : L.strict → env.malformed o ("increment leaves " ++ toString es.length ++
      " expressions unused") = env'.malformed o' ("increment leaves " ++ toString es'.length ++
      " expressions unused") := by
    rw [hes.length_eq]
    exact malformed_eq hL h _
  cases hy with
  | some he =>
      cases hes with
      | nil => exact .pure (.some he)
      | cons _ _ => exact .throw hmalformed
  | none =>
      cases hes with
      | nil => exact .pure .none
      | cons he hes =>
          cases hes with
          | nil => exact .pure (.some he)
          | cons _ _ => exact .throw hmalformed

variable (hlift : ∀ c ∈ env.graph.innerOps o, L.Lifts lift lift' c) (hsc : L.scope w sc sc')

include hlift

theorem covered_of_read (hf : o.kind? ≠ some .function) (hv : o.kind? ≠ some .var)
    (hr : r ∈ env.graph.readRegions o) : L.Covered lift lift' r where
  same := (hL.region h (env.graph.readRegions_subset o hr)).2
  covers _ hc := hL.inner h hf hv (List.mem_flatMap.mpr ⟨r, hr, hc⟩)
  lifts c hc := hlift c (List.mem_flatMap.mpr ⟨r, hr, hc⟩)

include hsc

theorem wrapper_runs (hk : o.kind? = some .expression) :
    L.Runs w (wrapper env lift sc o) (wrapper env' lift' sc' o') L.expr := by
  have hbody := malformed_eq hL h "expression without a body"
  have hcount (n : Nat) := malformed_eq hL h ("expected one value yield, found " ++ toString n)
  have hregions : o'.regions = o.regions := by
    obtain ⟨b, rfl⟩ := h.alike
    rfl
  unfold wrapper
  rw [hregions]
  split
  · exact .throw hbody
  · next r hr =>
      have hcovered : L.Covered lift lift' r := covered_of_read hL h hlift (by simp [hk]) (by simp [hk])
        (by simp [Graph.readRegions, hk, hr])
      have hyields : (env'.graph.regionOps r).filter (fun op => env'.graph.kind? op == some .valueYield) =
          (env.graph.regionOps r).filter fun op => env.graph.kind? op == some .valueYield := by
        rw [hcovered.same]
        exact List.filter_congr fun c hc => by rw [kind?_eq hL (hcovered.covers c hc)]
      rw [hyields]
      exact .guard .rfl (hcount _) fun _ => yielded_runs hL hcovered hsc

theorem ifElse_runs (hk : o.kind? = some .ifStmt) :
    L.Runs w (ifElse env lift sc o) (ifElse env' lift' sc' o') L.stmt := by
  have hread {r : RegionId} (hr : r ∈ env.graph.readRegions o) : L.Covered lift lift' r :=
    covered_of_read hL h hlift (by simp [hk]) (by simp [hk]) hr
  refine region_bind hL h fun cond hcond _ => region_bind hL h fun yes hyes _ => ?_
  refine .bind (yielded_runs hL (hread (by simp [Graph.readRegions, hk, hcond])) hsc)
    fun c c' v hv hc => ?_
  refine .bind (compound_runs hL (hread (by simp [Graph.readRegions, hk, hyes]))
    (scope_mono hL hv hsc)) fun y y' u hu hy => ?_
  have helse : env'.graph.elseRegion? o' = env.graph.elseRegion? o := by
    obtain ⟨b, rfl⟩ := h.alike
    unfold Graph.elseRegion?
    dsimp only
    cases hr : o.regions[2]? with
    | none => rfl
    | some r =>
        rw [Option.filter_some, Option.filter_some, (hL.region h (List.mem_of_getElem? hr)).1]
  refine Runs.bind (V := fun v => Option.Rel (L.stmt v)) ?_ fun n n' t ht hn =>
    hL.ifElse (hL.expr_mono ht (hL.expr_mono hu hc)) (hL.stmt_mono ht hy) hn
  change L.Runs u ((env.graph.elseRegion? o).mapM (compound env lift sc))
    ((env'.graph.elseRegion? o').mapM (compound env' lift' sc')) _
  rw [helse]
  cases hno : env.graph.elseRegion? o with
  | none => exact .pure .none
  | some no =>
      have hcovered : L.Covered lift lift' no := hread (by simp [Graph.readRegions, hk, hno])
      exact .map ((compound_runs hL hcovered (scope_mono hL hu (scope_mono hL hv hsc))).imp
        fun _ _ _ _ hn => .some hn)

theorem whileLoop_runs (hk : o.kind? = some .whileStmt) :
    L.Runs w (whileLoop env lift sc o) (whileLoop env' lift' sc' o') L.stmt := by
  have hread {r : RegionId} (hr : r ∈ env.graph.readRegions o) : L.Covered lift lift' r :=
    covered_of_read hL h hlift (by simp [hk]) (by simp [hk]) hr
  refine region_bind hL h fun cond hcond _ => region_bind hL h fun body hbody _ => ?_
  refine .bind (yielded_runs hL (hread (by simp [Graph.readRegions, hk, hcond])) hsc)
    fun c c' v hv hc => ?_
  exact .bind (compound_runs hL (hread (by simp [Graph.readRegions, hk, hbody]))
    (scope_mono hL hv hsc)) fun b b' u hu hb => hL.whileLoop (hL.expr_mono hu hc) hb

theorem doLoop_runs (hk : o.kind? = some .doStmt) :
    L.Runs w (doLoop env lift sc o) (doLoop env' lift' sc' o') L.stmt := by
  have hread {r : RegionId} (hr : r ∈ env.graph.readRegions o) : L.Covered lift lift' r :=
    covered_of_read hL h hlift (by simp [hk]) (by simp [hk]) hr
  refine region_bind hL h fun body hbody _ => region_bind hL h fun cond hcond _ => ?_
  refine .bind (compound_runs hL (hread (by simp [Graph.readRegions, hk, hbody])) hsc)
    fun b b' v hv hb => ?_
  exact .bind (yielded_runs hL (hread (by simp [Graph.readRegions, hk, hcond]))
    (scope_mono hL hv hsc)) fun c c' u hu hc => hL.doLoop hc (hL.stmt_mono hu hb)

theorem forLoop_runs (hk : o.kind? = some .forStmt) :
    L.Runs w (forLoop env lift sc o) (forLoop env' lift' sc' o') L.stmt := by
  have hread {r : RegionId} (hr : r ∈ env.graph.readRegions o) : L.Covered lift lift' r :=
    covered_of_read hL h hlift (by simp [hk]) (by simp [hk]) hr
  rw [forLoop_eq, forLoop_eq]
  refine region_bind hL h fun cond hcond _ => region_bind hL h fun inc hinc _ =>
    region_bind hL h fun body hbody _ => ?_
  refine .bind (loopCondition_runs hL (hread (by simp [Graph.readRegions, hk, hcond])) hsc)
    fun c c' v hv hc => ?_
  refine .bind (loopIncrement_runs hL h (hread (by simp [Graph.readRegions, hk, hinc]))
    (scope_mono hL hv hsc)) fun i i' u hu hi => ?_
  refine .bind (compound_runs hL (hread (by simp [Graph.readRegions, hk, hbody]))
    (scope_mono hL hu (scope_mono hL hv hsc))) fun b b' t ht hb => ?_
  exact hL.forLoop (expr?_mono hL ht (expr?_mono hL hu hc)) (expr?_mono hL ht hi) hb

theorem innerScope_runs (hk : o.kind? = none) :
    L.Runs w (innerScope env lift sc o) (innerScope env' lift' sc' o') L.stmt :=
  region_bind hL h fun body hbody _ => compound_runs hL
    (covered_of_read hL h hlift (by simp [hk]) (by simp [hk])
      (by simp [Graph.readRegions, hk, hbody])) hsc

end Regions

/-! ### Declarations -/

section Declarations

variable {sc sc' : Scope} {id : OpId} {o o' : Operation}

include hL

theorem declStmt_runs (hsc : L.scope w sc sc') {d d' : DeclId} (hd : L.noted w id d d') :
    L.Runs w (declStmt? sc d) (declStmt? sc' d') fun v => Option.Rel (L.stmt v) := by
  match sc, sc', hsc with
  | .file, .file, _ => exact .pure .none
  | .function _, .function _, _ =>
      exact .map ((hL.declares hd).imp fun _ _ _ _ hs => .some hs)

/-- Declarations that are listed, noted and entered under their symbol, and what follows. -/
theorem declare_bind {m : Lift α} {m' : Lift α'} {V : Twin → α → α' → Prop} (hsc : L.scope w sc sc')
    (h : L.Shares id o o') {d d' : DeclId} (hd : L.created w d d')
    (hm : ∀ v, L.leads w v → L.noted v id d d' → L.Runs v m m' V) :
    L.Runs w
      (do typed (Check.addDecl sc d); noteDecl o.id d; registerSymbol sc o d; m)
      (do typed (Check.addDecl sc' d'); noteDecl o'.id d'; registerSymbol sc' o' d'; m') V := by
  rw [← bind_assoc (typed (Check.addDecl sc d)), ← bind_assoc (typed (Check.addDecl sc' d'))]
  exact .bind (hL.list hsc h hd) fun _ _ v hv hn =>
    .bind (hL.register (scope_mono hL hv hsc) h hn) fun _ _ u hu _ =>
      hm u (L.leads_trans hv hu) (hL.noted_mono hu hn)

theorem params_runs (h : L.Shares id o o') {f f' : DeclId} {entry : Option BlockId}
    (hentry : ∀ b, entry = some b → env.graph.entry? o = some b) (hf : L.noted w id f f')
    (index : Nat) (inputs : List TypeId) :
    L.Runs w (params env o f entry index inputs) (params env' o' f' entry index inputs)
      fun v => List.Forall₂ (L.decl v) := by
  induction inputs generalizing w index with
  | nil => exact .pure .nil
  | cons input rest ih =>
      refine .bind (chooseName_runs hL h .parameter index) fun _ name v hv hname => ?_
      subst hname
      refine .bind (hL.type v input) fun t t' u hu ht => ?_
      have hfu := hL.noted_mono hu (hL.noted_mono hv hf)
      refine .bind (hL.param name index hfu ht) fun d d' x hx hd => ?_
      have others {y : Twin} (hy : L.leads x y) : L.Runs y
          (do let others ← params env o f entry (index + 1) rest; return d :: others)
          (do let others ← params env' o' f' entry (index + 1) rest; return d' :: others)
          fun v => List.Forall₂ (L.decl v) := by
        refine .bind (ih (hL.noted_mono hy (hL.noted_mono hx hfu)) (index + 1))
          fun ds ds' z hz hds => ?_
        exact .pure (.cons (hL.decl_mono hz (hL.decl_mono hy hd)) hds)
      cases entry with
      | none => exact others (L.leads_refl x)
      | some b => exact .bind (hL.bind index h (hentry b rfl) hd) fun _ _ y hy _ => others hy

theorem function_runs (h : L.Shares id o o') (hk : o.kind? = some .function)
    (hsc : L.scope w sc sc') : L.Runs w (function env sc o) (function env' sc' o') anything := by
  have hnone := malformed_eq hL h "function without a function type"
  have hother := malformed_eq hL h "function type attribute is not a function type"
  have hblocks := malformed_eq hL h "function body with more than one block"
  have htype : o'.typeAttr? AttrName.functionType = o.typeAttr? AttrName.functionType := by
    obtain ⟨b, rfl⟩ := h.alike
    rfl
  have hregions : o'.regions = o.regions := by
    obtain ⟨b, rfl⟩ := h.alike
    rfl
  have hread : o.regions.head?.bind env'.graph.region? = o.regions.head?.bind env.graph.region? := by
    cases hr : o.regions.head? with
    | none => rfl
    | some r => exact (hL.region h (List.mem_of_head? hr)).1
  unfold function
  rw [htype, hL.types, hregions, hread]
  split
  · exact .throw hnone
  · next typeId _ =>
    split
    · exact .throw hother
    · next inputs _ _ =>
      refine .bind (hL.type w typeId) fun t t' v hv ht => ?_
      refine .bind (chooseName_runs hL h .function 0) fun _ name u hu hname => ?_
      subst hname
      have hscu := scope_mono hL hu (scope_mono hL hv hsc)
      refine .bind (hL.functionDecl name hscu (hL.type_mono hu ht)) fun d d' x hx hd => ?_
      refine declare_bind hL (scope_mono hL hx hscu) h hd fun y hy hnoted => ?_
      have hscy := scope_mono hL hy (scope_mono hL hx hscu)
      refine .guard .rfl hblocks fun _ => ?_
      refine .bind (params_runs hL h (fun b hb => hb) hnoted 0 inputs) fun ps ps' z hz hps => ?_
      refine .bind (hL.setParams (hL.noted_mono hz hnoted) hps) fun _ _ z' hz' _ => ?_
      split
      · next r b hr hb =>
          have hfill : env.graph.filling? o = some r := by
            rw [Graph.filling?, hk]
            dsimp only
            rw [Graph.entry?, hb, hr]
            rfl
          have hdefer := hL.defer (scope_mono hL hz' (scope_mono hL hz hscy)) h
            (hL.noted_mono hz' (hL.noted_mono hz hnoted)) hfill
          rwa [Operation.filler, Operation.filler, if_pos hk, if_pos hk] at hdefer
      · exact .pure trivial

theorem var_runs (h : L.Shares id o o') (hk : o.kind? = some .var) (hsc : L.scope w sc sc') :
    L.Runs w (var env sc o) (var env' sc' o') fun v => Option.Rel (L.stmt v) := by
  have hregions : o'.regions = o.regions := by
    obtain ⟨b, rfl⟩ := h.alike
    rfl
  have hstorage : storageOf o' = storageOf o := by
    obtain ⟨b, rfl⟩ := h.alike
    rfl
  unfold var
  rw [hstorage, hregions]
  refine resultType_bind hL h fun t => .bind (hL.type w t) fun t t' v hv ht => ?_
  refine .bind (chooseName_runs hL h .var 0) fun _ name u hu hname => ?_
  subst hname
  have hscu := scope_mono hL hu (scope_mono hL hv hsc)
  refine .bind (hL.varDecl name _ hscu (hL.type_mono hu ht)) fun d d' x hx hd => ?_
  refine declare_bind hL (scope_mono hL hx hscu) h hd fun y hy hnoted => ?_
  have hscy := scope_mono hL hy (scope_mono hL hx hscu)
  have last := declStmt_runs hL hscy hnoted
  dsimp only
  split
  · next r hr =>
      have hr' : r ∈ o.regions := List.mem_of_head? hr
      rw [(hL.region h hr').2]
      split
      · next hops =>
          have hfill : env.graph.filling? o = some r := by
            rw [Graph.filling?, hk]
            dsimp only
            rw [hr, Option.filter_some, if_pos hops]
          have hdefer := hL.defer hscy h hnoted hfill
          rw [Operation.filler, Operation.filler, if_neg (by simp [hk]), if_neg (by simp [hk])] at hdefer
          exact .bind hdefer fun _ _ z hz _ =>
            declStmt_runs hL (scope_mono hL hz hscy) (hL.noted_mono hz hnoted)
      · exact last
  · exact last

theorem fields_runs {record record' : DeclId} (hr : L.noted w id record record') (index : Nat)
    (ids : List OpId) (hcovers : ∀ c ∈ ids, L.covers c) :
    L.Runs w (fields env record index ids) (fields env' record' index ids) anything := by
  induction ids generalizing w index with
  | nil => exact .pure trivial
  | cons c rest ih =>
      refine operation_bind hL (hcovers c List.mem_cons_self) fun o o' h => ?_
      have hother := malformed_eq hL h "struct body may only hold fields"
      have hnone := malformed_eq hL h "field without a type"
      have htype : o'.typeAttr? AttrName.type = o.typeAttr? AttrName.type := by
        obtain ⟨b, rfl⟩ := h.alike
        rfl
      refine .guard (by rw [h.kind?]) hother fun _ => ?_
      rw [htype]
      split
      · exact .throw hnone
      · next typeId _ =>
        refine .bind (hL.type w typeId) fun t t' v hv ht => ?_
        refine .bind (chooseName_runs hL h .field index) fun _ name u hu hname => ?_
        subst hname
        have hru := hL.noted_mono hu (hL.noted_mono hv hr)
        refine .bind (hL.field name hru (hL.type_mono hu ht)) fun d d' x hx hd => ?_
        rw [← bind_assoc (noteDecl c d), ← bind_assoc (noteDecl c d')]
        refine .bind (hL.enterField h.covers hd) fun _ _ y hy _ => ?_
        exact ih (hL.noted_mono hy (hL.noted_mono hx hru)) (index + 1)
          fun c hc => hcovers c (List.mem_cons_of_mem _ hc)

theorem record_runs (h : L.Shares id o o') (hk : o.kind? = some .record) (hsc : L.scope w sc sc') :
    L.Runs w (record env sc o) (record env' sc' o') fun v => Option.Rel (L.stmt v) := by
  have hfields : o'.regions.head?.elim [] env'.graph.regionOps = env.graph.fieldOps o := by
    obtain ⟨b, rfl⟩ := h.alike
    unfold Graph.fieldOps
    dsimp only
    cases hr : o.regions.head? with
    | none => rfl
    | some r => exact (hL.region h (List.mem_of_head? hr)).2
  unfold record
  rw [hfields]
  refine .bind (chooseName_runs hL h .record 0) fun _ name v hv hname => ?_
  subst hname
  refine .bind (hL.recordDecl name (scope_mono hL hv hsc)) fun d d' u hu hd => ?_
  have hscu := scope_mono hL hu (scope_mono hL hv hsc)
  rw [← bind_assoc (typed (Check.addDecl sc d)), ← bind_assoc (typed (Check.addDecl sc' d'))]
  refine .bind (hL.list hscu h hd) fun _ _ x hx hnoted => ?_
  refine .bind (fields_runs hL hnoted 0 _ fun c hc => hL.fieldOps h hk hc) fun _ _ y hy _ => ?_
  exact declStmt_runs hL (scope_mono hL hy (scope_mono hL hx hscu)) (hL.noted_mono hy hnoted)

end Declarations

/-! ### Rules -/

include hL

/-- A rule runs alike if the operations that it lifts along do. -/
theorem rule_runs {lift lift' : OpLifter} {id : OpId} (hid : L.covers id)
    (hlift : ∀ o, env.graph.op? id = some o → o.kind? ≠ some .function → o.kind? ≠ some .var →
      ∀ c ∈ env.graph.innerOps o, L.Lifts lift lift' c) :
    L.Lifts (rule env lift) (rule env' lift') id := by
  intro w sc sc' hsc
  refine operation_bind hL hid fun o o' h => ?_
  rw [h.kind?]
  have hnoRule := noRule_eq hL h
  have hname : o'.name = o.name := by
    obtain ⟨b, rfl⟩ := h.alike
    rfl
  have asStmt {m m' : Lift StmtId} (hm : L.Runs w m m' L.stmt) :
      L.Runs w (some <$> m) (some <$> m') fun v => Option.Rel (L.stmt v) :=
    .map (hm.imp fun _ _ _ _ hs => .some hs)
  have ofExpr {m m' : Lift ExprId} (hm : L.Runs w m m' L.expr) : L.Runs w
      (do let e ← m; return some ((← program).expr e).stmt)
      (do let e ← m'; return some ((← program).expr e).stmt) fun v => Option.Rel (L.stmt v) :=
    .bind hm fun _ _ _ _ he => .get_bind fun hstate => .pure (.some (hL.exprStmt hstate he))
  have onlyNamed (role : NameRole) : L.Runs w
      (do let _ ← chooseName env role o 0; return none)
      (do let _ ← chooseName env' role o' 0; return none) fun v => Option.Rel (L.stmt v) :=
    .bind (chooseName_runs hL h role 0) fun _ _ _ _ _ => .pure .none
  cases hk : o.kind? with
  | none =>
      have hinner := hlift o h.left (by simp [hk]) (by simp [hk])
      dsimp only
      rw [hname]
      split
      · exact asStmt (innerScope_runs hL h hinner hsc hk)
      · exact .throw hnoRule
  | some kind =>
      have hinner (hf : kind ≠ .function) (hv : kind ≠ .var) := hlift o h.left
        (by rw [hk]; exact fun heq => hf (Option.some.inj heq))
        (by rw [hk]; exact fun heq => hv (Option.some.inj heq))
      dsimp only
      split
      · have hinner := hinner (by decide) (by decide)
        have hops : o'.regions.flatMap env'.graph.regionOps = env.graph.innerOps o := by
          obtain ⟨b, rfl⟩ := h.alike
          rw [Graph.innerOps, Graph.readRegions, hk]
          exact List.flatMap_congr fun r hr => (hL.region h hr).2
        have hself : o.regions.flatMap env.graph.regionOps = env.graph.innerOps o := by
          rw [Graph.innerOps, Graph.readRegions, hk]
        rw [hops, hself]
        refine .bind (.forM fun c hc v hv => ?_) fun _ _ _ _ _ => .pure .none
        exact .bind (hinner c hc v sc sc' (scope_mono hL hv hsc)) fun _ _ _ _ _ =>
          .pure trivial
      · exact .bind (function_runs hL h hk hsc) fun _ _ _ _ _ => .pure .none
      · exact var_runs hL h hk hsc
      · exact record_runs hL h hk hsc
      · exact onlyNamed _
      · exact onlyNamed _
      · exact onlyNamed _
      · exact asStmt (ifElse_runs hL h (hinner (by decide) (by decide)) hsc hk)
      · exact asStmt (whileLoop_runs hL h (hinner (by decide) (by decide)) hsc hk)
      · exact asStmt (doLoop_runs hL h (hinner (by decide) (by decide)) hsc hk)
      · exact asStmt (forLoop_runs hL h (hinner (by decide) (by decide)) hsc hk)
      · exact asStmt (returns_runs hL h (by simp [Operation.isDeclaration, hk]) hsc)
      · exact asStmt (hL.leaf w _ (by simp))
      · exact asStmt (hL.leaf w _ (by simp))
      · exact asStmt (hL.leaf w _ (by simp))
      · exact ofExpr (wrapper_runs hL h (hinner (by decide) (by decide)) hsc hk)
      · refine ofExpr (simpleExpr_runs hL h ?_ kind)
        unfold Operation.isDeclaration
        rw [hk]
        split <;> simp_all

/-- Two lifts of an operation run alike if their bounds are the same or both are enough. -/
theorem opAux_lifts {m n : Nat} {id : OpId} (hid : L.covers id)
    (hbound : m = n ∨ env.graph.Shallow m id ∧ env.graph.Shallow n id) :
    L.Lifts (opAux env m) (opAux env' n) id := by
  induction m generalizing n id with
  | zero =>
      obtain rfl | ⟨hfalse, -⟩ := hbound
      · intro w sc sc' _
        unfold opAux
        refine .get_bind fun hw => ?_
        have hlifted := hL.lifted hw hid
        generalize w.1.opStmt.get? id = x at hlifted
        generalize w.2.opStmt.get? id = x' at hlifted
        cases hlifted with
        | none => exact .throw fun _ => rfl
        | some hs => exact .bind (hL.hit w) fun _ _ v hv _ => .pure (stmt?_mono hL hv hs)
      · exact hfalse.elim
  | succ m ih =>
      obtain ⟨n, rfl⟩ : ∃ k, n = k + 1 := by
        obtain rfl | ⟨-, hn⟩ := hbound
        · exact ⟨m, rfl⟩
        · cases n with
          | zero => exact hn.elim
          | succ n => exact ⟨n, rfl⟩
      have hinner {o : Operation} (ho : env.graph.op? id = some o) {c : OpId}
          (hc : c ∈ env.graph.innerOps o) :
          m = n ∨ env.graph.Shallow m c ∧ env.graph.Shallow n c := by
        obtain ⟨r, hr, hc⟩ := List.mem_flatMap.mp hc
        have henc : env.graph.Encloses id c := ⟨o, r, ho, env.graph.readRegions_subset o hr, hc⟩
        exact hbound.imp Nat.succ.inj fun h => ⟨h.1 c henc, h.2 c henc⟩
      intro w sc sc' hsc
      unfold opAux
      refine .get_bind fun hw => ?_
      have hlifted := hL.lifted hw hid
      generalize w.1.opStmt.get? id = x at hlifted
      generalize w.2.opStmt.get? id = x' at hlifted
      cases hlifted with
      | some hs => exact .bind (hL.hit w) fun _ _ v hv _ => .pure (stmt?_mono hL hv hs)
      | none =>
          refine .bind (rule_runs hL hid (fun o ho hf hv c hc => ?_) w sc sc' hsc) fun r r' v hv hr => ?_
          · have hop := hL.op hid
            rw [ho] at hop
            generalize hop' : env'.graph.op? id = o' at hop
            cases hop with
            | some halike => exact ih (hL.inner ⟨hid, ho, hop', halike⟩ hf hv hc) (hinner ho hc)
          · exact .bind (hL.enter hid hr) fun _ _ u hu _ => .pure (stmt?_mono hL hu hr)

/-! ### Tasks -/

theorem body_runs {id : OpId} {f f' : DeclId} {r : RegionId} (hf : L.noted w id f f')
    (hr : L.Covered (op env) (op env') r) :
    L.Runs w (task env (.body f r)) (task env' (.body f' r)) anything :=
  .bind (compound_runs hL hr ⟨id, hf⟩) fun _ _ _ hv hb => hL.setBody (hL.noted_mono hv hf) hb

theorem init_runs {id : OpId} {sc sc' : Scope} {d d' : DeclId} {r : RegionId} (hsc : L.scope w sc sc')
    (hd : L.noted w id d d') (hr : L.Covered (op env) (op env') r) :
    L.Runs w (task env (.init sc d r)) (task env' (.init sc' d' r)) anything :=
  .bind (yielded_runs hL hr hsc) fun _ _ _ hv he => hL.setInit (hL.noted_mono hv hd) he

end Operations

end Likeness

namespace Lift

/-- Two drains end alike if carrying out the tasks does. -/
theorem drain_together {env env' : LiftEnv} {s s' : LiftState}
    {Q : Nat → Nat → LiftState → LiftState → Prop} {E : LiftError → LiftError → Prop}
    (h : Together
      (Queue.drainAux (task env) .unbounded (env.graph.operations.size + s.queue.size) 0)
      (Queue.drainAux (task env') .unbounded (env'.graph.operations.size + s'.queue.size) 0) s s'
      (fun n n' t t' => Q n n' t.executed t'.executed) E) :
    Together (drain env) (drain env') s s' Q E := by
  unfold Together at h ⊢
  unfold drain Queue.drain
  cases hrun : Queue.drainAux (task env) LiftError.unbounded
      (env.graph.operations.size + s.queue.size) 0 s <;>
    cases hrun' : Queue.drainAux (task env') LiftError.unbounded
      (env'.graph.operations.size + s'.queue.size) 0 s' <;>
    rw [hrun, hrun'] at h <;> exact h

end Lift

end Readback
