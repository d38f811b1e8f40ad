import Readback.Proofs.Graph.Depth
import Readback.Proofs.Program.Types

/-! # Lifting types

Types are lifted once and then looked up, and a failure leaves behind what was lifted before it. All the
same, what a lift of a type gives is a matter of the type alone.

* The table of lifted types holds only types that can be lifted, with what they stand for
  (`LiftState.TypesLifted`). So a type that is looked up is as good as one that is lifted, and one that
  cannot be lifted is never found there. Steps that lift no type keep this if they only add types to the
  program (`keepsTypes_of_within`).
* `Lift.LiftsType` is what lifting a type does: if the table is right, it gives what the type stands for
  if that can be lifted, fails with the first fault of the type otherwise, and leaves the table right in
  both cases.
* The fault is the first one in the order in which the parts of a type are lifted: the result of a
  function comes before its parameters, and those come in their order (`mapM_outcome`,
  `signature_outcome`). `Blames` collects what is used of this order.

One level is lifted over parts that are lifted right (`shape_outcome`), and `typeAux_lifts` is the
induction on the bound. If the bound cuts a type off, nothing is said of the failure; where types come
after their parts it is never reached, and `type_lifts` has no such condition. `type_lifts_or_faulty`
needs no right table at all: lifting a type fails if and only if the type has a fault. -/

namespace Readback

open Step

namespace LiftState

/-- Every type that was lifted can be lifted, and became what it stands for on the target. -/
structure TypesLifted (g : Graph) (target : Target) (s : LiftState) : Prop where
  onTarget : s.program.target = target
  types : ∀ id t, s.typeOf.get? id = some t → (g.types.tree id).fault? = none ∧
    s.program.types.Denotes t ((g.types.tree id).ctype target)

/-- What a step does to the types of a state whose types were lifted right. -/
def KeepsTypes (g : Graph) (target : Target) (s t : LiftState) : Prop :=
  s.TypesLifted g target → t.TypesLifted g target ∧ s.program.types.Within t.program.types

instance {g : Graph} {target : Target} : Std.Refl (KeepsTypes g target) :=
  ⟨fun _ h => ⟨h, .refl _⟩⟩

instance {g : Graph} {target : Target} : IsTrans LiftState (KeepsTypes g target) where
  trans _ _ _ h h' hs := by
    obtain ⟨ht, hst⟩ := h hs
    obtain ⟨hu, htu⟩ := h' ht
    exact ⟨hu, hst.trans htu⟩

/-- A step that lifts no type and only adds types to the program. -/
theorem keepsTypes_of_within {g : Graph} {target : Target} {s t : LiftState}
    (htarget : t.program.target = s.program.target) (htypes : s.program.types.Within t.program.types)
    (hlifted : t.typeOf = s.typeOf) : KeepsTypes g target s t := by
  refine fun hs => ⟨⟨htarget.trans hs.onTarget, fun id u hu => ?_⟩, htypes⟩
  obtain ⟨hnone, hdenotes⟩ := hs.types id u (hlifted ▸ hu)
  exact ⟨hnone, hdenotes.mono htypes⟩

end LiftState

namespace Lift

open LiftState

/-- The step lifts the type: if the types before it were lifted right, it gives what the type stands
for if that can be lifted, and fails with its first fault otherwise. -/
def LiftsType (g : Graph) (target : Target) (id : TypeId) (m : Lift QualType) : Prop :=
  ∀ s : LiftState, s.TypesLifted g target → Outcome m s
    (fun t s' => KeepsTypes g target s s' ∧ (g.types.tree id).fault? = none ∧
      s'.program.types.Denotes t ((g.types.tree id).ctype target))
    (fun e s' => KeepsTypes g target s s' ∧ (g.types.tree id).fault? = some e)

/-- The step gives what the unfolded type stands for if that can be lifted. The errors with which it
fails have to do with the first fault as `fails` says. -/
def LiftsTree (g : Graph) (target : Target) (fails : Option LiftError → LiftError → Prop)
    (x : ShapeTree) (m : Lift QualType) : Prop :=
  ∀ s : LiftState, s.TypesLifted g target → Outcome m s
    (fun t s' => KeepsTypes g target s s' ∧ x.fault? = none ∧
      s'.program.types.Denotes t (x.ctype target))
    (fun e s' => KeepsTypes g target s s' ∧ fails x.fault? e)

/-- How errors have to do with first faults: a fault may be the error itself, and what follows the first
fault does not matter. -/
structure Blames (fails : Option LiftError → LiftError → Prop) : Prop where
  self (e) : fails (some e) e
  rest {fault e} (later : Option LiftError) : fails fault e → fails (fault.or later) e

theorem blames_eq : Blames fun fault e => fault = some e where
  self _ := rfl
  rest _ h := by rw [h, Option.some_or]

theorem findSome?_fault_cons (x : ShapeTree) (xs : List ShapeTree) :
    (x :: xs).findSome? ShapeTree.fault? = x.fault?.or (xs.findSome? ShapeTree.fault?) := by
  rw [List.findSome?_cons]
  cases x.fault? <;> rfl

theorem blames_any : Blames fun _ _ => True := ⟨fun _ => trivial, fun _ _ => trivial⟩

variable {env : LiftEnv} {g : Graph} {target : Target} {fails : Option LiftError → LiftError → Prop}

theorem spelled_eq (target : Target) (isUnsigned : Bool) (kind : IntegerShape) :
    kind.builtin target isUnsigned = kind.spelled target isUnsigned := by
  cases kind <;> cases isUnsigned <;>
    simp [IntegerShape.builtin, IntegerShape.spelled, IntegerShape.signed, Builtin.toUnsigned]

variable (g target) in
/-- Interning a type node with qualifiers. -/
theorem interned_outcome (node : TypeNode) (quals : Quals) (s : LiftState) :
    Outcome (do return (← typed (Check.internNode node)).withQuals quals : Lift QualType) s
      (fun t s' => KeepsTypes g target s s' ∧ s'.program.types.get? t.ref = some node ∧
        t.quals = quals ∧ s.program.types.Within s'.program.types)
      fun _ _ => False := by
  have hwithin := s.program.types.within_intern node
  exact ⟨keepsTypes_of_within rfl hwithin rfl, s.program.types.get?_intern_self node,
    Quals.none_union quals, hwithin⟩

variable (g target) in
theorem qualified_outcome (kind : Builtin) (quals : Quals) (s : LiftState) :
    Outcome (qualified kind quals) s
      (fun t s' => KeepsTypes g target s s' ∧ s'.program.types.Denotes t (.builtin quals kind))
      fun _ _ => False :=
  (interned_outcome g target (.builtin kind) quals s).mono
    (fun _ _ ⟨hkeep, hnode, hquals, _⟩ => ⟨hkeep, hquals, hnode⟩) fun _ _ h => h

/-- Lifting several types in a row, up to the first that cannot be lifted. -/
theorem mapM_outcome (hfails : Blames fails) {lift : TypeId → Lift QualType} {ids : List TypeId}
    (hlift : ∀ id ∈ ids, LiftsTree g target fails (g.types.tree id) (lift id)) {s : LiftState}
    (hs : s.TypesLifted g target) :
    Outcome (ids.mapM lift) s
      (fun ts s' => KeepsTypes g target s s' ∧
        (ids.map g.types.tree).findSome? ShapeTree.fault? = none ∧
        s'.program.types.DenoteAll ts (ShapeTree.ctypes target (ids.map g.types.tree)))
      (fun e s' => KeepsTypes g target s s' ∧
        fails ((ids.map g.types.tree).findSome? ShapeTree.fault?) e) := by
  induction ids generalizing s with
  | nil => exact ⟨Std.Refl.refl s, rfl, trivial⟩
  | cons id ids ih =>
      rw [List.mapM_cons, List.map_cons, findSome?_fault_cons]
      have hfirst := (hlift id List.mem_cons_self s hs).mono (fun _ _ h => h)
        fun e s' h => h.imp_right
          (hfails.rest ((ids.map g.types.tree).findSome? ShapeTree.fault?))
      refine hfirst.bind fun t s' ⟨hkeep, hnone, ht⟩ => ?_
      rw [hnone, Option.none_or]
      have hrest := ih (fun x hx => hlift x (List.mem_cons_of_mem id hx)) (hkeep hs).1
      refine Outcome.bind (hrest.mono (fun _ _ h => h) fun e s'' ⟨hkeep', he⟩ => ⟨?_, he⟩)
        fun ts s'' ⟨hkeep', hnone', hts⟩ => ⟨IsTrans.trans _ _ _ hkeep hkeep', hnone', ?_, hts⟩
      · exact IsTrans.trans _ _ _ hkeep hkeep'
      · exact ht.mono (hkeep' (hkeep hs).1).2

/-- The rest of a function type, once its result is lifted. -/
theorem signature_outcome (hfails : Blames fails) {lift : TypeId → Lift QualType} {inputs : List TypeId}
    (hlift : ∀ id ∈ inputs, LiftsTree g target fails (g.types.tree id) (lift id)) {s : LiftState}
    (hs : s.TypesLifted g target) {x : QualType} {c : CType} (hx : s.program.types.Denotes x c) :
    Outcome (do
        let params ← inputs.mapM lift
        typed (Check.functionType x params false) : Lift QualType) s
      (fun t s' => KeepsTypes g target s s' ∧
        (inputs.map g.types.tree).findSome? ShapeTree.fault? = none ∧ s'.program.types.Denotes t
          (.function .none c (ShapeTree.ctypes target (inputs.map g.types.tree)) false))
      (fun e s' => KeepsTypes g target s s' ∧
        fails ((inputs.map g.types.tree).findSome? ShapeTree.fault?) e) := by
  refine (mapM_outcome hfails hlift hs).bind fun ts s' ⟨hkeep, hnone, hts⟩ => ?_
  have hwithin := s'.program.types.within_intern (.function x ts false)
  have hkept := (hkeep hs).2
  exact ⟨IsTrans.trans _ _ _ hkeep (keepsTypes_of_within rfl hwithin rfl), hnone, rfl, x, ts,
    s'.program.types.get?_intern_self _, (hx.mono hkept).mono hwithin, hts.mono hwithin⟩

/-- Lifting one level of a type whose parts are lifted right. -/
theorem shape_outcome (hfails : Blames fails) {lift : TypeId → Lift QualType} {id : TypeId} {sh : Shape}
    (hget : env.graph.types.get? id = some sh)
    (hlift : ∀ part ∈ sh.parts,
      LiftsTree env.graph target fails (env.graph.types.tree part) (lift part)) :
    LiftsTree env.graph target fails (sh.unfold env.graph.types.tree) (shape env lift id sh) := by
  intro s hs
  cases sh with
  | plain kind quals =>
      refine (qualified_outcome env.graph target kind.builtin _ s).mono ?_ fun _ _ h => h.elim
      rintro t s' ⟨hkeep, ht⟩
      exact ⟨hkeep, rfl, ht⟩
  | integer kind quals =>
      refine Outcome.get_bind ?_
      rw [hs.onTarget, spelled_eq]
      refine (qualified_outcome env.graph target _ _ s).mono ?_ fun _ _ h => h.elim
      rintro t s' ⟨hkeep, ht⟩
      exact ⟨hkeep, rfl, ht⟩
  | pointer element quals =>
      have hpart := hlift element List.mem_cons_self s hs
      simp only [Shape.unfold, ShapeTree.fault?_pointer, ShapeTree.ctype]
      refine hpart.bind ?_
      rintro x s' ⟨hkeep, hnone, hx⟩
      refine (interned_outcome env.graph target (.pointer x) (quals.getD .none) s').mono ?_
        fun _ _ h => h.elim
      rintro t s'' ⟨hkeep', hnode, hquals, hwithin⟩
      exact ⟨IsTrans.trans _ _ _ hkeep hkeep', hnone, hquals, x, hnode, hx.mono hwithin⟩
  | array element size quals =>
      have hpart := hlift element List.mem_cons_self s hs
      simp only [Shape.unfold, ShapeTree.fault?_array, ShapeTree.ctype]
      refine hpart.bind ?_
      rintro x s' ⟨hkeep, hnone, hx⟩
      refine (interned_outcome env.graph target (.array x size) (quals.getD .none) s').mono ?_
        fun _ _ h => h.elim
      rintro t s'' ⟨hkeep', hnode, hquals, hwithin⟩
      exact ⟨IsTrans.trans _ _ _ hkeep hkeep', hnone, hquals, x, hnode, hx.mono hwithin⟩
  | lvalue element =>
      have hpart := hlift element List.mem_cons_self s hs
      simp only [Shape.unfold, ShapeTree.fault?_lvalue, ShapeTree.ctype]
      exact hpart
  | named kind name =>
      have htext : env.graph.types.text id = (ShapeTree.named kind name).text := by
        rw [TypeTable.text, TypeTable.tree, TypeTable.treeAux_succ, TypeTable.levelOver, hget]
        rfl
      exact ⟨Std.Refl.refl s, htext ▸ hfails.self _⟩
  | function inputs results =>
      have hinputs : ∀ x ∈ inputs, LiftsTree env.graph target fails (env.graph.types.tree x) (lift x) :=
        fun x hx => hlift x (List.mem_append_left results hx)
      have hresults : ∀ x ∈ results,
          LiftsTree env.graph target fails (env.graph.types.tree x) (lift x) := fun x hx =>
        hlift x (List.mem_append_right inputs hx)
      simp only [Shape.unfold, ShapeTree.fault?_function, ShapeTree.ctype]
      cases results with
      | nil =>
          have hvoid := s.program.types.within_intern (.builtin .void)
          have hkeep : KeepsTypes env.graph target s
              { s with program := (s.program.internNode (.builtin .void)).2 } :=
            keepsTypes_of_within rfl hvoid rfl
          refine Outcome.bind (P := fun x s' => KeepsTypes env.graph target s s' ∧
            s'.program.types.Denotes x (.builtin .none .void))
            ⟨hkeep, rfl, s.program.types.get?_intern_self _⟩ ?_
          rintro x s' ⟨hkeep, hx⟩
          exact (signature_outcome hfails hinputs (hkeep hs).1 hx).mono
            (fun t s'' h => h.imp_left (IsTrans.trans _ _ _ hkeep))
            fun e s'' h => h.imp_left (IsTrans.trans _ _ _ hkeep)
      | cons result rest =>
          cases rest with
          | nil =>
              show Outcome _ s
                (fun t s' => _ ∧ (_ :: _ : List ShapeTree).findSome? ShapeTree.fault? = none ∧ _)
                fun e s' => _ ∧ fails ((_ :: _ : List ShapeTree).findSome? ShapeTree.fault?) e
              rw [findSome?_fault_cons]
              have hresult := (hresults result List.mem_cons_self s hs).mono (fun _ _ h => h)
                fun e s' h => h.imp_right
                  (hfails.rest ((inputs.map env.graph.types.tree).findSome? ShapeTree.fault?))
              refine hresult.bind ?_
              rintro x s' ⟨hkeep, hnone, hx⟩
              rw [hnone, Option.none_or]
              exact (signature_outcome hfails hinputs (hkeep hs).1 hx).mono
                (fun t s'' h => h.imp_left (IsTrans.trans _ _ _ hkeep))
                fun e s'' h => h.imp_left (IsTrans.trans _ _ _ hkeep)
          | cons second rest =>
              refine ⟨Std.Refl.refl s, ?_⟩
              rw [ShapeTree.offence?, if_pos (by simp), List.length_map]
              exact hfails.rest _ (hfails.self _)

/-- A type gives what it stands for or fails with its first fault, whatever was lifted before. If the
bound may cut it off, nothing is said of the error. -/
theorem typeAux_lifts (hfails : Blames fails) (bound : Nat) (id : TypeId)
    (hbound : ¬ env.graph.types.Ends bound id → ∀ fault e, fails fault e) :
    LiftsTree env.graph target fails (env.graph.types.tree id) (typeAux env bound id) := by
  have unknown {id : TypeId} (hget : env.graph.types.get? id = none) :
      fails (env.graph.types.tree id).fault? (.unsupportedType (TypeId.text id)) := by
    rw [TypeTable.tree, TypeTable.treeAux_of_none hget]
    exact hfails.self _
  induction bound generalizing id with
  | zero =>
      intro s hs
      unfold typeAux
      refine Outcome.get_bind ?_
      cases hcached : s.typeOf.get? id with
      | some t => exact ⟨Std.Refl.refl s, hs.types id t hcached⟩
      | none =>
          cases hget : env.graph.types.get? id with
          | none => exact ⟨Std.Refl.refl s, unknown hget⟩
          | some sh =>
              refine ⟨Std.Refl.refl s, hbound (fun hends => ?_) _ _⟩
              cases hget.symm.trans hends
  | succ bound ih =>
      intro s hs
      unfold typeAux
      refine Outcome.get_bind ?_
      cases hcached : s.typeOf.get? id with
      | some t => exact ⟨Std.Refl.refl s, hs.types id t hcached⟩
      | none =>
          cases hget : env.graph.types.get? id with
          | none => exact ⟨Std.Refl.refl s, unknown hget⟩
          | some sh =>
              have hparts : ∀ part ∈ sh.parts, LiftsTree env.graph target fails
                  (env.graph.types.tree part) (typeAux env bound part) := fun part hpart =>
                ih part fun hends => hbound fun hends' => hends (hends' sh hget part hpart)
              have hblamed : ∀ e, fails (sh.unfold env.graph.types.tree).fault? e →
                  fails (env.graph.types.tree id).fault? e := by
                intro e he
                by_cases hends : env.graph.types.Ends (bound + 1) id
                · rw [hends.tree_eq, TypeTable.levelOver, hget]
                  exact he
                · exact hbound hends _ e
              have hshape := (shape_outcome hfails hget hparts s hs).mono (fun _ _ h => h)
                fun e s' h => h.imp_right (hblamed e)
              refine hshape.bind ?_
              rintro t s' ⟨hkeep, hnone, ht⟩
              have htree : env.graph.types.tree id = sh.unfold env.graph.types.tree :=
                TypeTable.tree_eq_of_unfold hget hnone
              rw [← htree] at hnone ht
              refine ⟨IsTrans.trans _ _ _ hkeep fun hs' =>
                ⟨⟨hs'.onTarget, fun x u hu => ?_⟩, .refl _⟩, hnone, ht⟩
              rw [Dict.get?_insert] at hu
              split at hu
              · next hx =>
                  subst hx
                  cases hu
                  exact ⟨hnone, ht⟩
              · exact hs'.types x u hu

theorem type_lifts (h : env.graph.types.Ordered) (id : TypeId) :
    LiftsType env.graph target id (type env id) :=
  typeAux_lifts blames_eq _ id fun hends => absurd (h.ends fun hid => hid) hends

/-- Whatever the table, lifting a type fails if and only if the type has a fault. -/
theorem type_lifts_or_faulty (id : TypeId) :
    LiftsTree env.graph target (fun fault _ => fault ≠ none) (env.graph.types.tree id) (type env id) := by
  intro s hs
  by_cases hends : env.graph.types.Ends env.graph.types.size id
  · refine (typeAux_lifts blames_eq _ id (fun h => absurd hends h) s hs).mono (fun _ _ h => h) ?_
    rintro e s' ⟨hkeep, he⟩
    exact ⟨hkeep, by rw [he]; nofun⟩
  · refine (typeAux_lifts blames_any _ id (fun _ _ _ => trivial) s hs).mono (fun _ _ h => h) ?_
    rintro e s' ⟨hkeep, -⟩
    exact ⟨hkeep, TypeTable.treeAux_faulty hends _⟩

end Lift

end Readback
