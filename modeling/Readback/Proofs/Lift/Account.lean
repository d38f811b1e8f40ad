import Readback.Proofs.Graph.Types
import Readback.Proofs.Lift.Structure
import Readback.Proofs.Program.Roll

/-! # Accounts of a lift

What a lift notes down besides its program are its `Tables`: what was lifted, declared and named, and
the tasks that were put off. Only the rules for declarations and the recording of operations change
them, or the roll of the program. So most of a lift need not be looked at to say what becomes of them.

* An `Account` says what runs may do to tables and roll, separately for runs that succeed and visited a
  list of operations and for runs that fail. It allows whatever leaves both alone, and it allows runs one
  after the other. `Account.still` allows nothing else; an account that is `Account.Free` does not care
  for the roll.
* A step follows an account if all its runs are as the account says (`Account.Follows`). Steps for types,
  values and expressions follow every account (`Lift.type_follows`, `Lift.simpleExpr_follows`), those for
  regions do if lifting their operations does (`Lift.stmts_follows`, `Lift.yields_follows`), and so do the
  statements with regions (`Lift.ifElse_follows`, `Lift.forLoop_follows`).
* What the rules for functions and variables do to tables and roll is said exactly: they make the next
  declaration, note it and put off the task that fills it (`Declares`, `Lift.function_declares`,
  `Lift.var_declares`), and a run that fails has put off nothing (`Lift.Halts`).

Together, the rule for an operation follows an account if declarations and the operations of its regions
do (`Lift.rule_follows`), and so do tasks and whole queues (`Lift.task_follows`, `Lift.drain_follows`). An
invariant of tables and roll is then proved by giving an account. -/

namespace Readback

open Step

/-! ### Tables -/

/-- What a lift notes down about operations, symbols and tasks. -/
structure Tables where
  opStmt : Dict OpId (Option StmtId)
  opDecl : Dict OpId DeclId
  symbols : Dict String DeclId
  queue : Queue Task
  opsLifted : Nat
  deferredEnqueued : Nat

/-- The tables of a state. -/
def LiftState.tables (s : LiftState) : Tables :=
  ⟨s.opStmt, s.opDecl, s.symbols, s.queue, s.stats.opsLifted, s.stats.deferredEnqueued⟩

/-- The tables of a state and the roll of its program. -/
def LiftState.records (s : LiftState) : Tables × Roll := (s.tables, s.program.roll)

theorem LiftState.tables_of_records {s t : LiftState} (h : Same records s t) : t.tables = s.tables :=
  congrArg Prod.fst h

theorem LiftState.roll_of_records {s t : LiftState} (h : Same records s t) :
    t.program.roll = s.program.roll := congrArg Prod.snd h

/-- The failure is not that a bound was reached, unless types may contain themselves, and not that a
symbol is unknown, unless it is. -/
structure LiftError.Plain (g : Graph) (symbols : Dict String DeclId) (e : LiftError) : Prop where
  bounded : e = .unbounded → ¬ g.types.Ordered
  known : ∀ name, e = .unresolved ("@" ++ name) → symbols.get? name = none

theorem Value.text_ne (v : Value) (name : String) : v.text ≠ "@" ++ name := by
  intro h
  have hhead : v.text.toList.head? = some '@' := by simp [h]
  revert hhead
  unfold text
  split <;> simp

theorem LiftError.plain_malformed (g : Graph) (symbols : Dict String DeclId) (message : String) :
    (LiftError.malformed message).Plain g symbols := ⟨nofun, nofun⟩

theorem LiftError.plain_typing (g : Graph) (symbols : Dict String DeclId) (fault : Fault) :
    (LiftError.typing fault).Plain g symbols := ⟨nofun, nofun⟩

theorem LiftError.plain_unsupportedType (g : Graph) (symbols : Dict String DeclId) (type : String) :
    (LiftError.unsupportedType type).Plain g symbols := ⟨nofun, nofun⟩

theorem LiftError.plain_unbounded {g : Graph} (h : ¬ g.types.Ordered)
    (symbols : Dict String DeclId) : LiftError.unbounded.Plain g symbols := ⟨fun _ => h, nofun⟩

theorem LiftError.plain_value (g : Graph) (symbols : Dict String DeclId) (v : Value) :
    (LiftError.unresolved v.text).Plain g symbols :=
  ⟨nofun, fun name h => absurd (LiftError.unresolved.inj h) (v.text_ne name)⟩

/-! ### Accounts -/

/-- What runs of a lift may do: `done l s t` if the run succeeds and visited the operations `l`, and
`failed s e t` if it fails. -/
structure Account (g : Graph) where
  done : List OpId → LiftState → LiftState → Prop
  failed : LiftState → LiftError → LiftState → Prop
  idle : ∀ {s t}, Same LiftState.records s t → done [] s t
  append : ∀ {a b s t u}, done a s t → done b t u → done (a ++ b) s u
  fails : ∀ {s e t}, Same LiftState.tables s t → e.Plain g s.symbols → failed s e t
  later : ∀ {a s t e u}, done a s t → failed t e u → failed s e u

namespace Account

variable {g : Graph} {A : Account g} {α β : Type} {l : List OpId}

/-- The account of runs that leave tables and roll alone. -/
def still (g : Graph) : Account g where
  done _ := Same LiftState.records
  failed s e t := Same LiftState.tables s t ∧ e.Plain g s.symbols
  idle h := h
  append h h' := IsTrans.trans _ _ _ h h'
  fails h he := ⟨h, he⟩
  later {_ s t _ _} h h' := by
    have htables := LiftState.tables_of_records h
    have hsymbols : t.symbols = s.symbols := congrArg Tables.symbols htables
    exact ⟨h'.1.trans htables, hsymbols ▸ h'.2⟩

/-- The account does not care for the roll. -/
def Free (A : Account g) : Prop := ∀ {s t}, Same LiftState.tables s t → A.done [] s t

/-- Every run of the step is as the account says. -/
def Follows (A : Account g) (l : List OpId) (m : Lift α) : Prop :=
  ∀ s, Outcome m s (fun _ => A.done l s) (A.failed s)

theorem Follows.append {m : Lift α} {f : α → Lift β} {a b : List OpId} (hm : A.Follows a m)
    (hf : ∀ x, A.Follows b (f x)) : A.Follows (a ++ b) (m >>= f) := by
  intro s
  refine Outcome.bind (P := fun _ => A.done a s) (hm s) fun x t ht => ?_
  exact (hf x t).mono (fun _ _ hu => A.append ht hu) fun _ _ hu => A.later ht hu

/-- A step that visits nothing, and then another one. -/
theorem Follows.bind {m : Lift α} {f : α → Lift β} (hm : A.Follows [] m)
    (hf : ∀ x, A.Follows l (f x)) : A.Follows l (m >>= f) := hm.append hf

/-- A step, and then another one that visits nothing. -/
theorem Follows.close {m : Lift α} {f : α → Lift β} (hm : A.Follows l m)
    (hf : ∀ x, A.Follows [] (f x)) : A.Follows l (m >>= f) := by
  have h := hm.append hf
  rwa [List.append_nil] at h

theorem Follows.pure (a : α) : A.Follows [] (pure a : Lift α) := fun _ => A.idle rfl

theorem Follows.throw {e : LiftError} (he : ∀ symbols, e.Plain g symbols) :
    A.Follows l (throw e : Lift α) := fun _ => A.fails rfl (he _)

theorem Follows.get_bind {f : LiftState → Lift α}
    (hf : ∀ s, Outcome (f s) s (fun _ => A.done l s) (A.failed s)) : A.Follows l (get >>= f) := hf

theorem Follows.modify {f : LiftState → LiftState} (hf : ∀ s, A.done l s (f s)) :
    A.Follows l (modify f : Lift PUnit) := hf

theorem Follows.map {m : Lift α} (hm : A.Follows l m) (f : α → β) : A.Follows l (f <$> m) :=
  fun s => Outcome.map (hm s)

theorem Follows.guard {c : Prop} [Decidable c] {e : LiftError} {k : Lift α}
    (he : ∀ symbols, e.Plain g symbols) (hk : A.Follows l k) :
    A.Follows l (if c then do let _ ← (MonadExcept.throw e : Lift PUnit); k else k) := by
  split
  · exact .throw he
  · exact hk

theorem Follows.mapM {γ : Type} {f : γ → Lift α} {xs : List γ} (hf : ∀ x ∈ xs, A.Follows [] (f x)) :
    A.Follows [] (xs.mapM f) := by
  induction xs with
  | nil => exact .pure []
  | cons x xs ih =>
      rw [List.mapM_cons]
      refine .bind (hf x List.mem_cons_self) fun _ => .bind (ih fun y hy => ?_) fun _ => .pure _
      exact hf y (List.mem_cons_of_mem x hy)

theorem Follows.forM {f : OpId → Lift PUnit} {ops : List OpId} {visits : OpId → List OpId}
    (hf : ∀ op ∈ ops, A.Follows (visits op) (f op)) :
    A.Follows (ops.flatMap visits) (ops.forM f) := by
  induction ops with
  | nil => exact .pure _
  | cons op ops ih =>
      rw [List.flatMap_cons]
      refine .append (hf op List.mem_cons_self) fun _ => ih fun x hx => ?_
      exact hf x (List.mem_cons_of_mem op hx)

end Account

open Account LiftState

/-- The regions that are read are regions of the operation, in their order. -/
theorem Graph.readRegions_sublist (g : Graph) (o : Operation) :
    (g.readRegions o).Sublist o.regions := by
  have hfirst : ∀ {r : Option RegionId}, (∀ x, r = some x → o.regions.head? = some x) →
      r.toList.Sublist o.regions := by
    intro r hr
    cases r with
    | none => exact List.nil_sublist _
    | some x => exact List.singleton_sublist.mpr (List.mem_of_head? (hr x rfl))
  have htwo : o.regions[0]?.toList ++ o.regions[1]?.toList = o.regions.take 2 := by
    rcases o.regions with _ | ⟨a, _ | ⟨b, l⟩⟩ <;> rfl
  have hthree : o.regions[0]?.toList ++ o.regions[1]?.toList ++ o.regions[2]?.toList =
      o.regions.take 3 := by
    rcases o.regions with _ | ⟨a, _ | ⟨b, _ | ⟨c, l⟩⟩⟩ <;> rfl
  have hfilling : (g.filling? o).toList.Sublist o.regions := by
    refine hfirst fun x hx => ?_
    unfold filling? at hx
    split at hx
    · split at hx
      · exact hx
      · cases hx
    · exact (Option.filter_eq_some_iff.mp hx).1
    · cases hx
  unfold readRegions
  split
  · exact hfirst fun x hx => by rw [List.head?_eq_getElem?, hx]
  · exact .refl _
  · exact hfilling
  · exact hfilling
  · exact hfirst fun x hx => hx
  · refine .trans (.append (.refl _) ?_) (hthree ▸ List.take_sublist 3 o.regions)
    rw [elseRegion?]
    cases o.regions[2]? with
    | none => exact .refl _
    | some r =>
        rw [Option.filter_some]
        split
        · exact .refl _
        · exact List.nil_sublist _
  · exact htwo ▸ List.take_sublist 2 o.regions
  · exact htwo ▸ List.take_sublist 2 o.regions
  · exact hthree ▸ List.take_sublist 3 o.regions
  · exact List.nil_sublist _

theorem Graph.readRegions_subset (g : Graph) (o : Operation) : g.readRegions o ⊆ o.regions :=
  (g.readRegions_sublist o).subset

/-- What fills a declaration is a region of the operation. -/
theorem Graph.mem_of_filling? {g : Graph} {o : Operation} {r : RegionId} (h : g.filling? o = some r) :
    r ∈ o.regions := by
  unfold filling? at h
  split at h
  · split at h
    · exact List.mem_of_head? h
    · cases h
  · exact List.mem_of_head? (Option.filter_eq_some_iff.mp h).1
  · cases h

/-- Whether the operation introduces a declaration. -/
def Operation.isDeclaration (o : Operation) : Bool :=
  match o.kind? with
  | some .function | some .var | some .record => true
  | _ => false

/-- The operations that are lifted along with an operation, in order. -/
def Graph.innerOps (g : Graph) (o : Operation) : List OpId := (g.readRegions o).flatMap g.regionOps

namespace Lift

/-! ### Types, values and expressions -/

section Expr

section Any

variable {g : Graph} {A : Account g} {α : Type}

theorem typed_follows {step : Check α} (h : Moves (Same Program.roll) step) :
    A.Follows [] (typed step) := by
  intro s
  have hroll := h s.program
  unfold after at hroll
  unfold Outcome typed
  cases hs : step s.program with
  | ok a p =>
      rw [hs] at hroll
      exact A.idle (Prod.ext rfl hroll)
  | error fault p => exact A.fails rfl (LiftError.plain_typing ..)

/-- Any step of construction, for an account that does not care for the roll. -/
theorem typed_free (hA : A.Free) (step : Check α) : A.Follows [] (typed step) := by
  intro s
  unfold Outcome typed
  cases step s.program with
  | ok a p => exact hA rfl
  | error fault p => exact A.fails rfl (LiftError.plain_typing ..)

theorem program_follows : A.Follows [] program := .get_bind fun _ => A.idle rfl

theorem value_follows (v : Value) : A.Follows [] (value v) := by
  refine .get_bind fun s => ?_
  split
  · exact typed_follows (Check.declRef_moves _) s
  · exact A.idle rfl
  · exact typed_follows (Check.declRef_moves _) s
  · exact A.fails rfl (LiftError.plain_value ..)

end Any

variable {env : LiftEnv} {A : Account env.graph} {α : Type} {l : List OpId}

theorem chooseName_follows (role : NameRole) (o : Operation) (index : Nat) :
    A.Follows [] (chooseName env role o index) :=
  .bind (.modify fun _ => A.idle rfl) fun _ => .pure _

theorem operation_bind {id : OpId} {f : Operation → Lift α}
    (hf : ∀ o, env.graph.op? id = some o → A.Follows l (f o)) :
    A.Follows l (operation env id >>= f) := by
  unfold operation
  split
  · next o ho => exact hf o ho
  · exact .throw fun _ => LiftError.plain_malformed ..

theorem region_bind {o : Operation} {index : Nat} {what : String} {f : RegionId → Lift α}
    (hf : ∀ r, o.regions[index]? = some r → A.Follows l (f r)) :
    A.Follows l (region env o index what >>= f) := by
  unfold region
  split
  · next r hr => exact hf r hr
  · exact .throw fun _ => LiftError.plain_malformed ..

theorem operand_follows (o : Operation) (index : Nat) : A.Follows [] (operand env o index) := by
  unfold operand
  split
  · exact .pure _
  · exact .throw fun _ => LiftError.plain_malformed ..

theorem resultType_follows (o : Operation) : A.Follows [] (resultType env o) := by
  unfold resultType
  split
  · exact .pure _
  · exact .throw fun _ => LiftError.plain_malformed ..

theorem shape_follows {lift : TypeId → Lift QualType} {s : Shape}
    (hlift : ∀ part ∈ s.parts, A.Follows [] (lift part)) (id : TypeId) :
    A.Follows [] (shape env lift id s) := by
  have qualified_follows (kind quals) : A.Follows [] (qualified kind quals) :=
    .bind (typed_follows (Check.internNode_moves _)) fun _ => .pure _
  cases s with
  | plain kind quals => exact qualified_follows _ _
  | integer kind quals => exact .bind program_follows fun _ => qualified_follows _ _
  | pointer element quals =>
      exact .bind (hlift element List.mem_cons_self) fun _ =>
        .bind (typed_follows (Check.internNode_moves _)) fun _ => .pure _
  | array element size quals =>
      exact .bind (hlift element List.mem_cons_self) fun _ =>
        .bind (typed_follows (Check.internNode_moves _)) fun _ => .pure _
  | lvalue element => exact hlift element List.mem_cons_self
  | function inputs results =>
      have rest (result : QualType) : A.Follows [] (do
          let params ← inputs.mapM lift
          typed (Check.functionType result params false)) :=
        .bind (.mapM fun id hid => hlift id (List.mem_append_left results hid)) fun _ =>
          typed_follows (Check.internNode_moves _)
      match results with
      | [] => exact .bind (typed_follows (Check.internNode_moves _)) rest
      | [single] =>
          exact .bind (hlift single (List.mem_append_right inputs List.mem_cons_self)) rest
      | _ :: _ :: _ => exact .bind (.throw fun _ => LiftError.plain_malformed ..) rest
  | named _ _ => exact .throw fun _ => LiftError.plain_unsupportedType ..

/-- Where types come after their parts, a bound above a type is not reached. -/
theorem typeAux_follows (bound : Nat) (id : TypeId)
    (hbound : env.graph.types.Ordered → id < bound ∨ env.graph.types.size ≤ id) :
    A.Follows [] (typeAux env bound id) := by
  induction bound generalizing id with
  | zero =>
      unfold typeAux
      refine .get_bind fun s => ?_
      split
      · exact A.idle rfl
      · split
        · exact A.fails rfl (LiftError.plain_unsupportedType ..)
        · next hget _ =>
            refine A.fails rfl (LiftError.plain_unbounded (fun hord => ?_) _)
            have hlt := Interned.lt_of_get? hget
            rcases hbound hord with h | h
            · exact Nat.not_lt_zero _ h
            · exact absurd hlt (Nat.not_lt.mpr h)
        · next h => cases h
  | succ bound ih =>
      unfold typeAux
      refine .get_bind fun s => ?_
      split
      · exact A.idle rfl
      · split
        · exact A.fails rfl (LiftError.plain_unsupportedType ..)
        · next h => cases h
        · next hget h =>
            cases h
            suffices hrest : A.Follows [] _ from hrest s
            refine .bind (shape_follows (fun part hpart => ih part fun hord => ?_) id) fun t =>
              .bind (.modify fun _ => A.idle rfl) fun _ => .pure _
            have hlt := Interned.lt_of_get? hget
            have hpart := hord id _ hget part hpart
            rcases hbound hord with h | h
            · exact .inl (Nat.lt_of_lt_of_le hpart (Nat.le_of_lt_succ h))
            · exact absurd hlt (Nat.not_lt.mpr h)

theorem type_follows (id : TypeId) : A.Follows [] (type env id) :=
  typeAux_follows _ id fun _ => Nat.lt_or_ge _ _

theorem operandValue_follows (o : Operation) (index : Nat) :
    A.Follows [] (operandValue env o index) := .bind (operand_follows o index) value_follows

theorem symbolRef_follows (o : Operation) (name : String) : A.Follows [] (symbolRef env o name) := by
  refine .bind ?_ fun _ => typed_follows (Check.declRef_moves _)
  unfold symbol
  split
  · exact .throw fun _ => LiftError.plain_malformed ..
  · refine .get_bind fun s => ?_
    split
    · exact A.idle rfl
    · next hnone =>
        refine A.fails rfl ⟨nofun, fun name h => ?_⟩
        have hname := congrArg String.toList (LiftError.unresolved.inj h)
        simp only [String.toList_append, List.append_cancel_left_eq, String.toList_inj] at hname
        rwa [← hname]

theorem binary_follows (o : Operation) (op : BinaryOp) : A.Follows [] (binary env o op) :=
  .bind (operand_follows o 0) fun _ => .bind (operand_follows o 1) fun _ =>
    .bind (value_follows _) fun _ => .bind (value_follows _) fun _ =>
      typed_follows (Check.binary_moves _ _ _)

theorem compare_follows (o : Operation) : A.Follows [] (compare env o) := by
  unfold compare
  split
  · exact binary_follows o _
  · exact .throw fun _ => LiftError.plain_malformed ..

theorem constant_follows (o : Operation) : A.Follows [] (constant env o) := by
  unfold constant
  split
  · exact .throw fun _ => LiftError.plain_malformed ..
  · exact .bind (resultType_follows o) fun _ => .bind (type_follows _) fun _ =>
      typed_follows (Check.integer_moves _ _)
  · exact .bind (resultType_follows o) fun _ => .bind (type_follows _) fun _ =>
      typed_follows (Check.floating_moves _ _)
  · exact typed_follows (Check.text_moves _)
  · exact .throw fun _ => ⟨nofun, nofun⟩

theorem cast_follows (o : Operation) (style : CastStyle) : A.Follows [] (cast env o style) := by
  unfold cast
  split
  · exact .guard (fun _ => ⟨nofun, nofun⟩) (.bind (resultType_follows o) fun _ =>
      .bind (type_follows _) fun _ => .bind (operandValue_follows o 0) fun _ =>
        typed_follows (Check.cast_moves _ _ _ _ _))
  · exact .throw fun _ => LiftError.plain_malformed ..

theorem call_follows (o : Operation) : A.Follows [] (call env o) :=
  .guard (fun _ => LiftError.plain_malformed ..) (.bind (symbolRef_follows o _) fun _ =>
    .bind (.mapM fun v _ => value_follows v) fun _ => typed_follows (Check.call_moves _ _))

theorem initList_follows (o : Operation) : A.Follows [] (initList env o) :=
  .bind (resultType_follows o) fun _ => .bind (type_follows _) fun _ =>
    .bind (.mapM fun v _ => value_follows v) fun _ => typed_follows (Check.initList_moves _ _)

theorem simpleExpr_follows (o : Operation) (kind : Kind) : A.Follows [] (simpleExpr env o kind) := by
  unfold simpleExpr
  split
  · exact operandValue_follows o 0
  · exact operandValue_follows o 0
  · exact operandValue_follows o 0
  · exact symbolRef_follows o _
  · exact symbolRef_follows o _
  · exact call_follows o
  · exact constant_follows o
  · exact initList_follows o
  · exact cast_follows o _
  · exact cast_follows o _
  · exact compare_follows o
  · split
    · exact binary_follows o _
    · exact .bind (operandValue_follows o 0) fun _ => typed_follows (Check.unary_moves _ _)
    · exact .throw fun _ => ⟨nofun, nofun⟩

theorem returns_follows (scope : Scope) (o : Operation) : A.Follows [] (returns env scope o) := by
  unfold returns
  split
  · dsimp only
    split
    · exact .bind (.pure _) fun _ => typed_follows (Check.returns_moves _ _)
    · exact .bind (.map (value_follows _) _) fun _ => typed_follows (Check.returns_moves _ _)
    · exact .bind (.throw fun _ => LiftError.plain_malformed ..) fun _ =>
        typed_follows (Check.returns_moves _ _)
  · exact .throw fun _ => LiftError.plain_malformed ..

end Expr

/-! ### Regions -/

section Region

variable {env : LiftEnv} {A : Account env.graph} {lift : OpLifter} {scope : Scope}
  {visits : OpId → List OpId}

theorem stmts_follows {ops : List OpId} (hlift : ∀ op ∈ ops, A.Follows (visits op) (lift scope op)) :
    A.Follows (ops.flatMap visits) (stmts env lift scope ops) := by
  induction ops with
  | nil => exact .pure _
  | cons op rest ih =>
      have hrest := ih fun c hc => hlift c (List.mem_cons_of_mem op hc)
      rw [List.flatMap_cons]
      refine .append (hlift op List.mem_cons_self) fun stmt => ?_
      cases stmt with
      | none => exact hrest
      | some stmt => exact .bind program_follows fun _ => .close hrest fun _ => .pure _

theorem compound_follows {r : RegionId}
    (hlift : ∀ op ∈ env.graph.regionOps r, A.Follows (visits op) (lift scope op)) :
    A.Follows ((env.graph.regionOps r).flatMap visits) (compound env lift scope r) :=
  .close (stmts_follows hlift) fun _ => typed_follows (Check.pushStmt_moves _)

theorem yieldsAux_follows {r : RegionId} {ops : List OpId}
    (hlift : ∀ op ∈ ops, A.Follows (visits op) (lift scope op)) (y : Option ExprId)
    (unused : List ExprId) :
    A.Follows (ops.flatMap visits) (yieldsAux env lift scope r ops y unused) := by
  induction ops generalizing y unused with
  | nil => exact .pure _
  | cons op rest ih =>
      have hrest := ih fun c hc => hlift c (List.mem_cons_of_mem op hc)
      rw [List.flatMap_cons]
      refine .append (hlift op List.mem_cons_self) fun stmt => .bind program_follows fun p => ?_
      dsimp only
      split
      · refine .guard (fun _ => LiftError.plain_malformed ..) ?_
        split
        · exact .throw fun _ => LiftError.plain_malformed ..
        · exact hrest _ _
      · split
        · exact hrest _ _
        · exact hrest _ _

theorem yields_follows {r : RegionId}
    (hlift : ∀ op ∈ env.graph.regionOps r, A.Follows (visits op) (lift scope op)) :
    A.Follows ((env.graph.regionOps r).flatMap visits) (yields env lift scope r) :=
  yieldsAux_follows hlift none []

theorem yielded_follows {r : RegionId}
    (hlift : ∀ op ∈ env.graph.regionOps r, A.Follows (visits op) (lift scope op)) :
    A.Follows ((env.graph.regionOps r).flatMap visits) (yielded env lift scope r) := by
  refine .close (yields_follows hlift) fun x => ?_
  split
  · exact .pure _
  · exact .throw fun _ => LiftError.plain_malformed ..

theorem loopCondition_follows {r : RegionId}
    (hlift : ∀ op ∈ env.graph.regionOps r, A.Follows (visits op) (lift scope op)) :
    A.Follows ((env.graph.regionOps r).flatMap visits) (loopCondition env lift scope r) := by
  unfold loopCondition
  split
  · next hempty =>
      rw [List.isEmpty_iff.mp hempty]
      exact .pure _
  · exact .map (yielded_follows hlift) _

theorem loopIncrement_follows {o : Operation} {r : RegionId}
    (hlift : ∀ op ∈ env.graph.regionOps r, A.Follows (visits op) (lift scope op)) :
    A.Follows ((env.graph.regionOps r).flatMap visits) (loopIncrement env lift scope o r) := by
  refine .close (yields_follows hlift) fun x => ?_
  split
  · exact .pure _
  · exact .pure _
  · exact .pure _
  · exact .throw fun _ => LiftError.plain_malformed ..

variable {o : Operation}
  (hlift : ∀ op ∈ env.graph.innerOps o, A.Follows (visits op) (lift scope op))

include hlift

theorem wrapper_follows (hk : o.kind? = some .expression) :
    A.Follows ((env.graph.innerOps o).flatMap visits) (wrapper env lift scope o) := by
  unfold wrapper
  split
  · exact .throw fun _ => LiftError.plain_malformed ..
  · next r hr =>
      have hinner : env.graph.innerOps o = env.graph.regionOps r := by
        simp [Graph.innerOps, Graph.readRegions, hk, hr]
      rw [hinner] at hlift ⊢
      exact .guard (fun _ => LiftError.plain_malformed ..) (yielded_follows hlift)

theorem ifElse_follows (hk : o.kind? = some .ifStmt) :
    A.Follows ((env.graph.innerOps o).flatMap visits) (ifElse env lift scope o) := by
  refine region_bind fun cond hcond => region_bind fun yes hyes => ?_
  have hinner : env.graph.innerOps o = env.graph.regionOps cond ++
      (env.graph.regionOps yes ++ (env.graph.elseRegion? o).toList.flatMap env.graph.regionOps) := by
    simp [Graph.innerOps, Graph.readRegions, hk, hcond, hyes]
  rw [hinner] at hlift ⊢
  rw [List.flatMap_append, List.flatMap_append]
  simp only [List.mem_append] at hlift
  refine .append (yielded_follows fun op hop => hlift op (.inl hop)) fun _ =>
    .append (compound_follows fun op hop => hlift op (.inr (.inl hop))) fun _ => ?_
  refine .close ?_ fun _ => typed_follows (Check.controlled_moves _ (.ifElse · _ _))
  change A.Follows _ ((env.graph.elseRegion? o).mapM _)
  cases hno : env.graph.elseRegion? o with
  | none => exact .pure _
  | some no =>
      rw [Option.toList_some, List.flatMap_singleton]
      refine .map (compound_follows fun op hop => hlift op (.inr (.inr ?_))) _
      simpa [hno] using hop

theorem whileLoop_follows (hk : o.kind? = some .whileStmt) :
    A.Follows ((env.graph.innerOps o).flatMap visits) (whileLoop env lift scope o) := by
  refine region_bind fun cond hcond => region_bind fun body hbody => ?_
  have hinner : env.graph.innerOps o = env.graph.regionOps cond ++ env.graph.regionOps body := by
    simp [Graph.innerOps, Graph.readRegions, hk, hcond, hbody]
  rw [hinner] at hlift ⊢
  rw [List.flatMap_append]
  simp only [List.mem_append] at hlift
  exact .append (yielded_follows fun op hop => hlift op (.inl hop)) fun _ =>
    .close (compound_follows fun op hop => hlift op (.inr hop)) fun _ =>
      typed_follows (Check.controlled_moves _ (.whileLoop · _))

theorem doLoop_follows (hk : o.kind? = some .doStmt) :
    A.Follows ((env.graph.innerOps o).flatMap visits) (doLoop env lift scope o) := by
  refine region_bind fun body hbody => region_bind fun cond hcond => ?_
  have hinner : env.graph.innerOps o = env.graph.regionOps body ++ env.graph.regionOps cond := by
    simp [Graph.innerOps, Graph.readRegions, hk, hcond, hbody]
  rw [hinner] at hlift ⊢
  rw [List.flatMap_append]
  simp only [List.mem_append] at hlift
  exact .append (compound_follows fun op hop => hlift op (.inl hop)) fun _ =>
    .close (yielded_follows fun op hop => hlift op (.inr hop)) fun _ =>
      typed_follows (Check.controlled_moves _ (.doLoop _ ·))

theorem forLoop_follows (hk : o.kind? = some .forStmt) :
    A.Follows ((env.graph.innerOps o).flatMap visits) (forLoop env lift scope o) := by
  rw [forLoop_eq]
  refine region_bind fun cond hcond => region_bind fun inc hinc => region_bind fun body hbody => ?_
  have hinner : env.graph.innerOps o = env.graph.regionOps cond ++
      (env.graph.regionOps inc ++ env.graph.regionOps body) := by
    simp [Graph.innerOps, Graph.readRegions, hk, hcond, hinc, hbody]
  rw [hinner] at hlift ⊢
  rw [List.flatMap_append, List.flatMap_append]
  simp only [List.mem_append] at hlift
  exact .append (loopCondition_follows fun op hop => hlift op (.inl hop)) fun _ =>
    .append (loopIncrement_follows fun op hop => hlift op (.inr (.inl hop))) fun _ =>
    .close (compound_follows fun op hop => hlift op (.inr (.inr hop))) fun _ =>
      typed_follows (Check.forLoop_moves _ _ _ _)

theorem innerScope_follows (hk : o.kind? = none) :
    A.Follows ((env.graph.innerOps o).flatMap visits) (innerScope env lift scope o) := by
  refine region_bind fun body hbody => ?_
  have hinner : env.graph.innerOps o = env.graph.regionOps body := by
    simp [Graph.innerOps, Graph.readRegions, hk, hbody]
  rw [hinner] at hlift ⊢
  exact compound_follows hlift

end Region

/-! ### Declarations -/

end Lift

/-- The tables when the declaration `d` was noted for the operation. -/
def Tables.noted (T : Tables) (scope : Scope) (o : Operation) (d : DeclId) : Tables :=
  { T with
    opDecl := T.opDecl.insert o.id d
    symbols :=
      if scope = .file then o.symbol?.elim T.symbols fun name => T.symbols.insert name d
      else T.symbols }

/-- The tables when the task, if there is one, was put off. -/
def Tables.deferring (T : Tables) : Option Task → Tables
  | none => T
  | some task =>
    { T with queue := T.queue.push task, deferredEnqueued := T.deferredEnqueued + 1 }

section Tables

variable (T : Tables) (scope : Scope) (o : Operation) (d : DeclId) (task : Option Task)

@[simp] theorem Tables.noted_opStmt : (T.noted scope o d).opStmt = T.opStmt := rfl

@[simp] theorem Tables.noted_opsLifted : (T.noted scope o d).opsLifted = T.opsLifted := rfl

@[simp] theorem Tables.deferring_opStmt : (T.deferring task).opStmt = T.opStmt := by
  cases task <;> rfl

@[simp] theorem Tables.deferring_opDecl : (T.deferring task).opDecl = T.opDecl := by
  cases task <;> rfl

@[simp] theorem Tables.deferring_symbols : (T.deferring task).symbols = T.symbols := by
  cases task <;> rfl

@[simp] theorem Tables.deferring_opsLifted : (T.deferring task).opsLifted = T.opsLifted := by
  cases task <;> rfl

end Tables

/-- A symbol that is unknown after a declaration was unknown before. -/
theorem LiftError.Plain.of_noted {g : Graph} {T : Tables} {scope : Scope} {o : Operation} {d : DeclId}
    {e : LiftError} (h : e.Plain g (T.noted scope o d).symbols) : e.Plain g T.symbols := by
  refine ⟨h.bounded, fun name he => ?_⟩
  have hnone := h.known name he
  unfold Tables.noted at hnone
  split at hnone
  · cases hsymbol : o.symbol? with
    | none => simpa [hsymbol] using hnone
    | some name' =>
        rw [hsymbol, Option.elim_some, Dict.get?_insert] at hnone
        split at hnone
        · cases hnone
        · exact hnone
  · exact hnone

/-- The scope in which a task lifts. -/
def Task.scope : Task → Scope
  | .body function _ => .function function
  | .init scope _ _ => scope

/-- The task that fills the declaration of an operation from a region. -/
def Operation.filler (o : Operation) (scope : Scope) (d : DeclId) (r : RegionId) : Task :=
  if o.kind? = some .function then .body d r else .init scope d r

theorem Operation.region_filler (o : Operation) (scope : Scope) (d : DeclId) (r : RegionId) :
    (o.filler scope d r).region = r := by
  unfold filler
  split <;> rfl

namespace Graph

/-- The types of the parameters of a function. -/
def inputs? (g : Graph) (o : Operation) : Option (List TypeId) :=
  ((o.typeAttr? AttrName.functionType).bind g.types.signature?).map Prod.fst

/-- The operations that stand for the fields of a record. -/
def fieldOps (g : Graph) (o : Operation) : List OpId := o.regions.head?.elim [] g.regionOps

/-- What declaring the operation in a scope does to a roll: it enters a function with its parameters,
a variable, or a record with its fields. -/
def Enters (g : Graph) (o : Operation) (scope : Scope) (R R' : Roll) : Prop :=
  match o.kind? with
  | some .function => ∃ inputs, g.inputs? o = some inputs ∧
      R' = ((R.declare scope .function).pushParams R.size 0 inputs.length).setParams R.size
        (List.range' (R.size + 1) inputs.length)
  | some .var => R' = R.declare scope .var
  | some .record => R' = (R.declare scope .record).pushFields R.size 0 (g.fieldOps o).length
  | _ => False

end Graph

namespace Lift

section Decl

variable {env : LiftEnv} {scope : Scope} {o : Operation} {α β : Type}

/-- What a declaration that failed with `e` has done: no task was put off. -/
def Halts (g : Graph) (scope : Scope) (o : Operation) (s : LiftState) (e : LiftError)
    (t : LiftState) : Prop :=
  e.Plain g s.symbols ∧ (t.tables = s.tables ∨ ∃ d, t.tables = s.tables.noted scope o d)

/-- The step declares the operation: it notes a declaration for it, and puts off the task that fills
the declaration if there is something to fill it with. If the scope is there, the declaration is the
next one on the roll. -/
def Declares (env : LiftEnv) (scope : Scope) (o : Operation) (m : Lift α) : Prop :=
  ∀ s, Outcome m s
    (fun _ t => ∃ d task,
      (task = (env.graph.filling? o).map (o.filler scope d) ∧
        (s.program.roll.Has scope → d = s.program.decls.size ∧
          env.graph.Enters o scope s.program.roll t.program.roll)) ∧
      t.tables = (s.tables.noted scope o d).deferring task)
    (Halts env.graph scope o s)

theorem halts_early {g : Graph} {s : LiftState} (e : LiftError) (t : LiftState)
    (he : e.Plain g s.tables.symbols) (ht : t.tables = s.tables) : Halts g scope o s e t :=
  ⟨he, .inl ht⟩

theorem halts_late {g : Graph} {s : LiftState} {d : DeclId} (e : LiftError) (t : LiftState)
    (he : e.Plain g (s.tables.noted scope o d).symbols) (ht : t.tables = s.tables.noted scope o d) :
    Halts g scope o s e t := ⟨he.of_noted, .inr ⟨d, ht⟩⟩

section Bind

variable {g : Graph} {s : LiftState} {T : Tables} {Q : β → LiftState → Prop}
  {E : LiftError → LiftState → Prop}

/-- A step that leaves tables and roll alone, and what follows it. -/
theorem still_bind {m : Lift α} {f : α → Lift β}
    (hE : ∀ e t, e.Plain g T.symbols → t.tables = T → E e t) (hs : s.tables = T)
    (hm : (still g).Follows [] m)
    (hf : ∀ a t, t.tables = T → t.program.roll = s.program.roll → Outcome (f a) t Q E) :
    Outcome (m >>= f) s Q E := by
  subst hs
  refine Outcome.bind (P := fun _ t => Same records s t) ?_ fun a t ht =>
    hf a t (tables_of_records ht) (roll_of_records ht)
  exact (hm s).mono (fun _ _ h => h) fun e t h => hE e t h.2 h.1

/-- A step of construction, and what follows it. -/
theorem typed_bind {m : Check α} {f : α → Lift β} {P : α → Program → Prop}
    (hE : ∀ e t, e.Plain g T.symbols → t.tables = T → E e t) (hs : s.tables = T)
    (hm : Gives m s.program P)
    (hf : ∀ a t, t.tables = T → P a t.program → Outcome (f a) t Q E) :
    Outcome (typed m >>= f) s Q E := by
  refine Outcome.bind (P := fun a t => t.tables = T ∧ P a t.program) ?_ fun a t ht => hf a t ht.1 ht.2
  unfold Gives Ensures at hm
  unfold Outcome typed
  cases h : m s.program with
  | ok a p =>
      rw [h] at hm
      exact ⟨hs, hm⟩
  | error fault p => exact hE _ _ (LiftError.plain_typing ..) hs

/-- Noting a declaration and its symbol, and what follows. -/
theorem note_bind {f : Lift β} {d : DeclId} (hs : s.tables = T)
    (hf : ∀ t, t.tables = T.noted scope o d → t.program = s.program → Outcome f t Q E) :
    Outcome (do noteDecl o.id d; registerSymbol scope o d; f) s Q E := by
  subst hs
  refine Outcome.bind (P := fun _ t => t = { s with opDecl := s.opDecl.insert o.id d })
    (by exact rfl) ?_
  rintro _ _ rfl
  refine Outcome.bind (P := fun _ t => t.tables = s.tables.noted scope o d ∧ t.program = s.program) ?_
    fun _ t ht => hf t ht.1 ht.2
  unfold registerSymbol Tables.noted
  split
  · split
    · next name hname => simp only [hname, Option.elim_some]; exact ⟨rfl, rfl⟩
    · next hname => simp only [hname, Option.elim_none]; exact ⟨rfl, rfl⟩
  · exact ⟨rfl, rfl⟩

/-- Putting a task off. -/
theorem defer_bind {f : Lift β} {task : Task} (hs : s.tables = T)
    (hf : ∀ t, t.tables = T.deferring (some task) → t.program = s.program → Outcome f t Q E) :
    Outcome (do defer task; f) s Q E := by
  subst hs
  exact hf _ rfl rfl

end Bind

/-- The parameters are the next declarations. -/
theorem params_enter (function : DeclId) (entry : Option BlockId) (index : Nat)
    (inputs : List TypeId) (s : LiftState) :
    Outcome (params env o function entry index inputs) s
      (fun list t => t.tables = s.tables ∧ list = List.range' s.program.decls.size inputs.length ∧
        t.program.roll = s.program.roll.pushParams function index inputs.length)
      ((still env.graph).failed s) := by
  induction inputs generalizing index s with
  | nil => exact ⟨rfl, rfl, rfl⟩
  | cons input rest ih =>
      have hE : ∀ e t, e.Plain env.graph s.tables.symbols → t.tables = s.tables →
          (still env.graph).failed s e t := fun _ _ he ht => ⟨ht, he⟩
      refine still_bind hE rfl (chooseName_follows _ o index) fun name t₁ h₁ r₁ =>
        still_bind hE h₁ (type_follows input) fun type t₂ h₂ r₂ =>
        typed_bind hE h₂ (Check.param_enters function name type index) fun d t₃ h₃ ⟨hd, r₃⟩ => ?_
      have hroll : t₃.program.roll = s.program.roll.push (.function function) (.param index) := by
        rw [r₃, r₂, r₁]
      have hsize : t₃.program.decls.size = s.program.decls.size + 1 := congrArg Roll.size hroll
      have hnew : d = s.program.decls.size := hd.trans (congrArg Roll.size (r₂.trans r₁))
      have others : ∀ t, t.tables = s.tables → t.program = t₃.program →
          Outcome (do
            let others ← params env o function entry (index + 1) rest
            return d :: others) t (fun list u => u.tables = s.tables ∧
              list = List.range' s.program.decls.size (rest.length + 1) ∧
              u.program.roll = s.program.roll.pushParams function index (rest.length + 1))
            ((still env.graph).failed s) := by
        intro t ht hp
        refine Outcome.bind (P := fun list u => u.tables = s.tables ∧
          list = List.range' (s.program.decls.size + 1) rest.length ∧
          u.program.roll = (s.program.roll.push (.function function) (.param index)).pushParams
            function (index + 1) rest.length) ?_ ?_
        · have hnext := ih (index + 1) t
          rw [hp, hsize, hroll] at hnext
          have hsymbols : t.symbols = s.symbols := congrArg Tables.symbols ht
          exact hnext.mono (fun _ _ h => ⟨h.1.trans ht, h.2⟩) fun e u h =>
            ⟨h.1.trans ht, hsymbols ▸ h.2⟩
        · rintro list u ⟨hu, rfl, hroll⟩
          exact ⟨hu, by rw [hnew, List.range'_succ], hroll⟩
      dsimp only
      split
      · exact Outcome.bind (P := fun _ t => t.tables = s.tables ∧ t.program = t₃.program)
          ⟨h₃, rfl⟩ fun _ t ht => others t ht.1 ht.2
      · exact others t₃ h₃ rfl

/-- A statement for a declaration can always be made. -/
theorem declStmt_outcome {E : LiftError → LiftState → Prop} (d : DeclId) (s : LiftState) :
    Outcome (declStmt? scope d) s (fun _ t => Same records s t) E := by
  unfold declStmt?
  split
  · exact rfl
  · exact rfl

theorem declStmt_follows {g : Graph} {A : Account g} (d : DeclId) :
    A.Follows [] (declStmt? scope d) := fun s =>
  (declStmt_outcome d s).mono (fun _ _ h => A.idle h) fun _ _ h => h

theorem function_declares (hk : o.kind? = some .function) :
    Declares env scope o (function env scope o) := by
  intro s
  unfold function
  split
  · exact halts_early _ s (LiftError.plain_malformed ..) rfl
  · next typeId htype =>
    split
    · exact halts_early _ s (LiftError.plain_malformed ..) rfl
    · next inputs _ hsig =>
      refine still_bind halts_early rfl (type_follows _) fun type t₁ h₁ r₁ =>
        still_bind halts_early h₁ (chooseName_follows _ o 0) fun name t₂ h₂ r₂ =>
        typed_bind halts_early h₂ (Check.functionDecl_enters scope name type) fun d t₃ h₃ ⟨hd, r₃⟩ =>
        typed_bind halts_early h₃ (Check.addDecl_lists scope d) fun _ t₄ h₄ r₄ =>
        note_bind h₄ fun t₅ h₅ p₅ => ?_
      dsimp only
      split
      · exact halts_late _ t₅ (LiftError.plain_malformed ..) h₅
      · refine Outcome.bind (P := fun list t => t.tables = s.tables.noted scope o d ∧
            list = List.range' t₅.program.decls.size inputs.length ∧
            t.program.roll = t₅.program.roll.pushParams d 0 inputs.length)
          ((params_enter d _ 0 inputs t₅).mono (fun _ _ h => ⟨h.1.trans h₅, h.2⟩) fun e t h =>
            halts_late e t (congrArg Tables.symbols h₅ ▸ h.2) (h.1.trans h₅)) ?_
        rintro list t₆ ⟨h₆, hlist, r₆⟩
        refine typed_bind halts_late h₆ (Check.setParams_enters d list) fun _ t₇ h₇ r₇ => ?_
        have hroll : s.program.roll.Has scope → d = s.program.decls.size ∧
            env.graph.Enters o scope s.program.roll t₇.program.roll := by
          intro hscope
          have hnew : d = s.program.decls.size := hd.trans (congrArg Roll.size (r₂.trans r₁))
          rw [r₂, r₁] at r₃
          have r₅ : t₅.program.roll = s.program.roll.declare scope .function := by
            rw [p₅, r₄ (by rw [r₃]; exact hscope.mono (Nat.le_succ _)), r₃, hnew]
            rfl
          have hsize : t₅.program.decls.size = s.program.decls.size + 1 := congrArg Roll.size r₅
          have hlt : d < t₆.program.decls.size := by
            have hsize₆ : t₆.program.decls.size = t₅.program.decls.size + inputs.length :=
              (congrArg Roll.size r₆).trans (Roll.size_pushParams ..)
            rw [hsize₆, hsize, hnew]
            exact Nat.lt_add_right _ (Nat.lt_succ_self _)
          unfold Graph.Enters
          rw [hk]
          refine ⟨hnew, inputs, by simp [Graph.inputs?, htype, hsig], ?_⟩
          rw [r₇ hlt, r₆, r₅, hlist, hsize, hnew]
          rfl
        have hfill : env.graph.filling? o =
            if (env.graph.entry? o).isSome then o.regions.head? else none := by
          simp [Graph.filling?, hk]
        split
        · next r _ hr hb =>
            refine ⟨d, some (.body d r), ⟨?_, hroll⟩, congrArg (Tables.deferring · (some _)) h₇⟩
            rw [hfill, Graph.entry?, hb, hr]
            simp [Operation.filler, hk]
        · next hnone =>
            refine ⟨d, none, ⟨?_, hroll⟩, h₇⟩
            rw [hfill]
            split
            · next hentry =>
                obtain ⟨b, hb⟩ := Option.isSome_iff_exists.mp hentry
                cases hr : o.regions.head? with
                | none => rfl
                | some r => exact (hnone r b hr hb).elim
            · rfl

theorem var_declares (hk : o.kind? = some .var) : Declares env scope o (var env scope o) := by
  intro s
  refine still_bind halts_early rfl (resultType_follows o) fun _ t₁ h₁ r₁ =>
    still_bind halts_early h₁ (type_follows _) fun type t₂ h₂ r₂ =>
    still_bind halts_early h₂ (chooseName_follows _ o 0) fun name t₃ h₃ r₃ =>
    typed_bind halts_early h₃ (Check.varDecl_enters scope name type _) fun d t₄ h₄ ⟨hd, r₄⟩ =>
    typed_bind halts_early h₄ (Check.addDecl_lists scope d) fun _ t₅ h₅ r₅ =>
    note_bind h₅ fun t₆ h₆ p₆ => ?_
  have hroll : ∀ {t : LiftState}, t.program.roll = t₆.program.roll → s.program.roll.Has scope →
      d = s.program.decls.size ∧ env.graph.Enters o scope s.program.roll t.program.roll := by
    intro t ht hscope
    have hold := r₃.trans (r₂.trans r₁)
    have hnew : d = s.program.decls.size := hd.trans (congrArg Roll.size hold)
    rw [hold] at r₄
    unfold Graph.Enters
    rw [hk, ht, p₆, r₅ (by rw [r₄]; exact hscope.mono (Nat.le_succ _)), r₄, hnew]
    exact ⟨rfl, rfl⟩
  have hfill : env.graph.filling? o =
      o.regions.head?.filter fun r => !(env.graph.regionOps r).isEmpty := by
    simp [Graph.filling?, hk]
  dsimp only
  split
  · next r hr =>
      split
      · next hops =>
          refine defer_bind h₆ fun t₇ h₇ p₇ => (declStmt_outcome d t₇).mono (fun _ t ht => ?_)
            fun _ _ h => h
          refine ⟨d, some (.init scope d r), ⟨?_, hroll (by rw [roll_of_records ht, p₇])⟩,
            (tables_of_records ht).trans h₇⟩
          rw [hfill, hr, Option.filter_some, if_pos hops]
          simp [Operation.filler, hk]
      · next hops =>
          refine (declStmt_outcome d t₆).mono (fun _ t ht => ⟨d, none,
            ⟨?_, hroll (roll_of_records ht)⟩, (tables_of_records ht).trans h₆⟩) fun _ _ h => h
          rw [hfill, hr, Option.filter_some, if_neg hops]
          rfl
  · next hr =>
      refine (declStmt_outcome d t₆).mono (fun _ t ht => ⟨d, none,
        ⟨?_, hroll (roll_of_records ht)⟩, (tables_of_records ht).trans h₆⟩) fun _ _ h => h
      rw [hfill, hr]
      rfl

/-- The fields of a record, given what entering a field does. -/
theorem fields_follows {A : Account env.graph} (hA : A.Free)
    (hfield : ∀ id d s, env.graph.kind? id = some .field →
      A.done [] s (s.withField id d))
    (record : DeclId) (index : Nat) (ids : List OpId) :
    A.Follows [] (fields env record index ids) := by
  induction ids generalizing index with
  | nil => exact .pure _
  | cons id rest ih =>
      refine operation_bind fun o ho => ?_
      dsimp only
      split
      · exact .throw fun _ => LiftError.plain_malformed ..
      · next hkind =>
          have hk : env.graph.kind? id = some .field := by simpa [Graph.kind?, ho] using hkind
          split
          · exact .throw fun _ => LiftError.plain_malformed ..
          · refine .bind (type_follows _) fun _ => .bind (chooseName_follows _ o index) fun _ =>
              .bind (typed_free hA _) fun d => ?_
            rw [← bind_assoc]
            exact .bind (fun s => hfield id d s hk) fun _ => ih _

theorem record_follows {A : Account env.graph} {l : List OpId} (hA : A.Free)
    (hnote : ∀ d s, A.done l s { s with opDecl := s.opDecl.insert o.id d })
    (hfield : ∀ id d s, env.graph.kind? id = some .field →
      A.done [] s (s.withField id d)) :
    A.Follows l (record env scope o) :=
  .bind (chooseName_follows _ o 0) fun _ => .bind (typed_free hA _) fun d =>
    .bind (typed_free hA _) fun _ => .close (.modify fun s => hnote d s) fun _ =>
    .bind (fields_follows hA hfield d _ _) fun _ => declStmt_follows d

end Decl

/-! ### Operations and tasks -/

section Rules

variable {env : LiftEnv} {A : Account env.graph} {lift : OpLifter} {scope : Scope} {id : OpId}
  {o : Operation} {visits : OpId → List OpId}

/-- The rule for an operation that does not exist fails at once. -/
theorem rule_missing (h : env.graph.op? id = none) (s : LiftState) :
    rule env lift scope id s = .error (.malformed ("no operation " ++ OpId.text id)) s := by
  unfold rule operation
  rw [h]
  rfl

/-- The rule for a function or a variable declares it. -/
theorem rule_declares (ho : env.graph.op? id = some o)
    (hk : o.kind? = some .function ∨ o.kind? = some .var) :
    Declares env scope o (rule env lift scope id) := by
  intro s
  unfold rule operation
  rw [ho, pure_bind]
  rcases hk with hk | hk
  · rw [hk]
    exact Outcome.bind (P := fun _ t => _) (function_declares hk s) fun _ _ h => h
  · rw [hk]
    exact var_declares hk s

/-- The rule for an operation, given those for declarations and the lifts of inner operations. -/
theorem rule_follows {l : List OpId} (ho : env.graph.op? id = some o)
    (hfunction : o.kind? = some .function → A.Follows l (function env scope o))
    (hvar : o.kind? = some .var → A.Follows l (var env scope o))
    (hrecord : o.kind? = some .record → A.Follows l (record env scope o))
    (hother : o.isDeclaration = false → l = (env.graph.innerOps o).flatMap visits ∧
      ∀ op ∈ env.graph.innerOps o, A.Follows (visits op) (lift scope op)) :
    A.Follows l (rule env lift scope id) := by
  refine operation_bind fun o' ho' => ?_
  cases ho.symm.trans ho'
  -- An operation without inner ones visits nothing.
  have hleaf : ∀ {m : Lift (Option StmtId)}, o.isDeclaration = false →
      env.graph.readRegions o = [] → A.Follows [] m → A.Follows l m := by
    intro m hdecl hnone hm
    obtain ⟨rfl, -⟩ := hother hdecl
    rwa [Graph.innerOps, hnone]
  split
  · next hk =>
      obtain ⟨rfl, hlift⟩ := hother (by simp [Operation.isDeclaration, hk])
      split
      · exact .map (innerScope_follows hlift hk) _
      · exact .throw fun _ => ⟨nofun, nofun⟩
  · next kind hk =>
      split
      · obtain ⟨rfl, hlift⟩ := hother (by simp [Operation.isDeclaration, hk])
        have hinner : env.graph.innerOps o = o.regions.flatMap env.graph.regionOps := by
          simp [Graph.innerOps, Graph.readRegions, hk]
        rw [hinner] at hlift ⊢
        exact .close (.forM fun op hop => .close (hlift op hop) fun _ => .pure _) fun _ => .pure _
      · exact .close (hfunction hk) fun _ => .pure _
      · exact hvar hk
      · exact hrecord hk
      · exact hleaf (by simp [Operation.isDeclaration, hk]) (by simp [Graph.readRegions, hk])
          (.bind (chooseName_follows _ o 0) fun _ => .pure _)
      · exact hleaf (by simp [Operation.isDeclaration, hk]) (by simp [Graph.readRegions, hk])
          (.bind (chooseName_follows _ o 0) fun _ => .pure _)
      · exact hleaf (by simp [Operation.isDeclaration, hk]) (by simp [Graph.readRegions, hk])
          (.bind (chooseName_follows _ o 0) fun _ => .pure _)
      · obtain ⟨rfl, hlift⟩ := hother (by simp [Operation.isDeclaration, hk])
        exact .map (ifElse_follows hlift hk) _
      · obtain ⟨rfl, hlift⟩ := hother (by simp [Operation.isDeclaration, hk])
        exact .map (whileLoop_follows hlift hk) _
      · obtain ⟨rfl, hlift⟩ := hother (by simp [Operation.isDeclaration, hk])
        exact .map (doLoop_follows hlift hk) _
      · obtain ⟨rfl, hlift⟩ := hother (by simp [Operation.isDeclaration, hk])
        exact .map (forLoop_follows hlift hk) _
      · exact hleaf (by simp [Operation.isDeclaration, hk]) (by simp [Graph.readRegions, hk])
          (.map (returns_follows scope o) _)
      · exact hleaf (by simp [Operation.isDeclaration, hk]) (by simp [Graph.readRegions, hk])
          (.map (typed_follows (Check.pushStmt_moves _)) _)
      · exact hleaf (by simp [Operation.isDeclaration, hk]) (by simp [Graph.readRegions, hk])
          (.map (typed_follows (Check.pushStmt_moves _)) _)
      · exact hleaf (by simp [Operation.isDeclaration, hk]) (by simp [Graph.readRegions, hk])
          (.map (typed_follows (Check.pushStmt_moves _)) _)
      · obtain ⟨rfl, hlift⟩ := hother (by simp [Operation.isDeclaration, hk])
        exact .close (wrapper_follows hlift hk) fun _ => .bind program_follows fun _ => .pure _
      · refine hleaf ?_ ?_ (.bind (simpleExpr_follows o _) fun _ =>
          .bind program_follows fun _ => .pure _)
        · unfold Operation.isDeclaration
          split <;> simp_all
        · unfold Graph.readRegions
          split <;> simp_all

theorem task_follows (task : Task)
    (hop : ∀ id ∈ env.graph.regionOps task.region, A.Follows (visits id) (op env task.scope id)) :
    A.Follows ((env.graph.regionOps task.region).flatMap visits) (Lift.task env task) := by
  cases task with
  | body function region =>
      exact .close (compound_follows hop) fun _ => typed_follows (Check.setBody_moves _ _)
  | init scope var region =>
      exact .close (yielded_follows hop) fun _ => typed_follows (Check.setInit_moves _ _)

/-- Draining the queue, where an account does not care for the queue and for what is visited. -/
theorem drainAux_follows (hany : ∀ {l s t}, A.done l s t → A.done [] s t)
    (hqueue : ∀ s q, A.done [] s { s with queue := q }) (hstop : ∀ s, A.failed s .unbounded s)
    (hop : ∀ scope id, A.Follows (visits id) (op env scope id)) (bound count : Nat) :
    A.Follows [] (Queue.drainAux (Lift.task env) LiftError.unbounded bound count) := by
  have htask : ∀ task, A.Follows [] (Lift.task env task) := fun task s =>
    (task_follows task (fun id _ => hop _ id) s).mono (fun _ _ h => hany h) fun _ _ h => h
  induction bound generalizing count with
  | zero =>
      unfold Queue.drainAux
      refine .get_bind fun s => ?_
      split
      · exact A.idle rfl
      · exact hstop s
  | succ bound ih =>
      unfold Queue.drainAux
      refine .get_bind fun s => ?_
      split
      · exact A.idle rfl
      · suffices hrest : A.Follows [] _ from hrest s
        exact .bind (.modify fun s => hqueue s _) fun _ => .bind (htask _) fun _ =>
          .bind (.modify fun s => hqueue s _) fun _ => ih _

theorem drain_follows (hany : ∀ {l s t}, A.done l s t → A.done [] s t)
    (hqueue : ∀ s q, A.done [] s { s with queue := q }) (hstop : ∀ s, A.failed s .unbounded s)
    (hfailed : ∀ {s e t u}, A.failed s e t → Same LiftState.tables t u → A.failed s e u)
    (hop : ∀ scope id, A.Follows (visits id) (op env scope id)) : A.Follows [] (drain env) := by
  intro s
  refine drain_of_drainAux ?_
  refine (drainAux_follows hany hqueue hstop hop _ 0 s).mono (fun _ t ht => ?_) fun e t ht => ?_
  · exact A.append ht (A.idle rfl)
  · exact hfailed ht rfl

end Rules

end Lift

end Readback
