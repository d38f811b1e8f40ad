import Readback.Proofs.Layout.Printable
import Readback.Proofs.Lift.Memo
import Readback.Proofs.Lift.Run

/-! # Lifts build printable programs

`Sound g s` says of a state in the middle of a lift of any graph that its program is printable and
that its tables name only what is there. It holds all along as long as nothing fails, so that every
lift that succeeds gives a printable program (`Graph.lift_sound`). It also says that operations with an
effect (`Kind.isEffect`) each have a node of their own, which is how effects can be counted on both sides.

Nothing is asked of the graph: it may be one that no building steps lead to.

* `Advances` relates a state to a later one: that is sound, and its program has what the first one has. It
  is transitive, so the steps of a rule are put together by `Ensures.bind`, and each step needs only to
  say what it gives: an expression (`GivesExpr`, or `GivesNew` where it was not there before), a statement
  (`GivesStmt`, or `LeavesStmt` where there may be none), or nothing (`GivesAdvance`).
* Steps of construction are sound because they keep programs printable (`typed_sound`). Entering what an
  operation became is sound if an operation with an effect became a new node (`Sound.recorded`).
* The lemmas then go through the rules in the order of the lift itself: types (`type_sound`), expressions
  (`simpleExpr_sound`), regions (`compound_sound`, `yielded_sound` and the statements over them),
  declarations (`introduce_sound`, `function_sound`, `var_sound`, `record_sound`). All of them take the
  lifting of inner operations as a parameter with the hypothesis `LiftsSoundly`.
* `rule_sound` joins the rules, `opAux_sound` is the induction on the bound of nested operations, and
  `task_sound` and `drainAux_sound` carry out what was put off.

`rule_effect` and `memo_sound` are about effects alone: an operation with an effect becomes a new node,
and the table gives the same node back when the operation is come to again. -/

namespace Readback

open Step Program

/-- Whether operations of the kind do more than give a value: calls, assignments, increments and
decrements. -/
def Kind.isEffect (k : Kind) : Bool :=
  k == .call || k.binaryOp?.any BinaryOp.isAssignment || k.unaryOp?.any UnaryOp.isStep

/-- Whether the operation at a position does more than give a value. -/
def Graph.isEffect (g : Graph) (op : OpId) : Bool := (g.kind? op).any Kind.isEffect

/-- Declarations with the scope stand at file level or in a function. -/
def Scope.Placed (scope : Scope) : Prop := ∀ r, scope ≠ .record r

theorem Scope.placed_file : Scope.file.Placed := nofun

theorem Scope.placed_function (f : DeclId) : (Scope.function f).Placed := nofun

/-- What the task lifts stands at file level or in a function. -/
def Task.Placed : Task → Prop
  | .body _ _ => True
  | .init scope _ _ => scope.Placed

/-- The program is printable, the tables name what is there, and effects have nodes of their own. -/
structure Sound (g : Graph) (s : LiftState) : Prop where
  printable : s.program.Printable
  stmts : ∀ o i, s.opStmt.get? o = some (some i) → i < s.program.stmts.size
  decls : ∀ o d, s.opDecl.get? o = some d → d < s.program.decls.size
  args : ∀ v d, s.argDecl.get? v = some d → d < s.program.decls.size
  symbols : ∀ name d, s.symbols.get? name = some d → d < s.program.decls.size
  types : ∀ id t, s.typeOf.get? id = some t → s.program.HasType t
  tasks : ∀ task ∈ s.queue.pending, task.Placed
  distinct : ∀ o o' i, g.isEffect o = true → g.isEffect o' = true →
    s.opStmt.get? o = some (some i) → s.opStmt.get? o' = some (some i) → o = o'

/-- The state `t` is sound, and its program has what that of `s` has. -/
def Advances (g : Graph) (s t : LiftState) : Prop := Sound g t ∧ s.program.Enlarges t.program

section Sound

variable {g : Graph} {s t u : LiftState}

theorem Sound.advances (h : Sound g s) : Advances g s s := ⟨h, .refl _⟩

theorem Advances.trans (h : Advances g s t) (h' : Advances g t u) : Advances g s u :=
  ⟨h'.1, h.2.trans h'.2⟩

theorem Sound.build (h : Sound g s) {q : Program} (hq : s.program.Lays q) :
    Advances g s { s with program := q } :=
  ⟨⟨hq.1, fun o i ho => Nat.lt_of_lt_of_le (h.stmts o i ho) hq.2.stmts,
    fun o d ho => Nat.lt_of_lt_of_le (h.decls o d ho) hq.2.decls,
    fun v d hv => Nat.lt_of_lt_of_le (h.args v d hv) hq.2.decls,
    fun name d hn => Nat.lt_of_lt_of_le (h.symbols name d hn) hq.2.decls,
    fun id t ht => hq.2.hasType (h.types id t ht), h.tasks, h.distinct⟩, hq.2⟩

theorem sound_start (g : Graph) (target : Target) : Sound g (LiftState.start target) where
  printable := printable_empty target
  stmts _ _ h := by cases h
  decls _ _ h := by cases h
  args _ _ h := by cases h
  symbols _ _ h := by cases h
  types _ _ h := by cases h
  tasks _ h := by cases h
  distinct _ _ _ _ _ h := by cases h

/-- The node of an operation is an expression of the program. -/
theorem Sound.exprOf?_lt (h : Sound g s) {o : OpId} {e : ExprId} (he : s.exprOf? o = some e) :
    e < s.program.exprs.size := by
  obtain ⟨i, _, htwin⟩ := LiftState.exprOf?_eq_some.mp he
  exact ((h.printable.twinned i e).mp htwin).1

/-- Entering what an operation became. If it has an effect, no other such operation became that. -/
theorem Sound.recorded (h : Sound g s) (id : OpId) (r : Option StmtId)
    (hr : ∀ i, r = some i → i < s.program.stmts.size)
    (hnew : g.isEffect id = true → ∀ i, r = some i → ∀ o, s.opStmt.get? o ≠ some (some i)) :
    Advances g s (s.recorded id r) := by
  have hget : ∀ o, (s.recorded id r).opStmt.get? o = if id = o then some r else s.opStmt.get? o :=
    fun o => Dict.get?_insert ..
  refine ⟨{ h with stmts := fun o i ho => ?_, distinct := ?_ }, .refl _⟩
  · rw [hget] at ho
    split at ho
    · exact hr i (Option.some.inj ho)
    · exact h.stmts o i ho
  · intro o o' i he he' ho ho'
    rw [hget] at ho ho'
    split at ho <;> split at ho'
    · next hid hid' => rw [← hid, ← hid']
    · next hid _ => exact absurd ho' (hnew (hid.symm ▸ he) i (Option.some.inj ho) o')
    · next _ hid' => exact absurd ho (hnew (hid'.symm ▸ he') i (Option.some.inj ho') o)
    · exact h.distinct o o' i he he' ho ho'

theorem Sound.requeue (h : Sound g s) {q : Queue Task} (hq : ∀ task ∈ q.pending, task.Placed) :
    Sound g { s with queue := q } :=
  { h with tasks := hq }

end Sound

namespace Lift

variable {α β : Type} {g : Graph} {s : LiftState}

/-- A construction step keeps a state sound if it keeps the program printable. -/
theorem typed_sound (h : Sound g s) {m : Check α} {P : α → Program → Prop}
    (hm : Gives m s.program P) (hP : ∀ a q, P a q → s.program.Lays q) :
    Gives (typed m) s fun a t => Advances g s t ∧ P a t.program := by
  refine (typed_gives_program hm).imp ?_
  rintro a _ ⟨q, hq, rfl⟩
  exact ⟨h.build (hP a q hq), hq⟩

theorem typed_adds (h : Sound g s) {m : Check α} {P : α → Program → Prop}
    (hm : Leads Program.Adds m s.program P) :
    Gives (typed m) s fun a t => Sound g t ∧ s.program.Adds t.program ∧ P a t.program :=
  (typed_sound h hm.gives fun _ _ hq => hq.1.lays h.printable).imp fun _ _ ht => ⟨ht.1.1, ht.2⟩

theorem chooseName_sound (h : Sound g s) (env : LiftEnv) (role : NameRole) (o : Operation)
    (index : Nat) : Gives (chooseName env role o index) s fun _ t =>
      Sound g t ∧ t.program = s.program :=
  ⟨{ h with }, rfl⟩

/-- A step for each element of a list, where each only adds to the program. -/
theorem mapM_sound {f : α → Lift β} {P : β → Program → Prop}
    (mono : ∀ {b p q}, p.Adds q → P b p → P b q)
    (hf : ∀ a s, Sound g s → Gives (f a) s fun b t =>
      Sound g t ∧ s.program.Adds t.program ∧ P b t.program) (l : List α) (h : Sound g s) :
    Gives (l.mapM f) s fun bs t => Sound g t ∧ s.program.Adds t.program ∧ ∀ b ∈ bs, P b t.program := by
  induction l generalizing s with
  | nil => exact .pure ⟨h, .refl, by simp⟩
  | cons a l ih =>
      rw [List.mapM_cons]
      refine (hf a s h).bind fun b t ⟨ht, hst, hb⟩ => ?_
      refine (ih ht).bind fun bs u ⟨hu, htu, hbs⟩ => .pure ⟨hu, hst.trans htu, fun x hx => ?_⟩
      obtain rfl | hx := List.mem_cons.mp hx
      · exact mono htu hb
      · exact hbs x hx

/-! ### Types -/

section Types

variable (env : LiftEnv)

/-- Lifts the type to one that is there, and only adds to the program. -/
def TypesSoundly (g : Graph) (lift : TypeId → Lift QualType) : Prop := ∀ id s, Sound g s →
  Gives (lift id) s fun t u => Sound g u ∧ s.program.AddsType t u.program

theorem qualified_sound (h : Sound g s) (kind : Builtin) (quals : Quals) :
    Gives (qualified kind quals) s fun t u => Sound g u ∧ s.program.AddsType t u.program :=
  (typed_adds h (Check.builtin_adds kind)).bind fun _ _ ht => .pure ht

theorem shape_sound {lift : TypeId → Lift QualType} (hlift : TypesSoundly g lift) (id : TypeId)
    (sh : Shape) (h : Sound g s) :
    Gives (shape env lift id sh) s fun t u => Sound g u ∧ s.program.AddsType t u.program := by
  have wrapped {m : QualType → Check QualType} (quals : Quals) (id : TypeId)
      (hm : ∀ {t p}, p.HasType t → Leads Program.Adds (m t) p fun t q => q.HasType t) :
      Gives (do
        let inner ← lift id
        return (← typed (m inner)).withQuals quals) s fun t u =>
          Sound g u ∧ s.program.AddsType t u.program := by
    refine (hlift id s h).bind fun t u ⟨hu, hsu, ht⟩ => ?_
    refine (typed_adds hu (hm ht)).bind fun t v ⟨hv, huv, ht⟩ => ?_
    exact .pure ⟨hv, hsu.trans huv, ht⟩
  cases sh with
  | plain kind quals => exact qualified_sound h _ _
  | integer kind quals => exact .get_bind (qualified_sound h _ _)
  | pointer element quals => exact wrapped _ element fun ht => Check.pointerTo_adds ht
  | array element size quals => exact wrapped _ element fun ht => Check.arrayOf_adds ht size
  | lvalue element => exact hlift element s h
  | named kind name => exact .throw _ trivial
  | function inputs results =>
      have rest {s : LiftState} (result : QualType) (h : Sound g s) (hr : s.program.HasType result) :
          Gives (do
            let params ← inputs.mapM lift
            typed (Check.functionType result params false)) s fun t u =>
              Sound g u ∧ s.program.AddsType t u.program := by
        refine (mapM_sound (P := fun t p => p.HasType t) (fun hpq ht => hpq.hasType ht) hlift inputs
          h).bind fun params t ⟨ht, hst, hp⟩ => ?_
        exact (typed_adds ht (Check.functionType_adds (hst.hasType hr) hp false)).imp
          fun t u ⟨hu, htu, ht⟩ => ⟨hu, hst.trans htu, ht⟩
      have after {m : Lift QualType}
          (hm : Gives m s fun t u => Sound g u ∧ s.program.AddsType t u.program) :
          Gives (do
            let result ← m
            let params ← inputs.mapM lift
            typed (Check.functionType result params false)) s fun t u =>
              Sound g u ∧ s.program.AddsType t u.program :=
        hm.bind fun result t ⟨ht, hst, hr⟩ => (rest result ht hr).imp
          fun t u ⟨hu, htu, ht⟩ => ⟨hu, hst.trans htu, ht⟩
      unfold shape
      dsimp only
      split
      · exact after (typed_adds h (Check.builtin_adds _))
      · exact after (hlift _ s h)
      · exact after (.throw _ trivial)

theorem typeAux_sound (bound : Nat) : TypesSoundly g (typeAux env bound) := by
  induction bound with
  | zero =>
      intro id s h
      unfold typeAux
      refine .get_bind ?_
      split
      · next t ht => exact .pure ⟨h, .refl, h.types id t ht⟩
      · split
        · exact .throw _ trivial
        · exact .throw _ trivial
        · next hbound => cases hbound
  | succ bound ih =>
      intro id s h
      unfold typeAux
      refine .get_bind ?_
      split
      · next t ht => exact .pure ⟨h, .refl, h.types id t ht⟩
      · split
        · exact .throw _ trivial
        · exact .throw _ trivial
        · next sh _ _ hbound =>
            cases hbound
            refine (shape_sound env ih id sh h).bind ?_
            rintro t u ⟨hu, hsu, ht⟩
            exact ⟨{ hu with types := Dict.forall_insert hu.types id ht }, hsu, ht⟩

theorem type_sound : TypesSoundly g (type env) := typeAux_sound env _

end Types

/-! ### Expressions -/

section Exprs

variable (env : LiftEnv) (o : Operation)

/-- The step gives an expression that is there, and only adds to the program. -/
def GivesExpr (g : Graph) (m : Lift ExprId) : Prop := ∀ s, Sound g s →
  Gives m s fun e t => Sound g t ∧ s.program.AddsExpr e t.program

/-- The step gives a new expression, and only adds to the program. -/
def GivesNew (g : Graph) (m : Lift ExprId) : Prop := ∀ s, Sound g s →
  Gives m s fun e t => Sound g t ∧ s.program.AddsNew e t.program

theorem GivesNew.givesExpr {m : Lift ExprId} (hm : GivesNew g m) : GivesExpr g m := fun s h =>
  (hm s h).imp fun _ _ ht => ⟨ht.1, ht.2.addsExpr⟩

theorem value_sound (v : Value) : GivesExpr g (value v) := by
  intro s h
  have ref {d : DeclId} (hd : d < s.program.decls.size) :
      Gives (typed (Check.declRef d)) s fun e t => Sound g t ∧ s.program.AddsExpr e t.program :=
    (typed_adds h (Check.declRef_adds h.printable.typed hd)).imp
      fun _ _ ⟨ht, hadds, hnew⟩ => ⟨ht, hadds, hnew.2⟩
  refine .get_bind ?_
  split
  · next hdecl =>
      obtain ⟨op, _, hop⟩ := Option.bind_eq_some_iff.mp hdecl
      exact ref (h.decls op _ hop)
  · next hexpr =>
      obtain ⟨op, _, hop⟩ := Option.bind_eq_some_iff.mp hexpr
      exact .pure ⟨h, .refl, h.exprOf?_lt hop⟩
  · next harg => exact ref (h.args v _ harg)
  · exact .throw _ trivial

theorem values_sound (vs : List Value) (h : Sound g s) :
    Gives (vs.mapM value) s fun es t =>
      Sound g t ∧ s.program.Adds t.program ∧ ∀ e ∈ es, e < t.program.exprs.size :=
  mapM_sound (P := fun e p => e < p.exprs.size) (fun hpq he => Nat.lt_of_lt_of_le he hpq.exprs_size)
    value_sound vs h

theorem operandValue_sound (index : Nat) : GivesExpr g (operandValue env o index) := by
  intro s h
  refine (operand_gives env o index).bind ?_
  rintro v _ ⟨_, rfl⟩
  exact value_sound v _ h

theorem symbolRef_sound (name : String) : GivesNew g (symbolRef env o name) := by
  intro s h
  have found : Gives (symbol env o name) s fun d t => t = s ∧ d < s.program.decls.size := by
    unfold symbol
    split
    · exact .throw _ trivial
    · next sym _ =>
        refine .get_bind ?_
        split
        · next d hd => exact .pure ⟨rfl, h.symbols sym d hd⟩
        · exact .throw _ trivial
  refine found.bind ?_
  rintro d _ ⟨rfl, hd⟩
  exact typed_adds h (Check.declRef_adds h.printable.typed hd)

theorem binary_sound (op : BinaryOp) : GivesNew g (binary env o op) := by
  intro s h
  refine (operand_gives env o 0).bind ?_
  rintro v _ ⟨_, rfl⟩
  refine (operand_gives env o 1).bind ?_
  rintro w _ ⟨_, rfl⟩
  refine (value_sound v _ h).bind fun l t ⟨ht, hst, hl⟩ => ?_
  refine (value_sound w t ht).bind fun r u ⟨hu, htu, hr⟩ => ?_
  have hl := Nat.lt_of_lt_of_le hl htu.exprs_size
  exact (typed_adds hu (Check.binary_adds hu.printable.typed op hl hr)).imp
    fun _ _ ⟨hv, hnew⟩ => ⟨hv, (hst.trans htu).new hnew⟩

theorem unary_sound (op : UnaryOp) : GivesNew g (unary env o op) := by
  intro s h
  refine (operandValue_sound env o 0 s h).bind fun e t ⟨ht, hst, he⟩ => ?_
  exact (typed_adds ht (Check.unary_adds ht.printable.typed op he)).imp
    fun _ _ ⟨hu, hnew⟩ => ⟨hu, hst.new hnew⟩

theorem compare_sound : GivesNew g (compare env o) := by
  intro s h
  unfold compare
  split
  · exact binary_sound env o _ s h
  · exact .throw _ trivial

theorem constant_sound : GivesNew g (constant env o) := by
  intro s h
  have literal {m : QualType → Check ExprId}
      (hm : ∀ {t p}, p.HasType t → Leads Program.Adds (m t) p fun e q => p.IsNew q e) :
      Gives (do
        let id ← resultType env o
        let t ← type env id
        typed (m t)) s fun e t => Sound g t ∧ s.program.AddsNew e t.program := by
    refine (resultType_gives env o).bind ?_
    rintro id _ ⟨_, rfl⟩
    refine (type_sound env id _ h).bind fun t u ⟨hu, hsu, ht⟩ => ?_
    exact (typed_adds hu (hm ht)).imp fun _ _ ⟨hv, hnew⟩ => ⟨hv, hsu.new hnew⟩
  unfold constant
  split
  · exact .throw _ trivial
  · exact literal fun ht => Check.integer_adds _ ht
  · exact literal fun ht => Check.floating_adds _ ht
  · exact typed_adds h (Check.text_adds _)
  · exact .throw _ trivial

theorem cast_sound (style : CastStyle) : GivesNew g (cast env o style) := by
  intro s h
  unfold cast
  split
  · refine .guard trivial fun _ => (resultType_gives env o).bind ?_
    rintro id _ ⟨_, rfl⟩
    refine (type_sound env id _ h).bind fun t u ⟨hu, hsu, ht⟩ => ?_
    refine (operandValue_sound env o 0 u hu).bind fun e v ⟨hv, huv, he⟩ => ?_
    exact (typed_adds hv (Check.cast_adds hv.printable.typed _ _ (huv.hasType ht) he _)).imp
      fun _ _ ⟨hw, hnew⟩ => ⟨hw, (hsu.trans huv).new hnew⟩
  · exact .throw _ trivial

theorem call_sound : GivesNew g (call env o) := by
  intro s h
  refine .guard trivial fun _ => ?_
  refine (symbolRef_sound env o _ s h).bind fun f t ⟨ht, hst, hf⟩ => ?_
  refine (values_sound o.operands ht).bind fun es u ⟨hu, htu, hes⟩ => ?_
  have hf := Nat.lt_of_lt_of_le hf.2 htu.exprs_size
  exact (typed_adds hu (Check.call_adds hu.printable.typed hf hes)).imp
    fun _ _ ⟨hv, hnew⟩ => ⟨hv, (hst.trans htu).new hnew⟩

theorem initList_sound : GivesNew g (initList env o) := by
  intro s h
  refine (resultType_gives env o).bind ?_
  rintro id _ ⟨_, rfl⟩
  refine (type_sound env id _ h).bind fun t u ⟨hu, hsu, ht⟩ => ?_
  refine (values_sound o.operands hu).bind fun es v ⟨hv, huv, hes⟩ => ?_
  exact (typed_adds hv (Check.initList_adds hv.printable.typed (huv.hasType ht) hes)).imp
    fun _ _ ⟨hw, hnew⟩ => ⟨hw, (hsu.trans huv).new hnew⟩

theorem simpleExpr_sound (kind : Kind) : GivesExpr g (simpleExpr env o kind) := by
  intro s h
  unfold simpleExpr
  split
  · exact operandValue_sound env o 0 s h
  · exact operandValue_sound env o 0 s h
  · exact operandValue_sound env o 0 s h
  · exact (symbolRef_sound env o _).givesExpr s h
  · exact (symbolRef_sound env o _).givesExpr s h
  · exact (call_sound env o).givesExpr s h
  · exact (constant_sound env o).givesExpr s h
  · exact (initList_sound env o).givesExpr s h
  · exact (cast_sound env o _).givesExpr s h
  · exact (cast_sound env o _).givesExpr s h
  · exact (compare_sound env o).givesExpr s h
  · split
    · exact (binary_sound env o _).givesExpr s h
    · exact (unary_sound env o _).givesExpr s h
    · exact .throw _ trivial

/-- An operation with an effect makes a node. -/
theorem simpleExpr_effect {kind : Kind} (hk : kind.isEffect = true) :
    GivesNew g (simpleExpr env o kind) := by
  intro s h
  cases kind <;> first
    | exact binary_sound env o _ s h
    | exact unary_sound env o _ s h
    | exact call_sound env o s h
    | exact absurd hk (by decide)

end Exprs

/-! ### Regions -/

section Regions

variable {env : LiftEnv} {lift : OpLifter} {scope : Scope}

/-- The step leaves a statement that is there, if it leaves any. -/
def LeavesStmt (g : Graph) (m : Lift (Option StmtId)) : Prop := ∀ s, Sound g s →
  Gives m s fun r t => Advances g s t ∧ ∀ i, r = some i → i < t.program.stmts.size

/-- Lifts every operation to a statement that is there, if to any. -/
def LiftsSoundly (g : Graph) (lift : OpLifter) : Prop := ∀ scope op, scope.Placed →
  LeavesStmt g (lift scope op)

/-- The step gives a statement that is there. -/
def GivesStmt (g : Graph) (m : Lift StmtId) : Prop := ∀ s, Sound g s →
  Gives m s fun i t => Advances g s t ∧ i < t.program.stmts.size

variable (hlift : LiftsSoundly g lift) (hscope : scope.Placed)

include hlift hscope

theorem stmts_sound (ops : List OpId) (h : Sound g s) :
    Gives (stmts env lift scope ops) s fun l t =>
      Advances g s t ∧ ∀ i ∈ l, i < t.program.stmts.size := by
  induction ops generalizing s with
  | nil => exact .pure ⟨h.advances, by simp⟩
  | cons op ops ih =>
      refine (hlift scope op hscope s h).bind fun r t ⟨hst, hr⟩ => ?_
      cases r with
      | none => exact (ih hst.1).imp fun l u ⟨htu, hl⟩ => ⟨hst.trans htu, hl⟩
      | some i =>
          refine .get_bind ((ih hst.1).bind fun l u ⟨htu, hl⟩ => .pure ⟨hst.trans htu, ?_⟩)
          have hi := Nat.lt_of_lt_of_le (hr i rfl) htu.2.stmts
          split
          · exact hl
          · exact List.forall_mem_cons.mpr ⟨hi, hl⟩

theorem compound_sound (r : RegionId) : GivesStmt g (compound env lift scope r) := by
  intro s h
  refine (stmts_sound hlift hscope _ h).bind fun l t ⟨hst, hl⟩ => ?_
  refine Ensures.imp (typed_sound hst.1 (Check.pushStmt_lays hst.1.printable (k := .compound l) nofun
    (Check.laidStmt_of_inner hl rfl nofun)) fun _ _ h => h.1) ?_
  exact fun i u ⟨htu, _, hi⟩ => ⟨hst.trans htu, hi⟩

theorem branch_sound (r : Option RegionId) (h : Sound g s) :
    Gives (r.mapM (compound env lift scope)) s fun i t =>
      Advances g s t ∧ ∀ x ∈ i.toList, x < t.program.stmts.size := by
  cases r with
  | none => exact .pure ⟨h.advances, by simp⟩
  | some r =>
      exact Ensures.map ((compound_sound hlift hscope r s h).imp fun i t ⟨hst, hi⟩ =>
        ⟨hst, by simpa using hi⟩)

theorem yieldsAux_sound (r : RegionId) (ops : List OpId) (h : Sound g s) (y : Option ExprId)
    (unused : List ExprId) (hy : ∀ e ∈ y.toList ++ unused, e < s.program.exprs.size) :
    Gives (yieldsAux env lift scope r ops y unused) s fun x t =>
      Advances g s t ∧ ∀ e ∈ x.1.toList ++ x.2, e < t.program.exprs.size := by
  induction ops generalizing s y unused with
  | nil => exact .pure ⟨h.advances, by simpa using hy⟩
  | cons op ops ih =>
      refine (hlift scope op hscope s h).bind fun stmt t ⟨hst, _⟩ => .get_bind ?_
      have known : ∀ e, stmt.bind t.program.asExpr? = some e → e < t.program.exprs.size := by
        intro e he
        obtain ⟨i, _, htwin⟩ := Option.bind_eq_some_iff.mp he
        exact ((hst.1.printable.twinned i e).mp htwin).1
      have rest (y' : Option ExprId) (unused' : List ExprId)
          (hy' : ∀ e ∈ y'.toList ++ unused', e ∈ y.toList ++ unused ∨ e < t.program.exprs.size) :
          Gives (yieldsAux env lift scope r ops y' unused') t fun x t =>
            Advances g s t ∧ ∀ e ∈ x.1.toList ++ x.2, e < t.program.exprs.size := by
        refine (ih hst.1 y' unused' fun e he => ?_).imp fun x u ⟨htu, hx⟩ => ⟨hst.trans htu, hx⟩
        obtain hold | hnew := hy' e he
        · exact Nat.lt_of_lt_of_le (hy e hold) hst.2.exprs
        · exact hnew
      dsimp only
      split
      · refine .guard trivial fun _ => ?_
        split
        · exact .throw _ trivial
        · next e he =>
            refine rest (some e) unused fun x hx => ?_
            obtain rfl | hx := List.mem_cons.mp hx
            · exact .inr (known x he)
            · exact .inl (List.mem_append_right _ hx)
      · split
        · next e he =>
            refine rest y _ fun x hx => ?_
            split at hx
            · exact .inl hx
            · obtain hx | hx := List.mem_append.mp hx
              · exact .inl (List.mem_append_left _ hx)
              · obtain rfl | hx := List.mem_cons.mp hx
                · exact .inr (known x he)
                · exact .inl (List.mem_append_right _ hx)
        · exact rest y unused fun x hx => .inl hx

theorem yields_sound (r : RegionId) (h : Sound g s) :
    Gives (yields env lift scope r) s fun x t =>
      Advances g s t ∧ ∀ e ∈ x.1.toList ++ x.2, e < t.program.exprs.size :=
  yieldsAux_sound hlift hscope r _ h none [] (by simp)

theorem yielded_sound (r : RegionId) (h : Sound g s) :
    Gives (yielded env lift scope r) s fun e t => Advances g s t ∧ e < t.program.exprs.size := by
  refine (yields_sound hlift hscope r h).bind ?_
  rintro ⟨y, unused⟩ t ⟨hst, hx⟩
  cases y with
  | none => exact .throw _ trivial
  | some e => exact .pure ⟨hst, hx e (by simp)⟩

variable (o : Operation)

theorem wrapper_sound (h : Sound g s) :
    Gives (wrapper env lift scope o) s fun e t => Advances g s t ∧ e < t.program.exprs.size := by
  unfold wrapper
  split
  · exact .throw _ trivial
  · exact .guard trivial fun _ => yielded_sound hlift hscope _ h

theorem ifElse_sound : GivesStmt g (ifElse env lift scope o) := by
  intro s h
  refine (region_gives env o 0 _).bind ?_
  rintro rc _ ⟨_, rfl⟩
  refine (region_gives env o 1 _).bind ?_
  rintro ry _ ⟨_, rfl⟩
  refine (yielded_sound hlift hscope rc h).bind fun cond t ⟨hst, hcond⟩ => ?_
  refine (compound_sound hlift hscope ry t hst.1).bind fun yes u ⟨htu, hyes⟩ => ?_
  refine (branch_sound hlift hscope _ htu.1).bind fun no v ⟨huv, hno⟩ => ?_
  have hcond := Nat.lt_of_lt_of_le hcond (htu.2.trans huv.2).exprs
  have hyes := Nat.lt_of_lt_of_le hyes huv.2.stmts
  refine (typed_sound huv.1 (Check.condition_pushStmt_lays huv.1.printable hcond
    (k := (.ifElse · yes no)) nofun ?_ rfl nofun) fun _ _ h => h.1).imp ?_
  · exact List.forall_mem_cons.mpr ⟨hyes, hno⟩
  · exact fun i w ⟨hvw, _, hi⟩ => ⟨(hst.trans (htu.trans huv)).trans hvw, hi⟩

theorem whileLoop_sound : GivesStmt g (whileLoop env lift scope o) := by
  intro s h
  refine (region_gives env o 0 _).bind ?_
  rintro rc _ ⟨_, rfl⟩
  refine (region_gives env o 1 _).bind ?_
  rintro rb _ ⟨_, rfl⟩
  refine (yielded_sound hlift hscope rc h).bind fun cond t ⟨hst, hcond⟩ => ?_
  refine (compound_sound hlift hscope rb t hst.1).bind fun body u ⟨htu, hbody⟩ => ?_
  have hcond := Nat.lt_of_lt_of_le hcond htu.2.exprs
  refine (typed_sound htu.1 (Check.condition_pushStmt_lays htu.1.printable hcond
    (k := (.whileLoop · body)) nofun ?_ rfl nofun) fun _ _ h => h.1).imp ?_
  · exact List.forall_mem_singleton.mpr hbody
  · exact fun i v ⟨huv, _, hi⟩ => ⟨(hst.trans htu).trans huv, hi⟩

theorem doLoop_sound : GivesStmt g (doLoop env lift scope o) := by
  intro s h
  refine (region_gives env o 0 _).bind ?_
  rintro rb s ⟨_, rfl⟩
  refine (region_gives env o 1 _).bind ?_
  rintro rc s ⟨_, rfl⟩
  refine (compound_sound hlift hscope rb s h).bind fun body t ⟨hst, hbody⟩ => ?_
  refine (yielded_sound hlift hscope rc hst.1).bind fun cond u ⟨htu, hcond⟩ => ?_
  have hbody := Nat.lt_of_lt_of_le hbody htu.2.stmts
  refine (typed_sound htu.1 (Check.condition_pushStmt_lays htu.1.printable hcond
    (k := (.doLoop body ·)) nofun ?_ rfl nofun) fun _ _ h => h.1).imp ?_
  · exact List.forall_mem_singleton.mpr hbody
  · exact fun i v ⟨huv, _, hi⟩ => ⟨(hst.trans htu).trans huv, hi⟩

theorem loopCondition_sound (r : RegionId) (h : Sound g s) :
    Gives (loopCondition env lift scope r) s fun c t =>
      Advances g s t ∧ ∀ e, c = some e → e < t.program.exprs.size := by
  unfold loopCondition
  split
  · exact .pure ⟨h.advances, by simp⟩
  · refine .map ((yielded_sound hlift hscope r h).imp ?_)
    rintro e t ⟨hst, he⟩
    refine ⟨hst, ?_⟩
    rintro _ ⟨⟩
    exact he

theorem loopIncrement_sound (r : RegionId) (h : Sound g s) :
    Gives (loopIncrement env lift scope o r) s fun _ t => Advances g s t := by
  refine (yields_sound hlift hscope r h).bind ?_
  rintro x t ⟨hst, _⟩
  split
  · exact .pure hst
  · exact .pure hst
  · exact .pure hst
  · exact .throw _ trivial

theorem forLoop_sound : GivesStmt g (forLoop env lift scope o) := by
  intro s h
  rw [forLoop_eq]
  refine (region_gives env o 0 _).bind ?_
  rintro rc _ ⟨_, rfl⟩
  refine (region_gives env o 1 _).bind ?_
  rintro ri _ ⟨_, rfl⟩
  refine (region_gives env o 2 _).bind ?_
  rintro rb _ ⟨_, rfl⟩
  refine (loopCondition_sound hlift hscope rc h).bind fun cond t ⟨hst, hcond⟩ => ?_
  refine (loopIncrement_sound hlift hscope o ri hst.1).bind fun inc u htu => ?_
  refine (compound_sound hlift hscope rb u htu.1).bind fun body v ⟨huv, hbody⟩ => ?_
  have hcond : ∀ e, cond = some e → e < v.program.exprs.size := fun e he =>
    Nat.lt_of_lt_of_le (hcond e he) (htu.2.trans huv.2).exprs
  refine (typed_sound huv.1 (Check.forLoop_lays huv.1.printable hcond inc hbody)
    fun _ _ h => h.1).imp ?_
  exact fun i w ⟨hvw, _, hi⟩ => ⟨(hst.trans (htu.trans huv)).trans hvw, hi⟩

theorem innerScope_sound : GivesStmt g (innerScope env lift scope o) := by
  intro s h
  refine (region_gives env o 0 _).bind ?_
  rintro r _ ⟨_, rfl⟩
  exact compound_sound hlift hscope r _ h

end Regions

theorem returns_sound (env : LiftEnv) (scope : Scope) (o : Operation) :
    GivesStmt g (returns env scope o) := by
  intro s h
  have rest {t : LiftState} (hst : Advances g s t) (f : DeclId) (value : Option ExprId)
      (hv : ∀ e, value = some e → e < t.program.exprs.size) :
      Gives (typed (Check.returns f value)) t fun i u => Advances g s u ∧ i < u.program.stmts.size :=
    (typed_sound hst.1 (Check.returns_lays hst.1.printable f hv) fun _ _ h => h.1).imp
      fun i u ⟨htu, _, hi⟩ => ⟨hst.trans htu, hi⟩
  unfold returns
  split
  · dsimp only
    split
    · exact rest h.advances _ none nofun
    · next v _ =>
        refine Ensures.bind (P := fun x t => Advances g s t ∧
          ∀ e, x = some e → e < t.program.exprs.size) (.map ((value_sound v s h).imp ?_)) ?_
        · rintro e t ⟨ht, hst, he⟩
          refine ⟨⟨ht, hst.enlarges⟩, ?_⟩
          rintro _ ⟨⟩
          exact he
        · exact fun x t ⟨hst, hx⟩ => rest hst _ x hx
    · exact .throw _ trivial
  · exact .throw _ trivial

/-! ### Declarations -/

section Decls

variable (env : LiftEnv) {scope : Scope} (o : Operation)

/-- The step advances. -/
def GivesAdvance (g : Graph) (m : Lift Unit) : Prop := ∀ s, Sound g s →
  Gives m s fun _ t => Advances g s t

theorem noteDecl_sound (h : Sound g s) (op : OpId) {d : DeclId} (hd : d < s.program.decls.size) :
    Gives (noteDecl op d) s fun _ t => Advances g s t :=
  ⟨{ h with decls := Dict.forall_insert h.decls op hd }, .refl _⟩

theorem registerSymbol_sound (h : Sound g s) (scope : Scope) {d : DeclId}
    (hd : d < s.program.decls.size) :
    Gives (registerSymbol scope o d) s fun _ t => Advances g s t := by
  unfold registerSymbol
  split
  · split
    · next sym _ =>
        exact ⟨{ h with symbols := Dict.forall_insert h.symbols sym hd }, .refl _⟩
    · exact .pure h.advances
  · exact .pure h.advances

theorem defer_sound (h : Sound g s) (task : Task) (htask : task.Placed) :
    Gives (defer task) s fun _ t => Advances g s t := by
  refine ⟨{ h with tasks := fun x hx => ?_ }, .refl _⟩
  obtain hx | hx := List.mem_append.mp hx
  · exact h.tasks x hx
  · cases List.mem_singleton.mp hx
    exact htask

theorem declStmt_sound (h : Sound g s) (scope : Scope) {d : DeclId} (hd : d < s.program.decls.size)
    (hlocal : (s.program.decl d).kind.IsLocal) :
    Gives (declStmt? scope d) s fun r t =>
      Advances g s t ∧ ∀ i, r = some i → i < t.program.stmts.size := by
  unfold declStmt?
  split
  · have hlaid : s.program.LaidStmt s.program.stmts.size (.declares [d]) :=
      ⟨by simp [StmtKind.inner], rfl, List.forall_mem_singleton.mpr ⟨hd, hlocal⟩, by simp⟩
    refine .map ((typed_sound h
      (Check.pushStmt_lays h.printable (k := .declares [d]) (by simp) hlaid)
      fun _ _ h => h.1).imp ?_)
    rintro i t ⟨hst, _, hi⟩
    refine ⟨hst, ?_⟩
    rintro _ ⟨⟩
    exact hi
  · exact .pure ⟨h.advances, by simp⟩

theorem params_sound (f : DeclId) (entry : Option BlockId) (index : Nat) (inputs : List TypeId)
    (h : Sound g s) : Gives (params env o f entry index inputs) s fun _ t => Advances g s t := by
  induction inputs generalizing s index with
  | nil => exact .pure h.advances
  | cons input rest ih =>
      refine (chooseName_sound h env _ o index).bind fun name t ⟨ht, hts⟩ => ?_
      refine (type_sound env input t ht).bind fun type u ⟨hu, htu, htype⟩ => ?_
      refine (typed_sound hu (Check.param_lays hu.printable f name htype index)
        fun _ _ h => h.1).bind fun d v ⟨huv, _, hd⟩ => ?_
      have hsv : Advances g s v := ⟨huv.1, hts ▸ htu.enlarges.trans huv.2⟩
      have others {w : LiftState} (hvw : Advances g v w) : Gives (do
          let others ← params env o f entry (index + 1) rest
          return d :: others) w fun _ t => Advances g s t :=
        (ih (index + 1) hvw.1).bind fun _ _ hwx => .pure ((hsv.trans hvw).trans hwx)
      dsimp only
      split
      · next block =>
          refine Ensures.bind (P := fun _ w => Advances g v w) ?_ fun _ w hvw => others hvw
          exact ⟨{ huv.1 with args := Dict.forall_insert huv.1.args (.argument block index) hd },
            .refl _⟩
      · exact others huv.1.advances

/-- Making a declaration, listing it and noting it for its operation. -/
theorem introduce_sound (hscope : scope.Placed) (h : Sound g s) {m : Check DeclId} {kind : DeclKind}
    (hm : Gives m s.program fun d q =>
      s.program.Lays q ∧ d < q.decls.size ∧ (q.decl d).kind = kind)
    (hkind : kind.IsUnit) {f : DeclId → Lift β} {Q : β → LiftState → Prop}
    (hf : ∀ d t, Advances g s t → d < t.program.decls.size →
      (t.program.decl d).kind.sort = kind.sort → Gives (f d) t Q) :
    Gives (do
      let d ← typed m
      typed (Check.addDecl scope d)
      noteDecl o.id d
      f d) s Q := by
  refine (typed_sound h hm fun _ _ h => h.1).bind fun d t ⟨hst, _, hd, hk⟩ => ?_
  refine (typed_sound hst.1 (Check.addDecl_lays hst.1.printable hscope hd (by rw [hk]; exact hkind))
    fun _ _ h => h).bind fun _ u ⟨htu, _⟩ => ?_
  have hd' := Nat.lt_of_lt_of_le hd htu.2.decls
  refine (noteDecl_sound htu.1 o.id hd').bind fun _ v huv => ?_
  refine hf d v ((hst.trans htu).trans huv) (Nat.lt_of_lt_of_le hd' huv.2.decls) ?_
  rw [huv.2.sorts d hd', htu.2.sorts d hd, hk]

theorem function_sound (hscope : scope.Placed) : GivesAdvance g (function env scope o) := by
  intro s h
  unfold function
  split
  · exact .throw _ trivial
  · next typeId _ =>
      split
      · exact .throw _ trivial
      · next inputs _ _ =>
          refine (type_sound env typeId s h).bind fun type t ⟨ht, hst, htype⟩ => ?_
          refine (chooseName_sound ht env _ o 0).bind fun name u ⟨hu, hut⟩ => ?_
          rw [← hut] at htype hst
          refine introduce_sound o hscope hu (Check.functionDecl_lays hu.printable scope name htype)
            trivial fun d v huv hd _ => ?_
          refine (registerSymbol_sound o huv.1 scope hd).bind fun _ w hvw => ?_
          refine .guard trivial fun _ => (params_sound env o d _ 0 inputs hvw.1).bind fun list x hwx => ?_
          refine (typed_sound hwx.1 (Check.setParams_lays hwx.1.printable d list)
            fun _ _ h => h).bind fun _ y ⟨hxy, _⟩ => ?_
          have hsy : Advances g s y :=
            ⟨hxy.1, hst.enlarges.trans (huv.trans (hvw.trans (hwx.trans hxy))).2⟩
          split
          · exact (defer_sound hsy.1 (.body d _) trivial).imp fun _ _ hyz => hsy.trans hyz
          · exact .pure hsy

theorem var_sound (hscope : scope.Placed) : LeavesStmt g (var env scope o) := by
  intro s h
  refine (resultType_gives env o).bind ?_
  rintro typeId s ⟨_, rfl⟩
  refine (type_sound env typeId s h).bind fun type t ⟨ht, hst, htype⟩ => ?_
  refine (chooseName_sound ht env _ o 0).bind fun name u ⟨hu, hut⟩ => ?_
  rw [← hut] at htype hst
  refine introduce_sound o hscope hu
    (Check.varDecl_lays hu.printable scope name htype (storageOf o)) trivial fun d v huv hd hsort => ?_
  have hlocal := (DeclKind.isLocal_of_sort_eq hsort).mpr trivial
  refine (registerSymbol_sound o huv.1 scope hd).bind fun _ w hvw => ?_
  have rest {x : LiftState} (hwx : Advances g w x) : Gives (declStmt? scope d) x fun r t =>
      Advances g s t ∧ ∀ i, r = some i → i < t.program.stmts.size := by
    have hvx := hvw.trans hwx
    refine (declStmt_sound hwx.1 scope (Nat.lt_of_lt_of_le hd hvx.2.decls)
      (hvx.2.isLocal hd hlocal)).imp fun r y ⟨hxy, hr⟩ => ⟨⟨hxy.1, ?_⟩, hr⟩
    exact hst.enlarges.trans (huv.2.trans (hvx.2.trans hxy.2))
  dsimp only
  split
  · split
    · exact (defer_sound hvw.1 (.init scope d _) hscope).bind fun _ x hwx => rest hwx
    · exact rest hvw.1.advances
  · exact rest hvw.1.advances

theorem fields_sound (record : DeclId) (index : Nat) (ids : List OpId) :
    GivesAdvance g (fields env record index ids) := by
  induction ids generalizing index with
  | nil => exact fun s h => .pure h.advances
  | cons id rest ih =>
      intro s h
      refine (operation_gives env id).bind ?_
      rintro q s ⟨_, rfl⟩
      refine .guard trivial fun _ => ?_
      split
      · exact .throw _ trivial
      · next typeId _ =>
          refine (type_sound env typeId s h).bind fun type t ⟨ht, hst, htype⟩ => ?_
          refine (chooseName_sound ht env _ q index).bind fun name u ⟨hu, hut⟩ => ?_
          rw [← hut] at htype hst
          refine (typed_sound hu (Check.fieldDecl_lays hu.printable record name htype)
            fun _ _ h => h.1).bind fun d v ⟨huv, _, hd⟩ => ?_
          refine (noteDecl_sound huv.1 id hd).bind fun _ w hvw => ?_
          have hsw : Advances g s w := ⟨hvw.1, hst.enlarges.trans (huv.trans hvw).2⟩
          refine Ensures.bind (P := fun _ x => Advances g w x) ?_ fun _ x hwx =>
            (ih (index + 1) x hwx.1).imp fun _ y hxy => (hsw.trans hwx).trans hxy
          have hrec := hvw.1.recorded id none nofun fun _ => nofun
          exact ⟨{ hrec.1 with }, .refl _⟩

theorem record_sound (hscope : scope.Placed) : LeavesStmt g (record env scope o) := by
  intro s h
  refine (chooseName_sound h env _ o 0).bind fun name t ⟨ht, hts⟩ => ?_
  refine introduce_sound o hscope ht (Check.recordDecl_lays ht.printable scope name) trivial
    fun d u htu hd hsort => ?_
  have hlocal := (DeclKind.isLocal_of_sort_eq hsort).mpr trivial
  refine (fields_sound env d 0 _ u htu.1).bind fun _ v huv => ?_
  refine (declStmt_sound huv.1 scope (Nat.lt_of_lt_of_le hd huv.2.decls)
    (huv.2.isLocal hd hlocal)).imp fun r w ⟨hvw, hr⟩ => ⟨⟨hvw.1, ?_⟩, hr⟩
  exact hts ▸ (htu.trans (huv.trans hvw)).2

end Decls

/-! ### Operations -/

section Rules

variable {env : LiftEnv} {lift : OpLifter}

theorem GivesStmt.leaves {m : Lift StmtId} (hm : GivesStmt g m) : LeavesStmt g (some <$> m) := by
  intro s h
  refine .map ((hm s h).imp fun i t ⟨hst, hi⟩ => ⟨hst, ?_⟩)
  rintro _ ⟨⟩
  exact hi

/-- A step that leaves the statement of an expression. -/
theorem leaves_expr {m : Lift ExprId}
    (hm : ∀ s, Sound g s → Gives m s fun e t => Advances g s t ∧ e < t.program.exprs.size) :
    LeavesStmt g (do
      let e ← m
      return some ((← program).expr e).stmt) := by
  intro s h
  refine (hm s h).bind fun e t ⟨hst, he⟩ => .get_bind (.pure ⟨hst, ?_⟩)
  rintro _ ⟨⟩
  exact hst.1.printable.twinned.lt he

theorem leaves_leaf (k : StmtKind) (hk : ∀ e, k ≠ .expr e) (hinner : k.inner = [])
    (hinit : k.initial? = none) (hdecl : ∀ ds, k ≠ .declares ds) :
    LeavesStmt g (some <$> typed (Check.pushStmt k)) := by
  refine GivesStmt.leaves fun s h => ?_
  refine (typed_sound h (Check.pushStmt_lays h.printable hk
    (Check.laidStmt_of_inner (by simp [hinner]) hinit hdecl)) fun _ _ h => h.1).imp ?_
  exact fun i t ⟨hst, _, hi⟩ => ⟨hst, hi⟩

theorem leaves_name (role : NameRole) (o : Operation) :
    LeavesStmt g (do
      let _ ← chooseName env role o 0
      return none) := by
  intro s h
  refine (chooseName_sound h env role o 0).bind fun _ t ⟨ht, hts⟩ => .pure ⟨⟨ht, ?_⟩, nofun⟩
  exact hts ▸ .refl _

theorem forM_sound (hlift : LiftsSoundly g lift) {scope : Scope} (hscope : scope.Placed)
    (ops : List OpId) : GivesAdvance g (ops.forM fun op => do let _ ← lift scope op) := by
  induction ops with
  | nil => exact fun s h => .pure h.advances
  | cons op ops ih =>
      intro s h
      refine Ensures.bind (P := fun _ t => Advances g s t) ?_ fun _ t hst =>
        (ih t hst.1).imp fun _ u htu => hst.trans htu
      exact (hlift scope op hscope s h).bind fun _ t ht => .pure ht.1

theorem rule_sound (env : LiftEnv) (hlift : LiftsSoundly g lift) : LiftsSoundly g (rule env lift) := by
  intro scope id hscope s h
  refine (operation_gives env id).bind ?_
  rintro o s ⟨_, rfl⟩
  split
  · split
    · exact (innerScope_sound hlift hscope o).leaves s h
    · exact .throw _ trivial
  · split
    · exact (forM_sound hlift hscope _ s h).bind fun _ _ hst => .pure ⟨hst, nofun⟩
    · exact (function_sound env o hscope s h).bind fun _ _ hst => .pure ⟨hst, nofun⟩
    · exact var_sound env o hscope s h
    · exact record_sound env o hscope s h
    · exact leaves_name _ o s h
    · exact leaves_name _ o s h
    · exact leaves_name _ o s h
    · exact (ifElse_sound hlift hscope o).leaves s h
    · exact (whileLoop_sound hlift hscope o).leaves s h
    · exact (doLoop_sound hlift hscope o).leaves s h
    · exact (forLoop_sound hlift hscope o).leaves s h
    · exact (returns_sound env scope o).leaves s h
    · exact leaves_leaf .breaks nofun rfl rfl nofun s h
    · exact leaves_leaf .continues nofun rfl rfl nofun s h
    · exact leaves_leaf .empty nofun rfl rfl nofun s h
    · exact leaves_expr (fun s h => wrapper_sound hlift hscope o h) s h
    · refine leaves_expr (fun s h => ?_) s h
      exact (simpleExpr_sound env o _ s h).imp fun e t ⟨ht, hst, he⟩ => ⟨⟨ht, hst.enlarges⟩, he⟩

/-- An operation with an effect becomes a new statement, and nothing else is lifted meanwhile. -/
theorem rule_effect {scope : Scope} {id : OpId} (hid : env.graph.isEffect id = true) (h : Sound g s) :
    Gives (rule env lift scope id) s fun r t =>
      t.opStmt = s.opStmt ∧ ∀ i, r = some i → s.program.stmts.size ≤ i := by
  have made {o : Operation} {kind : Kind} (hk : kind.isEffect = true) :
      Gives (do
        let e ← simpleExpr env o kind
        return some ((← program).expr e).stmt) s fun r t =>
          t.opStmt = s.opStmt ∧ ∀ i, r = some i → s.program.stmts.size ≤ i := by
    have hsame : Gives (simpleExpr env o kind) s fun _ t => t.opStmt = s.opStmt :=
      (simpleExpr_follows (A := .still env.graph) o kind s).mono
        (fun _ _ h => congrArg Tables.opStmt (LiftState.tables_of_records h)) fun _ _ _ => trivial
    refine ((simpleExpr_effect env o hk s h).and hsame).bind fun e t ⟨⟨ht, hnew⟩, hopStmt⟩ => ?_
    refine .get_bind (.pure ⟨hopStmt, ?_⟩)
    rintro _ ⟨⟩
    exact (newStmt_of_new h.printable.twinned hnew.1.extends hnew.2).1
  refine (operation_gives env id).bind ?_
  rintro o s ⟨ho, rfl⟩
  unfold Graph.isEffect Graph.kind? at hid
  rw [ho] at hid
  obtain ⟨kind, hkind, hk⟩ := (Option.any_eq_true _ _).mp hid
  dsimp only [Option.bind] at hkind
  rw [hkind]
  cases kind <;> first | exact absurd hk (by decide) | exact made hk

/-- An operation that has been lifted before is what it became then. -/
theorem memo_sound (h : Sound g s) {id : OpId} {r : Option StmtId} (hr : s.opStmt.get? id = some r) :
    Gives (do
      modify fun s => { s with stats := { s.stats with memoHits := s.stats.memoHits + 1 } }
      return r : Lift (Option StmtId)) s fun r t =>
        Advances g s t ∧ ∀ i, r = some i → i < t.program.stmts.size := by
  refine ⟨⟨{ h with }, .refl _⟩, ?_⟩
  rintro i rfl
  exact h.stmts id i hr

theorem opAux_sound (env : LiftEnv) (bound : Nat) : LiftsSoundly env.graph (opAux env bound) := by
  induction bound with
  | zero =>
      intro scope id hscope s h
      unfold opAux
      refine .get_bind ?_
      split
      · next r hr => exact memo_sound h hr
      · exact .throw _ trivial
  | succ bound ih =>
      intro scope id hscope s h
      unfold opAux
      refine .get_bind ?_
      split
      · next r hr => exact memo_sound h hr
      · have hrule : Gives (rule env (opAux env bound) scope id) s fun r t =>
            (Advances env.graph s t ∧ ∀ i, r = some i → i < t.program.stmts.size) ∧
              (env.graph.isEffect id = true →
                t.opStmt = s.opStmt ∧ ∀ i, r = some i → s.program.stmts.size ≤ i) := by
          have hsound := rule_sound env ih scope id hscope s h
          by_cases hid : env.graph.isEffect id = true
          · exact (hsound.and (rule_effect hid h)).imp fun r t ht => ⟨ht.1, fun _ => ht.2⟩
          · exact hsound.imp fun r t ht => ⟨ht, fun heff => absurd heff hid⟩
        refine hrule.bind fun r t ⟨⟨hst, hr⟩, heffect⟩ => ?_
        have hrec : Advances env.graph t (t.recorded id r) := by
          refine hst.1.recorded id r hr fun hid i hi o ho => ?_
          obtain ⟨hopStmt, hnew⟩ := heffect hid
          rw [hopStmt] at ho
          exact absurd (h.stmts o i ho) (Nat.not_lt.mpr (hnew i hi))
        exact ⟨hst.trans hrec, hr⟩

end Rules

/-! ### Tasks -/

section Run

variable (env : LiftEnv)

theorem op_sound : LiftsSoundly env.graph (op env) := opAux_sound env _

theorem task_sound {task : Task} (htask : task.Placed) :
    GivesAdvance env.graph (Lift.task env task) := by
  intro s h
  cases task with
  | body function region =>
      refine (compound_sound (op_sound env) (Scope.placed_function function) region s h).bind ?_
      rintro body t ⟨hst, hbody⟩
      exact (typed_sound hst.1 (Check.setBody_lays hst.1.printable function hbody)
        fun _ _ h => h).imp fun _ u ⟨htu, _⟩ => hst.trans htu
  | init scope var region =>
      refine (yielded_sound (op_sound env) htask region h).bind fun init t ⟨hst, hinit⟩ => ?_
      exact (typed_sound hst.1 (Check.setInit_lays hst.1.printable var hinit)
        fun _ _ h => h).imp fun _ u ⟨htu, _⟩ => hst.trans htu

theorem drainAux_sound (bound count : Nat) (h : Sound env.graph s) :
    Gives (Queue.drainAux (Lift.task env) LiftError.unbounded bound count) s fun _ t =>
      Sound env.graph t := by
  induction bound generalizing s count with
  | zero =>
      unfold Queue.drainAux
      refine .get_bind ?_
      split
      · exact .pure h
      · exact .throw _ trivial
  | succ bound ih =>
      unfold Queue.drainAux
      refine .get_bind ?_
      split
      · exact .pure h
      · next task rest hpending =>
          have hmem : ∀ {x}, x ∈ task :: rest → x.Placed := fun hx => h.tasks _ (hpending ▸ hx)
          refine (update_gives fun q => { q with pending := rest }).bind ?_
          rintro _ _ rfl
          refine (task_sound env (hmem List.mem_cons_self) _
            (h.requeue fun x hx => hmem (List.mem_cons_of_mem task hx))).bind fun _ u hu => ?_
          refine (update_gives Queue.complete).bind ?_
          rintro _ _ rfl
          exact ih (count + 1) (hu.1.requeue hu.1.tasks)

theorem drain_sound (h : Sound env.graph s) :
    Gives (drain env) s fun _ t => Sound env.graph t := by
  refine drain_of_drainAux (E := fun _ _ => True) ?_
  exact (drainAux_sound env _ 0 h).imp fun _ t ht => { ht with }

theorem run_sound (h : Sound env.graph s) : Gives (run env) s fun _ t => Sound env.graph t := by
  refine (forM_sound (op_sound env) Scope.placed_file _ s h).bind fun _ t hst => ?_
  exact (drain_sound env hst.1).bind fun _ u hu => .pure hu

end Run

end Lift

/-- A lift that succeeds, of any graph, ends in a sound state. -/
theorem Graph.lift_sound {g : Graph} {naming : Naming} {c : LiftConfig} {s : LiftState}
    (h : g.lift naming c = (.ok (), s)) : Sound g s := by
  have hrun := Lift.run_sound ⟨g, naming, c.showOps⟩ (sound_start g c.target)
  unfold Gives Ensures at hrun
  rwa [Graph.run_of_lift h] at hrun

end Readback
