import Readback.Proofs.Lift.Memo
import Readback.Proofs.Lift.Region
import Readback.Proofs.Lift.Run
import Readback.Proofs.Typing.Declaring

/-! # What all steps of a lift lead along

A lift does three things to its state: it constructs on the program, it enters what was made in its
tables, and it lifts types. A relation between states that allows these is `Lifting`, and every call
that a lift offers leads along it, whatever the graph is like and whether the call succeeds or fails.

* `Lifting R P` is a class on relations. It asks for constructing along `P`, a relation between
  programs, for entries in all tables but that of lifted types, and for lifting types, which a relation
  may want to know more about.
* `Moves R m` says that running `m` leads along `R` from every state. For a reflexive and transitive
  relation it is kept by sequences, branches and loops, so the lemmas of this module follow the code of
  the lift: one lemma `f_moves` for each step `f`, from reading the graph (`operand_moves`,
  `region_moves`) over values, expressions (`simpleExpr_moves`), statements (`compound_moves` and the
  structured ones) and declarations (`function_moves`, `record_moves`) to rules (`rule_moves`).
* `opAux_moves` is the induction over nested operations, and `drainAux_moves` that over the tasks that
  wait.

The results are `LiftCall.run_moves` for any single call, and `LiftState.play_moves` for calls in a row.
An invariant of lifts that is a relation to the state before, such as that types are only added or that
no entry is lost, is proved by giving an instance of the class and nothing else. -/

namespace Readback

open Step Program

/-- The relation allows constructing along `P`, entries in all tables but that of lifted types, and
lifting types. -/
class Lifting (env : outParam LiftEnv) (P : outParam (Program → Program → Prop))
    (R : LiftState → LiftState → Prop) : Prop extends Std.Refl R, IsTrans LiftState R where
  typed {α : Type} {m : Check α} (hm : Moves P m) : Moves R (Lift.typed m)
  enter {s t : LiftState} (program : t.program = s.program) (typeOf : t.typeOf = s.typeOf) : R s t
  type (id : TypeId) : Moves R (Lift.type env id)

namespace Lift

variable {env : LiftEnv} {P : Program → Program → Prop} {R : LiftState → LiftState → Prop}
  [lifting : Lifting env P R]

include lifting

/-! ### Reading the graph and entering in tables -/

theorem enter_moves {f : LiftState → LiftState} (program : ∀ s, (f s).program = s.program)
    (typeOf : ∀ s, (f s).typeOf = s.typeOf) : Moves R (modify f : Lift Unit) :=
  .modify fun s => lifting.enter (program s) (typeOf s)

theorem operation_moves (id : OpId) : Moves R (operation env id) := by
  unfold operation
  split
  · exact .pure _
  · exact .throw _

theorem operand_moves (o : Operation) (index : Nat) : Moves R (operand env o index) := by
  unfold operand
  split
  · exact .pure _
  · exact .throw _

theorem resultType_moves (o : Operation) : Moves R (resultType env o) := by
  unfold resultType
  split
  · exact .pure _
  · exact .throw _

theorem region_moves (o : Operation) (index : Nat) (what : String) :
    Moves R (region env o index what) := by
  unfold region
  split
  · exact .pure _
  · exact .throw _

theorem chooseName_moves (role : NameRole) (o : Operation) (index : Nat) :
    Moves R (chooseName env role o index) :=
  .bind (enter_moves (fun _ => rfl) fun _ => rfl) fun _ => .pure _

theorem noteDecl_moves (op : OpId) (d : DeclId) : Moves R (noteDecl op d) :=
  enter_moves (fun _ => rfl) fun _ => rfl

theorem registerSymbol_moves (scope : Scope) (o : Operation) (d : DeclId) :
    Moves R (registerSymbol scope o d) := by
  unfold registerSymbol
  split
  · split
    · exact enter_moves (fun _ => rfl) fun _ => rfl
    · exact .pure _
  · exact .pure _

theorem defer_moves (task : Task) : Moves R (defer task) := enter_moves (fun _ => rfl) fun _ => rfl

/-! ### Operations of a region -/

section Regions

variable {lift : OpLifter} (hlift : ∀ scope id, Moves R (lift scope id))

include hlift

theorem stmts_moves (scope : Scope) (ops : List OpId) : Moves R (stmts env lift scope ops) := by
  induction ops with
  | nil => exact .pure _
  | cons op rest ih =>
      refine .bind (hlift scope op) fun stmt => ?_
      cases stmt with
      | none => exact ih
      | some stmt => exact .bind (.bind .get fun _ => .pure _) fun _ => .bind ih fun _ => .pure _

theorem yieldsAux_moves (scope : Scope) (r : RegionId) (ops : List OpId) (yielded : Option ExprId)
    (unused : List ExprId) : Moves R (yieldsAux env lift scope r ops yielded unused) := by
  induction ops generalizing yielded unused with
  | nil => exact .pure _
  | cons op rest ih =>
      refine .bind (hlift scope op) fun stmt => .bind (.bind .get fun _ => .pure _) fun p => ?_
      dsimp only
      split
      · refine .guard ?_
        split
        · exact .throw _
        · exact ih _ _
      · split
        · exact ih _ _
        · exact ih _ _

theorem yields_moves (scope : Scope) (r : RegionId) : Moves R (yields env lift scope r) :=
  yieldsAux_moves hlift scope r _ _ _

theorem yielded_moves (scope : Scope) (r : RegionId) : Moves R (yielded env lift scope r) := by
  refine .bind (yields_moves hlift scope r) fun result => ?_
  split
  · exact .pure _
  · exact .throw _

theorem wrapper_moves (scope : Scope) (o : Operation) : Moves R (wrapper env lift scope o) := by
  unfold wrapper
  split
  · exact .throw _
  · exact .guard (yielded_moves hlift scope _)

end Regions

variable [Constructing P]

/-! ### Values and expressions -/

theorem value_moves (v : Value) : Moves R (value v) := by
  refine .bind .get fun s => ?_
  split
  · exact lifting.typed (Check.declRef_moves _)
  · exact .pure _
  · exact lifting.typed (Check.declRef_moves _)
  · exact .throw _

theorem operandValue_moves (o : Operation) (index : Nat) : Moves R (operandValue env o index) :=
  .bind (operand_moves o index) value_moves

theorem symbolRef_moves (o : Operation) (name : String) : Moves R (symbolRef env o name) := by
  refine .bind ?_ fun decl => lifting.typed (Check.declRef_moves decl)
  unfold symbol
  split
  · exact .throw _
  · refine .bind .get fun s => ?_
    split
    · exact .pure _
    · exact .throw _

theorem binary_moves (o : Operation) (op : BinaryOp) : Moves R (binary env o op) :=
  .bind (operand_moves o 0) fun lhs => .bind (operand_moves o 1) fun rhs =>
    .bind (value_moves lhs) fun l => .bind (value_moves rhs) fun r =>
      lifting.typed (Check.binary_moves op l r)

theorem unary_moves (o : Operation) (op : UnaryOp) : Moves R (unary env o op) :=
  .bind (operandValue_moves o 0) fun arg => lifting.typed (Check.unary_moves op arg)

theorem compare_moves (o : Operation) : Moves R (compare env o) := by
  unfold compare
  split
  · exact binary_moves o _
  · exact .throw _

theorem constant_moves (o : Operation) : Moves R (constant env o) := by
  unfold constant
  split
  · exact .throw _
  · exact .bind (resultType_moves o) fun id => .bind (lifting.type id) fun t =>
      lifting.typed (Check.integer_moves _ t)
  · exact .bind (resultType_moves o) fun id => .bind (lifting.type id) fun t =>
      lifting.typed (Check.floating_moves _ t)
  · exact lifting.typed (Check.text_moves _)
  · exact .throw _

theorem cast_moves (o : Operation) (style : CastStyle) : Moves R (cast env o style) := by
  unfold cast
  split
  · exact .guard (.bind (resultType_moves o) fun id => .bind (lifting.type id) fun t =>
      .bind (operandValue_moves o 0) fun arg => lifting.typed (Check.cast_moves style _ t arg _))
  · exact .throw _

theorem call_moves (o : Operation) : Moves R (call env o) :=
  .guard (.bind (symbolRef_moves o _) fun callee => .bind (.mapM fun v _ => value_moves v) fun args =>
    lifting.typed (Check.call_moves callee args))

theorem initList_moves (o : Operation) : Moves R (initList env o) :=
  .bind (resultType_moves o) fun id => .bind (lifting.type id) fun t =>
    .bind (.mapM fun v _ => value_moves v) fun elements =>
    lifting.typed (Check.initList_moves t elements)

theorem simpleExpr_moves (o : Operation) (kind : Kind) : Moves R (simpleExpr env o kind) := by
  unfold simpleExpr
  split
  · exact operandValue_moves o 0
  · exact operandValue_moves o 0
  · exact operandValue_moves o 0
  · exact symbolRef_moves o _
  · exact symbolRef_moves o _
  · exact call_moves o
  · exact constant_moves o
  · exact initList_moves o
  · exact cast_moves o _
  · exact cast_moves o _
  · exact compare_moves o
  · split
    · exact binary_moves o _
    · exact unary_moves o _
    · exact .throw _

theorem returns_moves (scope : Scope) (o : Operation) : Moves R (returns env scope o) := by
  unfold returns
  split
  · dsimp only
    split
    · exact lifting.typed (Check.returns_moves _ _)
    · exact .bind (.map (value_moves _) _) fun v => lifting.typed (Check.returns_moves _ v)
    · exact .bind (.throw _) fun v => lifting.typed (Check.returns_moves _ v)
  · exact .throw _

/-! ### Statements -/

section Statements

variable {lift : OpLifter} (hlift : ∀ scope id, Moves R (lift scope id))

include hlift

theorem compound_moves (scope : Scope) (r : RegionId) : Moves R (compound env lift scope r) :=
  .bind (stmts_moves hlift scope _) fun _ => lifting.typed (Check.pushStmt_moves _)

theorem ifElse_moves (scope : Scope) (o : Operation) : Moves R (ifElse env lift scope o) := by
  refine .bind (region_moves o 0 _) fun cond => .bind (region_moves o 1 _) fun yes =>
    .bind (yielded_moves hlift scope cond) fun c => .bind (compound_moves hlift scope yes) fun y =>
      .bind ?_ fun no => lifting.typed (Check.controlled_moves c fun e => .ifElse e y no)
  cases o.regions[2]?.filter _ with
  | none => exact .pure _
  | some r => exact .map (compound_moves hlift scope r) _

theorem whileLoop_moves (scope : Scope) (o : Operation) : Moves R (whileLoop env lift scope o) :=
  .bind (region_moves o 0 _) fun cond => .bind (region_moves o 1 _) fun body =>
    .bind (yielded_moves hlift scope cond) fun c => .bind (compound_moves hlift scope body) fun b =>
      lifting.typed (Check.controlled_moves c fun e => .whileLoop e b)

theorem doLoop_moves (scope : Scope) (o : Operation) : Moves R (doLoop env lift scope o) :=
  .bind (region_moves o 0 _) fun body => .bind (region_moves o 1 _) fun cond =>
    .bind (compound_moves hlift scope body) fun b => .bind (yielded_moves hlift scope cond) fun c =>
      lifting.typed (Check.controlled_moves c fun e => .doLoop b e)

theorem forLoop_moves (scope : Scope) (o : Operation) : Moves R (forLoop env lift scope o) := by
  rw [forLoop_eq]
  refine .bind (region_moves o 0 _) fun rc => .bind (region_moves o 1 _) fun ri =>
    .bind (region_moves o 2 _) fun rb => .bind ?_ fun cond => .bind ?_ fun inc =>
      .bind (compound_moves hlift scope rb) fun body => lifting.typed (Check.forLoop_moves _ _ _ _)
  · unfold loopCondition
    split
    · exact .pure _
    · exact .map (yielded_moves hlift scope rc) _
  · refine .bind (yields_moves hlift scope ri) fun result => ?_
    split
    · exact .pure _
    · exact .pure _
    · exact .pure _
    · exact .throw _

theorem innerScope_moves (scope : Scope) (o : Operation) : Moves R (innerScope env lift scope o) :=
  .bind (region_moves o 0 _) fun r => compound_moves hlift scope r

end Statements

/-! ### Declarations -/

theorem declStmt_moves (scope : Scope) (d : DeclId) : Moves R (declStmt? scope d) := by
  unfold declStmt?
  split
  · exact .map (lifting.typed (Check.pushStmt_moves _)) _
  · exact .pure _

theorem params_moves (o : Operation) (f : DeclId) (entry : Option BlockId) (index : Nat)
    (inputs : List TypeId) : Moves R (params env o f entry index inputs) := by
  induction inputs generalizing index with
  | nil => exact .pure _
  | cons input rest ih =>
      refine .bind (chooseName_moves _ o index) fun name => .bind (lifting.type input) fun t =>
        .bind (lifting.typed (Declaring.param f name t index)) fun d => ?_
      cases entry with
      | none => exact .bind (ih _) fun _ => .pure _
      | some block =>
          exact .bind (enter_moves (fun _ => rfl) fun _ => rfl) fun _ => .bind (ih _) fun _ => .pure _

theorem function_moves (scope : Scope) (o : Operation) : Moves R (function env scope o) := by
  unfold function
  split
  · exact .throw _
  · split
    · exact .throw _
    · refine .bind (lifting.type _) fun t => .bind (chooseName_moves _ o 0) fun name =>
        .bind (lifting.typed (Declaring.functionDecl scope name t)) fun d =>
        .bind (lifting.typed (Declaring.addDecl scope d)) fun _ =>
        .bind (noteDecl_moves o.id d) fun _ =>
        .bind (registerSymbol_moves scope o d) fun _ =>
        .guard (.bind (params_moves o d _ 0 _) fun list =>
        .bind (lifting.typed (Constructing.setParams d list)) fun _ => ?_)
      split
      · exact defer_moves _
      · exact .pure _

theorem var_moves (scope : Scope) (o : Operation) : Moves R (var env scope o) := by
  refine .bind (resultType_moves o) fun id => .bind (lifting.type id) fun t =>
    .bind (chooseName_moves _ o 0) fun name =>
    .bind (lifting.typed (Declaring.varDecl scope name t _)) fun d =>
    .bind (lifting.typed (Declaring.addDecl scope d)) fun _ => .bind (noteDecl_moves o.id d) fun _ =>
    .bind (registerSymbol_moves scope o d) fun _ => ?_
  split
  · split
    · exact .bind (defer_moves _) fun _ => declStmt_moves scope d
    · exact declStmt_moves scope d
  · exact declStmt_moves scope d

theorem fields_moves (record : DeclId) (index : Nat) (ops : List OpId) :
    Moves R (fields env record index ops) := by
  induction ops generalizing index with
  | nil => exact .pure _
  | cons id rest ih =>
      refine .bind (operation_moves id) fun o => .guard ?_
      split
      · exact .throw _
      · exact .bind (lifting.type _) fun t => .bind (chooseName_moves _ o index) fun name =>
          .bind (lifting.typed (Constructing.fieldDecl record name t)) fun d =>
          .bind (noteDecl_moves id d) fun _ =>
          .bind (enter_moves (fun _ => rfl) fun _ => rfl) fun _ => ih _

theorem record_moves (scope : Scope) (o : Operation) : Moves R (record env scope o) :=
  .bind (chooseName_moves _ o 0) fun name =>
    .bind (lifting.typed (Declaring.recordDecl scope name)) fun d =>
    .bind (lifting.typed (Declaring.addDecl scope d)) fun _ => .bind (noteDecl_moves o.id d) fun _ =>
    .bind (fields_moves d 0 _) fun _ => declStmt_moves scope d

/-! ### Operations and tasks -/

theorem rule_moves {lift : OpLifter} (hlift : ∀ scope id, Moves R (lift scope id)) (scope : Scope)
    (id : OpId) : Moves R (rule env lift scope id) := by
  refine .bind (operation_moves id) fun o => ?_
  split
  · split
    · exact .map (innerScope_moves hlift scope o) _
    · exact .throw _
  · next kind _ =>
      split
      · exact .bind (.forM fun op _ => .bind (hlift scope op) fun _ => .pure _) fun _ => .pure _
      · exact .bind (function_moves scope o) fun _ => .pure _
      · exact var_moves scope o
      · exact record_moves scope o
      · exact .bind (chooseName_moves _ o 0) fun _ => .pure _
      · exact .bind (chooseName_moves _ o 0) fun _ => .pure _
      · exact .bind (chooseName_moves _ o 0) fun _ => .pure _
      · exact .map (ifElse_moves hlift scope o) _
      · exact .map (whileLoop_moves hlift scope o) _
      · exact .map (doLoop_moves hlift scope o) _
      · exact .map (forLoop_moves hlift scope o) _
      · exact .map (returns_moves scope o) _
      · exact .map (lifting.typed (Check.pushStmt_moves _)) _
      · exact .map (lifting.typed (Check.pushStmt_moves _)) _
      · exact .map (lifting.typed (Check.pushStmt_moves _)) _
      · exact .bind (wrapper_moves hlift scope o) fun _ =>
          .bind (.bind .get fun _ => .pure _) fun _ => .pure _
      · exact .bind (simpleExpr_moves o kind) fun _ => .bind (.bind .get fun _ => .pure _) fun _ =>
          .pure _

theorem opAux_moves (bound : Nat) (scope : Scope) (id : OpId) :
    Moves R (opAux env bound scope id) := by
  induction bound generalizing scope id with
  | zero =>
      unfold opAux
      refine .bind .get fun s => ?_
      split
      · exact .bind (enter_moves (fun _ => rfl) fun _ => rfl) fun _ => .pure _
      · exact .throw _
  | succ bound ih =>
      unfold opAux
      refine .bind .get fun s => ?_
      split
      · exact .bind (enter_moves (fun _ => rfl) fun _ => rfl) fun _ => .pure _
      · exact .bind (rule_moves ih scope id) fun _ =>
          .bind (enter_moves (fun _ => rfl) fun _ => rfl) fun _ => .pure _

theorem task_moves (t : Task) : Moves R (task env t) := by
  have hop : ∀ scope id, Moves R (op env scope id) := opAux_moves _
  cases t with
  | body f r =>
      exact .bind (compound_moves hop (.function f) r) fun body =>
        lifting.typed (Declaring.setBody f body)
  | init scope v r =>
      exact .bind (yielded_moves hop scope r) fun init => lifting.typed (Declaring.setInit v init)

theorem drainAux_moves (bound count : Nat) :
    Moves R (Queue.drainAux (task env) LiftError.unbounded bound count) := by
  induction bound generalizing count with
  | zero =>
      unfold Queue.drainAux
      refine .bind .get fun s => ?_
      split
      · exact .pure _
      · exact .throw _
  | succ bound ih =>
      unfold Queue.drainAux
      refine .bind .get fun s => ?_
      split
      · exact .pure _
      · exact .bind (enter_moves (fun _ => rfl) fun _ => rfl) fun _ => .bind (task_moves _) fun _ =>
          .bind (enter_moves (fun _ => rfl) fun _ => rfl) fun _ => ih _

theorem drain_moves : Moves R (drain env) := by
  intro s
  have hnote : ∀ t : LiftState, R t t.executed := fun t => lifting.enter rfl rfl
  have hloop := drainAux_moves (R := R) (env.graph.operations.size + s.queue.size) 0 s
  unfold after at hloop ⊢
  unfold drain Queue.drain
  cases hrun : Queue.drainAux (task env) LiftError.unbounded
      (env.graph.operations.size + s.queue.size) 0 s with
  | ok count t =>
      rw [hrun] at hloop
      exact IsTrans.trans _ _ _ hloop (hnote t)
  | error e t =>
      rw [hrun] at hloop
      exact IsTrans.trans _ _ _ hloop (hnote t)

end Lift

variable {env : LiftEnv} {P : Program → Program → Prop} {R : LiftState → LiftState → Prop}
  [Constructing P] [lifting : Lifting env P R]

include lifting

theorem LiftCall.run_moves (call : LiftCall) : Moves R (call.run env) := by
  cases call with
  | op scope id => exact .map (Lift.opAux_moves _ scope id) _
  | type id => exact .map (lifting.type id) _
  | value v => exact .map (Lift.value_moves v) _
  | drain => exact .map Lift.drain_moves _

/-- Calls in a row, whether they succeed or fail. -/
theorem LiftState.play_moves (s : LiftState) (calls : List LiftCall) : R s (s.play env calls) := by
  induction calls generalizing s with
  | nil => exact Std.Refl.refl s
  | cons call calls ih => exact IsTrans.trans _ _ _ (call.run_moves s) (ih _)

end Readback
