import Readback.Graph.Builder
import Readback.Proofs.Graph.Types
import Readback.Proofs.Graph.Uses
import Readback.Proofs.Graph.Walk

/-! # Scripts

A script is whatever can be written with the building steps: steps in a row that depend on what came
before, failures, and failures that are caught.

* `Build.Script` is an inductive predicate on computations. What was built before a failure stays, also
  if the failure is caught, so a script that fails half-way has left something.
* Whatever way a script takes, what it leaves is a built graph (`Build.Script.built`), by induction on
  the script: single steps lead from built graphs to built ones (`Build.KeepsBuilt`), and so does
  everything that is put together from them.
* The functions that build whole operations are scripts. Those for expressions and statements are so by
  themselves (`Build.Script.binary`, `Build.Script.call`, `Build.Script.statement` and so on), those
  with regions if the functions that fill the regions are (`Build.Script.structured`,
  `Build.Script.createFunction`, `Build.Script.record`). So a client that uses these functions writes
  scripts, whatever it does in between.

The main result is `Build.Script.nodes_in_place`. After every script, successful or not, operations,
regions and blocks know their own positions, each of them is listed exactly once by the node around it,
operations come after the operation around them, and operands are values that are there.

In `interrupted` the body of a function fails after its first operation, and a declaration follows. The
function stays with the operation that was added before the failure
(`Script.nodes_in_place_interrupted`). -/

namespace Readback

open Step

namespace Build

/-- Computations over building steps. What was built before a failure stays, also if it is caught. -/
inductive Script : {α : Type} → Build α → Prop where
  | pure {α : Type} (a : α) : Script (pure a)
  | throw {α : Type} (e : BuildError) : Script (throw e : Build α)
  | get : Script (get : Build Graph)
  | bind {α β : Type} {m : Build α} {f : α → Build β} (first : Script m)
      (rest : ∀ a, Script (f a)) : Script (m >>= f)
  | tryCatch {α : Type} {m : Build α} {handle : BuildError → Build α} (body : Script m)
      (handler : ∀ e, Script (handle e)) : Script (tryCatch m handle)
  | internType (shape : Shape) : Script (internType shape)
  | asLvalue (id : TypeId) : Script (asLvalue id)
  | setAttribute (op : OpId) (name : String) (value : Attribute) : Script (setAttribute op name value)
  | createRegion (parent : OpId) : Script (createRegion parent)
  | createBlock (region : RegionId) (arguments : List TypeId) : Script (createBlock region arguments)
  | createOperation (block : BlockId) (spec : OpSpec) : Script (createOperation block spec)
  | rebuildUses : Script (modify Graph.rebuildUses : Build PUnit)

/-- The step leads from built graphs to built ones. -/
def KeepsBuilt (g g' : Graph) : Prop := g.Built → g'.Built

instance : Std.Refl KeepsBuilt := ⟨fun _ h => h⟩

instance : IsTrans Graph KeepsBuilt := ⟨fun _ _ _ h h' hg => h' (h hg)⟩

namespace Script

section Steps

variable {α : Type} {m : Build α}

theorem moves (h : Script m) : Moves KeepsBuilt m := by
  have step {β : Type} {k : Build β} (b : BuildStep) (hb : b.run = discard k) : Moves KeepsBuilt k :=
    fun g hg => by
      rw [← after_discard, ← hb]
      exact .step b hg
  induction h with
  | pure a => exact .pure a
  | throw e => exact .throw e
  | get => exact .get
  | bind _ _ ih ih' => exact .bind ih ih'
  | tryCatch _ _ ih ih' => exact .tryCatch ih ih'
  | internType shape => exact step (.internType shape) rfl
  | asLvalue id => exact step (.asLvalue id) rfl
  | setAttribute op name value => exact fun _ hg => .step (.setAttribute op name value) hg
  | createRegion parent => exact step (.createRegion parent) rfl
  | createBlock region arguments => exact step (.createBlock region arguments) rfl
  | createOperation block spec => exact step (.createOperation block spec) rfl
  | rebuildUses => exact .modify fun g hg => hg.rebuildUses_eq.symm ▸ hg

/-- A script leaves a built graph, whether it succeeds or fails. -/
theorem built (h : Script m) (registry : Registry) : (after m (.ofRegistry registry)).Built :=
  h.moves _ (.empty registry)

theorem map {β : Type} {f : α → β} (h : Script m) : Script (f <$> m) :=
  .bind h fun a => .pure (f a)

theorem guard {c : Prop} [Decidable c] {e : BuildError} (h : Script m) :
    Script (if c then do let _ ← (MonadExcept.throw e : Build PUnit); m else m) := by
  split
  · exact .bind (.throw e) fun _ => h
  · exact h

theorem forM {β : Type} {f : β → Build PUnit} {l : List β} (h : ∀ b ∈ l, Script (f b)) :
    Script (l.forM f) := by
  induction l with
  | nil => exact .pure _
  | cons b l ih =>
      exact .bind (h b List.mem_cons_self) fun _ => ih fun c hc => h c (List.mem_cons_of_mem b hc)

end Steps

/-! ### Values and expressions -/

section Expr

variable (block : BlockId)

theorem argument (index : Nat) : Script (argument block index) :=
  .bind .get fun _ => .guard (.pure _)

theorem typeOf (v : Value) : Script (typeOf v) := by
  refine .bind .get fun g => ?_
  split
  · exact .pure _
  · exact .throw _

theorem firstResult (op : OpId) (what : String) : Script (firstResult op what) := by
  refine .bind .get fun g => ?_
  split
  · exact .pure _
  · exact .throw _

theorem createValue (spec : OpSpec) : Script (createValue block spec) :=
  .bind (.createOperation block spec) fun _ => firstResult _ _

theorem objectType (v : Value) : Script (objectType v) :=
  .bind (typeOf v) fun _ => .bind .get fun _ => .pure _

theorem constant (value : Attribute) (type : TypeId) : Script (constant block value type) :=
  createValue block _

theorem constantText (s : String) : Script (constantText block s) :=
  .bind (.internType _) fun _ => .bind (.internType _) fun _ => constant block _ _

theorem declRef (decl : Value) : Script (declRef block decl) :=
  .bind (typeOf decl) fun _ => .bind (.asLvalue _) fun _ => createValue block _

theorem functionRef (symbol : String) (type : TypeId) : Script (functionRef block symbol type) :=
  createValue block _

theorem globalRef (symbol : String) (type : TypeId) : Script (globalRef block symbol type) :=
  .bind (.asLvalue type) fun _ => createValue block _

theorem binary (name : String) (lhs rhs : Value) (type : TypeId) :
    Script (binary block name lhs rhs type) := createValue block _

theorem unary (name : String) (arg : Value) (type : TypeId) : Script (unary block name arg type) :=
  createValue block _

theorem addressOf (arg : Value) : Script (addressOf block arg) :=
  .bind (objectType arg) fun _ => .bind (.internType _) fun _ => unary block _ _ _

theorem deref (arg : Value) : Script (deref block arg) := by
  refine .bind (typeOf arg) fun _ => .bind .get fun g => ?_
  dsimp only
  split
  · exact .bind (.internType _) fun _ => unary block _ _ _
  · exact .throw _

theorem step (kind : Kind) (arg : Value) : Script (step block kind arg) :=
  .bind (objectType arg) fun _ => unary block _ _ _

theorem compare (predicate : Predicate) (lhs rhs : Value) (type : TypeId) :
    Script (compare block predicate lhs rhs type) := createValue block _

theorem cast (kind : Kind) (arg : Value) (conversion : Conversion) (type : TypeId) :
    Script (cast block kind arg conversion type) := createValue block _

theorem assign (name : String) (target source : Value) : Script (assign block name target source) :=
  .bind (objectType target) fun _ => createValue block _

theorem initList (elements : List Value) (type : TypeId) : Script (initList block elements type) :=
  createValue block _

theorem call (callee : String) (args : List Value) (results : List TypeId) :
    Script (call block callee args results) := .createOperation block _

theorem callValue (callee : String) (args : List Value) (result : TypeId) :
    Script (callValue block callee args result) :=
  .bind (call block callee args [result]) fun _ => firstResult _ _

theorem statement (kind : Kind) (operands : List Value) : Script (statement block kind operands) :=
  .createOperation block _

end Expr

/-! ### Operations with regions -/

section Nested

variable (block : BlockId)

theorem fillRegion (op : OpId) (arguments : List TypeId) {fill : BlockId → Build Unit}
    (h : ∀ b, Script (fill b)) : Script (fillRegion op arguments fill) :=
  .bind (.createRegion op) fun r => .bind (.createBlock r arguments) h

theorem structured (name : String) {fills : List (BlockId → Build Unit)}
    (h : ∀ fill ∈ fills, ∀ b, Script (fill b)) : Script (structured block name fills) :=
  .bind (.createOperation block _) fun op =>
    .bind (.forM fun fill hfill => fillRegion op [] (h fill hfill)) fun _ => .pure _

theorem expression (type : TypeId) {fill : BlockId → Build Unit} (h : ∀ b, Script (fill b)) :
    Script (expression block type fill) :=
  .bind (.createOperation block _) fun op => .bind (fillRegion op [] h) fun _ => firstResult _ _

theorem createVariable (name : String) (type : TypeId) : Script (createVariable block name type) :=
  .bind (.asLvalue type) fun _ => .createOperation block _

theorem uninitialized (name : String) (type : TypeId) : Script (uninitialized block name type) :=
  .bind (createVariable block name type) fun op => .bind (.createRegion op) fun _ => firstResult _ _

theorem initialized (name : String) (type : TypeId) {fill : BlockId → Value → Build Unit}
    (h : ∀ b v, Script (fill b v)) : Script (initialized block name type fill) :=
  .bind (createVariable block name type) fun op => .bind (firstResult op _) fun v =>
    .bind (fillRegion op [] fun b => h b v) fun _ => .pure _

theorem createFunction (name : String) (type : TypeId) : Script (createFunction block name type) := by
  refine .bind .get fun g => ?_
  dsimp only
  split
  · exact .throw _
  · exact .bind (.createOperation block _) fun _ => .pure _

theorem function (name : String) (type : TypeId) {fill : BlockId → Build Unit}
    (h : ∀ b, Script (fill b)) : Script (function block name type fill) :=
  .bind (createFunction block name type) fun _ => .bind (fillRegion _ _ h) fun _ => .pure _

theorem functionWithNames (name : String) (type : TypeId) (argNames : List String)
    {fill : BlockId → Build Unit} (h : ∀ b, Script (fill b)) :
    Script (functionWithNames block name type argNames fill) :=
  .bind (function block name type h) fun _ => .bind (.setAttribute _ _ _) fun _ => .pure _

theorem functionDecl (name : String) (type : TypeId) : Script (functionDecl block name type) :=
  .bind (createFunction block name type) fun _ => .bind (.createRegion _) fun _ => .pure _

/-- An operation with one region whose block holds an operation for each member of a list. -/
theorem members {β : Type} (op : OpId) (l : List β) (spec : β → OpSpec) :
    Script (Build.fillRegion op [] fun inner => l.forM fun x => do
      let _ ← Build.createOperation inner (spec x)) :=
  fillRegion op [] fun inner => .forM fun _ _ => .bind (.createOperation inner _) fun _ => .pure _

theorem record (name : String) (fields : List (String × TypeId)) :
    Script (record block name fields) :=
  .bind (.createOperation block _) fun op => .bind (members op fields _) fun _ => .pure _

theorem typeAlias (name : String) (type : TypeId) : Script (typeAlias block name type) :=
  .createOperation block _

theorem enumeration (name : String) (constants : List (String × Int)) :
    Script (enumeration block name constants) :=
  .bind (.createOperation block _) fun op => .bind (members op constants _) fun _ => .pure _

end Nested

/-- After every script, successful or not: operations, regions and blocks know their own positions;
every operation is listed exactly once, in its block, every block exactly once, in its region, and
every region but the body exactly once, in its operation; what stands in an operation, at whatever
depth, comes after it; operands are results of earlier operations or arguments of blocks. So walking
the graph from its body meets every operation exactly once, and neither this walk nor the listings of
operations and of the whole graph depend on the bound of their depth. -/
theorem nodes_in_place {α : Type} {m : Build α} (hm : Script m) (registry : Registry) :
    let g := after m (.ofRegistry registry)
    ((∀ i o, g.op? i = some o → o.id = i) ∧ (∀ r R, g.region? r = some R → R.id = r) ∧
      ∀ b B, g.block? b = some B → B.id = b) ∧
    ((g.blocks.toList.flatMap Block.operations).Perm (List.range g.operations.size) ∧
      ∀ i o, g.op? i = some o → ∃ b B, o.parent = some b ∧ g.block? b = some B ∧ i ∈ B.operations) ∧
    ((g.regions.toList.flatMap Region.blocks).Perm (List.range g.blocks.size) ∧
      ∀ b B, g.block? b = some B → ∃ R, g.region? B.region = some R ∧ b ∈ R.blocks) ∧
    ((g.body :: g.operations.toList.flatMap Operation.regions).Perm (List.range g.regions.size) ∧
      ∀ r R, g.region? r = some R → r ≠ g.body →
        ∃ i o, R.parent = some i ∧ g.op? i = some o ∧ r ∈ o.regions) ∧
    (∀ x y, Relation.TransGen g.Encloses x y → x < y) ∧
    (∀ i o v, g.op? i = some o → v ∈ o.operands →
      (g.valueType? v).isSome ∧ ∀ d k, v = .result d k → d < i) ∧
    ∀ bound, g.operations.size < bound →
      (g.topLevelOps.flatMap (g.walkAux g.heldOps bound)).Perm (List.range g.operations.size) ∧
      (∀ id, g.opTextAux bound 0 id = g.opText id) ∧
      String.join (g.topLevelOps.map (g.opTextAux bound 0)) = g.text := by
  intro g
  have hg : g.Arranged := (hm.built registry).arranged
  have htext : ∀ bound, g.operations.size < bound → ∀ id, g.opTextAux bound 0 id = g.opText id :=
    fun bound hb id => hg.opTextAux_eq bound _ 0 id (by omega) (by omega) (by omega) (by omega)
  refine ⟨⟨hg.op_id, hg.region_id, hg.block_id⟩, ⟨hg.operations, fun _ _ => hg.op_place⟩,
    ⟨hg.blocks, fun _ _ => hg.block_place⟩, ⟨hg.regions, fun _ _ => hg.region_place⟩,
    fun _ _ => hg.lt_of_below, fun i o v ho hv => ⟨hg.operand_known i o v ho hv, ?_⟩,
    fun bound hb => ⟨?_, htext bound hb, ?_⟩⟩
  · rintro d k rfl
    exact hg.earlier i o d k ho hv
  · have hwalk : g.topLevelOps.flatMap (g.walkAux g.heldOps bound) = g.walk g.heldOps :=
      List.flatMap_congr fun id _ =>
        hg.walkAux_eq (fun _ => .refl _) bound _ id (by omega) (by omega) (by omega) (by omega)
    rw [hwalk]
    exact hg.walk_perm
  · rw [Graph.text, List.map_congr_left fun id _ => htext bound hb id]

end Script

/-- A function whose body fails after its first operation, and a declaration that follows it. -/
def interrupted : Build Unit := do
  let int ← internType (.integer .int none)
  let type ← internType (.function [int] [int])
  tryCatch
    (discard (function 0 "broken" type fun b => do
      let v ← argument b 0
      let _ ← binary b "hl.add" v v int
      let _ ← argument b 1))
    fun _ => return ()
  let _ ← functionDecl 0 "whole" type

/-- The function stays with the operation that was added before the failure. -/
theorem Script.nodes_in_place_interrupted :
    Script interrupted ∧
      let g := after interrupted (.ofRegistry .empty)
      g.operations.size = 3 ∧ (g.walk g.heldOps).Perm [0, 1, 2] ∧ g.topLevelOps = [0, 2] ∧
      g.regionOps 1 = [1] := by
  have hscript : Script interrupted := by
    refine .bind (.internType _) fun int => .bind (.internType _) fun type =>
      .bind (.tryCatch (.map (.function 0 _ type fun b => ?_)) fun _ => .pure _) fun _ =>
      .bind (.functionDecl 0 _ type) fun _ => .pure _
    exact .bind (.argument b 0) fun v => .bind (.binary b _ v v int) fun _ =>
      .bind (.argument b 1) fun _ => .pure _
  have hsize : (after interrupted (.ofRegistry .empty)).operations.size = 3 := by decide +kernel
  obtain ⟨-, -, -, -, -, -, hwalk⟩ := Script.nodes_in_place hscript .empty
  have hrange : List.range (after interrupted (.ofRegistry .empty)).operations.size = [0, 1, 2] := by
    rw [hsize]
    rfl
  exact ⟨hscript, hsize, (hwalk _ (Nat.lt_succ_self _)).1.trans (.of_eq hrange), by decide +kernel,
    by decide +kernel⟩

end Build

end Readback
