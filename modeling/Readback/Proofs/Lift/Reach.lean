import Mathlib.Logic.Relation
import Readback.Graph.Builder
import Readback.Proofs.Lift.Run

/-! # What the body of a function keeps

A statement or expression of a lifted program is kept if the body of the function leads to it. Which
operations have their nodes kept depends on their place in the graph: a sequence keeps all that it does
not make part of another expression, but a condition, an initial value or a wrapper keeps its yield and
what the yield is made of, and loses everything else. So an operation that nothing uses can be lost.

* On the side of the program, `Program.children` are the statements that directly stand in a statement,
  expressions among them, and `Program.Reaches` is the way down.
* On the side of the graph, `Graph.kept` lists the operations whose nodes stand directly in the node of
  an operation: those that leave a statement in a sequence (`Graph.sequenceOps`), the yields of a region
  (`Graph.yieldOps`), the increment of a loop (`Graph.stepOps`) and those behind operands
  (`Graph.valueOps`). `Retained g s r id i` follows them down from the region `r`.
* The two are linked by `Holds s ops l`: the statements `l` are made from those of the operations `ops`
  and lead to all of them. Nodes that are no operation's may stand between, such as references,
  parentheses and the compound statement of a branch; `Made` looks through them.

Both directions are inductions along what an operation became. What is retained can be reached
(`Settled.reaches_of_retained`), and what can be reached is made from retained statements
(`Settled.made_of_reaches`).

The main result is `Graph.lift_reaches_iff`: in a lift that succeeds, the body of a function leads to
the node of an operation if and only if the node is that of an operation that the region of the body
retains. In `discarded`, a call in the condition of a branch is lost
(`Graph.lift_reaches_iff_discarded`). -/

namespace Readback

open Step LiftState

/-! ### Ways through a program -/

/-- The initial value that a declaration gives. -/
def DeclKind.init? : DeclKind → Option ExprId
  | .var _ init _ => init
  | _ => none

theorem DeclKind.isValue_of_init? {k : DeclKind} {e : ExprId} (h : k.init? = some e) :
    k.IsValue := by
  cases k with
  | var => trivial
  | _ => cases h

namespace Program

/-- The statements that directly stand in a statement of the given kind: its parts, the conditions,
increments and values in it, the initial values of the variables that it declares, and the parts of an
expression. -/
def childrenOf (p : Program) : StmtKind → List StmtId
  | .compound body => body
  | .returns value => value.toList.map fun e => (p.expr e).stmt
  | .ifElse cond yes no => (p.expr cond).stmt :: yes :: no.toList
  | .whileLoop cond body => [(p.expr cond).stmt, body]
  | .doLoop body cond => [body, (p.expr cond).stmt]
  | .forLoop init cond inc body =>
    init.toList ++ (cond.toList ++ inc.toList).map (fun e => (p.expr e).stmt) ++ [body]
  | .declares decls => (decls.filterMap fun d => (p.decl d).kind.init?).map fun e => (p.expr e).stmt
  | .expr e => (p.expr e).kind.parts.map fun x => (p.expr x).stmt
  | .breaks | .continues | .empty => []

/-- The statements that directly stand in the statement `i`. -/
def children (p : Program) (i : StmtId) : List StmtId := p.childrenOf (p.stmt i).kind

/-- The statement `i` leads to `j`. -/
def Reaches (p : Program) : StmtId → StmtId → Prop :=
  Relation.ReflTransGen fun i j => j ∈ p.children i

end Program

/-! ### Operations that are kept -/

namespace Graph

/-- The operations that leave a statement in the sequence that a region becomes. -/
def sequenceOps (g : Graph) (r : RegionId) : List OpId :=
  (g.regionOps r).filter fun op => !g.elides op

/-- The operations that yield the value of a region. -/
def yieldOps (g : Graph) (r : RegionId) : List OpId := (g.regionOps r).filter (Lift.isYield g)

/-- The operations that can be the increment that a region becomes. -/
def stepOps (g : Graph) (r : RegionId) : List OpId :=
  g.yieldOps r ++ (g.regionOps r).filter g.isLoose

/-- The operations that became the expressions behind the values. -/
def valueOps (g : Graph) (vs : List Value) : List OpId :=
  (vs.filterMap Value.definingOp?).filter g.isExpr

theorem valueOps_cons (g : Graph) (v : Value) (vs : List Value) :
    g.valueOps (v :: vs) = g.valueOps [v] ++ g.valueOps vs := by
  rw [valueOps, ← List.singleton_append, List.filterMap_append, List.filter_append]
  rfl

/-- The operations whose nodes an expression of the given form takes in. -/
def taken (g : Graph) (o : Operation) : Form → List OpId
  | .passed | .unary | .cast => g.valueOps (o.operands.take 1)
  | .wrapper => o.regions.head?.elim [] g.yieldOps
  | .binary => g.valueOps (o.operands.take 2)
  | .call | .initList => g.valueOps o.operands
  | .symbol | .constant | .none => []

/-- The operations whose nodes stand directly in the node of an operation. -/
def kept (g : Graph) (o : Operation) : List OpId :=
  match o.kind? with
  | none => o.regions[0]?.elim [] g.sequenceOps
  | some .ifStmt => o.regions[0]?.elim [] g.yieldOps ++ o.regions[1]?.elim [] g.sequenceOps ++
      (g.elseRegion? o).elim [] g.sequenceOps
  | some .whileStmt => o.regions[0]?.elim [] g.yieldOps ++ o.regions[1]?.elim [] g.sequenceOps
  | some .doStmt => o.regions[0]?.elim [] g.sequenceOps ++ o.regions[1]?.elim [] g.yieldOps
  | some .forStmt => o.regions[0]?.elim [] g.yieldOps ++ o.regions[1]?.elim [] g.stepOps ++
      o.regions[2]?.elim [] g.sequenceOps
  | some .returnStmt => g.valueOps (o.operands.take 1)
  | some .var => (g.filling? o).elim [] g.yieldOps
  | some k => g.taken o k.form

theorem kept_of_form {g : Graph} {o : Operation} {form : Form}
    (h : ∃ k, o.kind? = some k ∧ k.form = form) (hne : form ≠ .none := by decide) :
    g.kept o = g.taken o form := by
  obtain ⟨k, hk, rfl⟩ := h
  rw [kept, hk]
  cases k <;> first | rfl | exact absurd rfl hne

end Graph

/-- `Retained g s r id i`: the operation `id` became the statement `i`, which is kept in the sequence
that the region `r` becomes. -/
inductive Retained (g : Graph) (s : LiftState) (r : RegionId) : OpId → StmtId → Prop where
  | listed {id i} (mem : id ∈ g.sequenceOps r) (node : s.stmtOf? id = some i) : Retained g s r id i
  | inner {id o i j k} (outer : Retained g s r id i) (op : g.op? id = some o)
      (mem : j ∈ g.kept o) (node : s.stmtOf? j = some k) : Retained g s r j k

/-! ### Nodes and their parts -/

section Parts

variable {g : Graph} {extra : List Task} {s : LiftState}

/-- In the statement of an expression stand the parts of the expression. -/
theorem Program.children_of_asExpr? {p : Program} {i : StmtId} {e : ExprId}
    (he : p.asExpr? i = some e) :
    p.children i = (p.expr e).kind.parts.map fun x => (p.expr x).stmt := by
  have hkind : (p.stmt i).kind = .expr e := by
    unfold asExpr? at he
    unfold stmt
    split at he
    · next heq =>
        cases he
        rw [heq]
        rfl
    · cases he
  rw [children, hkind]
  rfl

/-- The statement of an operation that became an expression. -/
theorem Inv.stmtOf?_of_exprOf? (h : Inv g extra s) {op : OpId} {e : ExprId}
    (he : s.exprOf? op = some e) : s.stmtOf? op = some (s.program.expr e).stmt := by
  obtain ⟨i, hi, htwin⟩ := exprOf?_eq_some.mp he
  obtain ⟨_, rfl⟩ := (h.twinned i e).mp htwin
  exact stmtOf?_eq_some.mpr hi

theorem Inv.children_expr (h : Inv g extra s) {e : ExprId} (he : e < s.program.exprs.size) :
    s.program.children (s.program.expr e).stmt =
      (s.program.expr e).kind.parts.map fun x => (s.program.expr x).stmt :=
  Program.children_of_asExpr? ((h.twinned _ e).mpr ⟨he, rfl⟩)

theorem LiftState.mem_listed {r : RegionId} {i : StmtId} :
    i ∈ s.listed g r ↔ ∃ op ∈ g.sequenceOps r, s.stmtOf? op = some i := by
  unfold listed Graph.sequenceOps
  simp only [List.mem_filterMap, List.mem_filter]
  refine exists_congr fun op => ?_
  cases g.elides op <;> simp

end Parts

/-! ### Statements and what they are made from -/

/-- `Made s K i`: the statement `i` is one that `K` has for an operation, or it is no operation's and
only such statements stand in it. -/
inductive Made (s : LiftState) (K : OpId → StmtId → Prop) : StmtId → Prop where
  | node {id i} (mem : K id i) : Made s K i
  | aux {i} (own : s.Auxiliary i) (parts : ∀ j ∈ s.program.children i, Made s K j) : Made s K i

theorem Made.imp {s : LiftState} {K L : OpId → StmtId → Prop} {i : StmtId} (h : Made s K i)
    (hKL : ∀ id i, K id i → L id i) : Made s L i := by
  induction h with
  | node mem => exact .node (hKL _ _ mem)
  | aux own _ ih => exact .aux own ih

/-- `Holds s ops l`: the statements `l` are made from those of the operations `ops` and lead to all of
them. -/
structure Holds (s : LiftState) (ops : List OpId) (l : List StmtId) : Prop where
  made : ∀ i ∈ l, Made s (fun op k => op ∈ ops ∧ s.stmtOf? op = some k) i
  leads : ∀ op ∈ ops, ∀ k, s.stmtOf? op = some k → ∃ i ∈ l, s.program.Reaches i k

namespace Holds

variable {s : LiftState} {ops ops' : List OpId} {l l' : List StmtId}

theorem nil : Holds s [] [] := ⟨nofun, nofun⟩

theorem append (h : Holds s ops l) (h' : Holds s ops' l') : Holds s (ops ++ ops') (l ++ l') := by
  refine ⟨fun i hi => ?_, fun op hop k hk => ?_⟩
  · obtain hi | hi := List.mem_append.mp hi
    · exact (h.made i hi).imp fun _ _ hop => ⟨List.mem_append_left _ hop.1, hop.2⟩
    · exact (h'.made i hi).imp fun _ _ hop => ⟨List.mem_append_right _ hop.1, hop.2⟩
  · obtain hop | hop := List.mem_append.mp hop
    · obtain ⟨i, hi, hr⟩ := h.leads op hop k hk
      exact ⟨i, List.mem_append_left _ hi, hr⟩
    · obtain ⟨i, hi, hr⟩ := h'.leads op hop k hk
      exact ⟨i, List.mem_append_right _ hi, hr⟩

/-- A statement of no operation holds what the statements in it hold. -/
theorem of_children {i : StmtId} (own : s.Auxiliary i) (h : Holds s ops (s.program.children i)) :
    Holds s ops [i] := by
  refine ⟨List.forall_mem_singleton.mpr (.aux own h.made), fun op hop k hk => ?_⟩
  obtain ⟨j, hj, hr⟩ := h.leads op hop k hk
  exact ⟨i, List.mem_singleton_self i, .head hj hr⟩

end Holds

section Pieces

variable {g : Graph} {extra : List Task} {s : LiftState}

theorem Inv.holds_expr (h : Inv g extra s) {op : OpId} {e : ExprId} (he : s.exprOf? op = some e) :
    Holds s [op] [(s.program.expr e).stmt] := by
  have hstmt := h.stmtOf?_of_exprOf? he
  refine ⟨List.forall_mem_singleton.mpr (.node ⟨List.mem_singleton_self op, hstmt⟩),
    fun op' hop k hk => ⟨_, List.mem_singleton_self _, ?_⟩⟩
  cases List.mem_singleton.mp hop
  cases hstmt.symm.trans hk
  exact .refl

theorem Inv.holds_exprs (h : Inv g extra s) {ops : List OpId} {es : List ExprId}
    (hes : s.Exprs ops es) : Holds s ops (es.map fun e => (s.program.expr e).stmt) := by
  induction hes with
  | nil => exact .nil
  | cons he _ ih => exact (h.holds_expr he).append ih

theorem Inv.holds_yield (h : Inv g extra s) {r : RegionId} {e : ExprId} (hy : s.YieldOf g r e) :
    Holds s (g.yieldOps r) [(s.program.expr e).stmt] := by
  obtain ⟨_, y, hlist, he⟩ := hy
  rw [Graph.yieldOps, hlist]
  exact h.holds_expr he

theorem holds_compound {r : RegionId} {i : StmtId} (hc : s.CompoundOf g r i) :
    Holds s (g.sequenceOps r) (s.program.children i) := by
  obtain ⟨_, _, hkind⟩ := hc
  rw [Program.children, hkind]
  refine ⟨fun j hj => ?_, fun op hop k hk => ⟨k, mem_listed.mpr ⟨op, hop, hk⟩, .refl⟩⟩
  obtain ⟨op, hop, hj⟩ := mem_listed.mp hj
  exact .node ⟨hop, hj⟩

theorem holds_branch {r : RegionId} {i : StmtId} (hb : s.BranchOf g r i) :
    Holds s (g.sequenceOps r) [i] := .of_children hb.2 (holds_compound hb.1)

/-- A reference that is no operation's. -/
theorem Inv.holds_ref (h : Inv g extra s) {e : ExprId} {x : DeclId} (haux : s.AuxiliaryExpr e)
    (hx : (s.program.expr e).kind = .ref x) : Holds s [] [(s.program.expr e).stmt] := by
  refine .of_children haux.2 ?_
  rw [h.children_expr haux.1, hx]
  exact .nil

theorem Inv.valueOps_result (h : Inv g extra s) {d : OpId} {e : ExprId} (he : s.exprOf? d = some e)
    (k : Nat) : g.valueOps [.result d k] = [d] := by
  obtain ⟨i, hi, _⟩ := exprOf?_eq_some.mp he
  have hexpr : g.isExpr d = true := by rw [← h.exprOf?_isSome hi, he]; rfl
  simp [Graph.valueOps, Value.definingOp?, hexpr]

/-- A value is that of an operation that became an expression, or a reference stands for it. -/
theorem Inv.valueOps_of_res (h : Inv g extra s) {v : Value} {e : ExprId} (hres : Res g s v e) :
    (∃ d k, v = .result d k ∧ s.exprOf? d = some e ∧ g.valueOps [v] = [d]) ∨
      g.valueOps [v] = [] ∧ ∃ x, (s.program.expr e).kind = .ref x := by
  cases hres with
  | @node d k e he => exact .inl ⟨d, k, rfl, he, h.valueOps_result he k⟩
  | @decl d k e x kind _ _ ref =>
      refine .inr ⟨?_, x, ref⟩
      obtain kind | kind := kind <;>
        simp [Graph.valueOps, Value.definingOp?, Graph.isExpr, kind, Kind.isExpr]
  | @param v e x param _ ref =>
      obtain ⟨_, _, _, _, _, _, _, _, _, _, _, _, rfl, _⟩ := param
      exact .inr ⟨rfl, x, ref⟩

theorem Inv.holds_use (h : Inv g extra s) {v : Value} {e : ExprId} (hu : Use g s v e) :
    Holds s (g.valueOps [v]) [(s.program.expr e).stmt] := by
  obtain ⟨hres, ⟨d, k, rfl, he⟩ | haux⟩ := hu
  · rw [h.valueOps_result he k]
    exact h.holds_expr he
  · obtain ⟨d, _, _, he, hops⟩ | ⟨hnil, x, hx⟩ := h.valueOps_of_res hres
    · rw [hops]
      exact h.holds_expr he
    · rw [hnil]
      exact h.holds_ref haux hx

theorem Inv.holds_operand (h : Inv g extra s) {v : Value} {x : ExprId} (ho : Operand g s v x) :
    Holds s (g.valueOps [v]) [(s.program.expr x).stmt] := by
  obtain ⟨e, hu, rfl | ⟨haux, hparen⟩⟩ := ho
  · exact h.holds_use hu
  · refine .of_children haux.2 ?_
    rw [h.children_expr haux.1, hparen]
    exact h.holds_use hu

theorem Inv.holds_operands (h : Inv g extra s) {vs : List Value} {xs : List ExprId}
    (ho : List.Forall₂ (Operand g s) vs xs) :
    Holds s (g.valueOps vs) (xs.map fun x => (s.program.expr x).stmt) := by
  induction ho with
  | nil => exact .nil
  | @cons v x vs xs hv _ ih =>
      rw [Graph.valueOps_cons]
      exact (h.holds_operand hv).append ih

/-- An option of operations and one of what they become. -/
theorem holds_option {α β : Type} {R : α → β → Prop} {x : Option α} {y : Option β}
    {ops : α → List OpId} {stmt : β → StmtId} (h : Option.Rel R x y)
    (hR : ∀ a b, R a b → Holds s (ops a) [stmt b]) :
    Holds s (x.elim [] ops) (y.toList.map stmt) := by
  cases h with
  | none => exact .nil
  | some h => exact hR _ _ h

/-! ### Nodes and what they keep -/

/-- An expression is passed on from the operations that are kept, or they stand in it. -/
theorem Inv.holds_parts (h : Inv g extra s) {o : Operation} {e : ExprId}
    (node : ExprNode g s o e) :
    ((∀ op ∈ g.kept o, s.exprOf? op = some e) ∧
        (g.passed o = [] → (s.program.expr e).kind.parts = [])) ∨
      Holds s (g.kept o) ((s.program.expr e).kind.parts.map fun x => (s.program.expr x).stmt) := by
  cases node with
  | @same v kind operand res =>
      have hform : ∃ k, o.kind? = some k ∧ k.form = .passed := by
        obtain kind | kind | kind := kind <;> exact ⟨_, kind, rfl⟩
      refine .inl ?_
      rw [Graph.kept_of_form hform, Graph.taken, List.take_add_one, operand]
      show (∀ op ∈ g.valueOps [v], _) ∧ _
      obtain ⟨d, k, rfl, he, hops⟩ | ⟨hnil, x, hx⟩ := h.valueOps_of_res res
      · rw [hops]
        refine ⟨List.forall_mem_singleton.mpr he, fun hnil => ?_⟩
        obtain ⟨k, hk, hform⟩ := hform
        simp [Graph.passed, hk, hform, operand, Value.definingOp?] at hnil
      · rw [hnil, hx]
        exact ⟨List.forall_mem_nil _, fun _ => rfl⟩
  | wrapper kind region _ yields _ node =>
      refine .inl ⟨?_, fun hnil => ?_⟩
      · rw [Graph.kept_of_form ⟨_, kind, rfl⟩]
        simp only [Kind.form, Graph.taken, region, Option.elim_some, Graph.yieldOps, yields]
        exact List.forall_mem_singleton.mpr node
      · simp [Graph.passed, kind, Kind.form, region, yields] at hnil
  | symbol kind _ _ node =>
      have hform : ∃ k, o.kind? = some k ∧ k.form = .symbol := by
        obtain ⟨kind, -⟩ | ⟨kind, -⟩ := kind <;> exact ⟨_, kind, rfl⟩
      rw [Graph.kept_of_form hform, node]
      exact .inr .nil
  | constant kind node =>
      rw [Graph.kept_of_form ⟨_, kind, rfl⟩, node]
      exact .inr .nil
  | binary operator lhs rhs node left right =>
      rw [Graph.kept_of_form (o.form_of_binaryOp? operator), Graph.taken,
        List.take_add_one, List.take_add_one, lhs, rhs, node]
      exact .inr (h.holds_operands (.cons left (.cons right .nil)))
  | unary operator arg node operand =>
      rw [Graph.kept_of_form (o.form_of_unaryOp? operator), Graph.taken,
        List.take_add_one, arg, node]
      exact .inr (h.holds_operand operand)
  | cast style _ _ arg node operand =>
      rw [Graph.kept_of_form (o.form_of_castStyle? style), Graph.taken,
        List.take_add_one, arg, node]
      exact .inr (h.holds_operand operand)
  | call kind _ _ node own callee args =>
      rw [Graph.kept_of_form ⟨_, kind, rfl⟩, node]
      exact .inr ((h.holds_ref own callee).append (h.holds_operands args))
  | initList kind _ node elements =>
      rw [Graph.kept_of_form ⟨_, kind, rfl⟩, node]
      exact .inr (h.holds_operands elements)

/-- A statement that is not an expression holds what its operation keeps. -/
theorem Settled.holds_stmt (hform : g.Formed) (h : Settled g s) {id : OpId} {o : Operation}
    {i : StmtId} (ho : g.op? id = some o) (node : StmtNode g s o i) :
    Holds s (g.kept o) (s.program.children i) := by
  cases node with
  | @ifElse rc ry c y n kind cond yes node condition branch other =>
      simp only [Graph.kept, kind, cond, yes, Option.elim_some, List.append_assoc]
      rw [Program.children, node]
      have hother : Holds s ((g.elseRegion? o).elim [] g.sequenceOps) (n.toList.map fun i => i) :=
        holds_option other fun _ _ hb => holds_branch hb
      rw [List.map_id'] at hother
      exact (h.holds_yield condition).append ((holds_branch branch).append hother)
  | whileLoop kind cond body node condition branch =>
      simp only [Graph.kept, kind, cond, body, Option.elim_some]
      rw [Program.children, node]
      exact (h.holds_yield condition).append (holds_branch branch)
  | doLoop kind body cond node condition branch =>
      simp only [Graph.kept, kind, cond, body, Option.elim_some]
      rw [Program.children, node]
      exact (holds_branch branch).append (h.holds_yield condition)
  | @forLoop rc ri rb c inc b kind cond increment body node condition step branch =>
      simp only [Graph.kept, kind, cond, increment, body, Option.elim_some]
      rw [Program.children, node]
      have hcond : Holds s (g.yieldOps rc) (c.toList.map fun e => (s.program.expr e).stmt) := by
        cases c with
        | none =>
            rw [Graph.yieldOps, show g.regionOps rc = [] from condition]
            exact .nil
        | some e => exact h.holds_yield condition.2
      rw [Program.childrenOf, List.map_append]
      exact (hcond.append (h.holds_exprs step.2)).append (holds_branch branch)
  | scope kind _ region compound =>
      simp only [Graph.kept, kind, region, Option.elim_some]
      exact holds_compound compound
  | returns kind _ node operand =>
      simp only [Graph.kept, kind, List.take_one]
      rw [Program.children, node]
      rw [show g.valueOps o.operands.head?.toList =
        o.operands.head?.elim [] fun v => g.valueOps [v] by cases o.operands.head? <;> rfl]
      exact holds_option operand fun _ _ hu => h.holds_use hu
  | leaf kind =>
      obtain ⟨kind, node⟩ | ⟨kind, node⟩ | ⟨kind, node⟩ := kind <;>
        · simp only [Graph.kept, kind, Program.children, node]
          exact .nil
  | @declares d kind noted node =>
      rw [Program.children, node]
      rw [hform.op_id id o ho] at noted
      obtain kind | kind := kind
      · obtain ⟨type, init, storage, hdecl, hinit⟩ := h.var ho kind noted
        have hinits : ([d].filterMap fun d => (s.program.decl d).kind.init?) = init.toList := by
          cases init <;> simp [hdecl, DeclKind.init?]
        simp only [Graph.kept, kind, Program.childrenOf, hinits]
        exact holds_option hinit fun _ _ hy => h.holds_yield hy
      · obtain ⟨_, k, hk, hdecl⟩ := h.decls id d noted
        obtain rfl : Kind.record = k := by simpa [Graph.kind?, ho, kind] using hk
        have hinit : (s.program.decl d).kind.init? = none := by
          cases he : (s.program.decl d).kind.init? with
          | none => rfl
          | some e => exact absurd (DeclKind.isValue_of_init? he) hdecl
        simp only [Graph.kept, kind, Program.childrenOf, List.filterMap_cons, hinit]
        exact .nil

end Pieces

/-! ### What a function leads to -/

section Function

variable {g : Graph} {s : LiftState} {r : RegionId}

/-- The statement of an operation leads to those of the operations that it keeps. -/
theorem Settled.reaches_kept (hform : g.Formed) (h : Settled g s) {id op : OpId} {o : Operation}
    {i k : StmtId} (ho : g.op? id = some o) (hi : s.stmtOf? id = some i) (hop : op ∈ g.kept o)
    (hk : s.stmtOf? op = some k) : s.program.Reaches i k := by
  have of_holds : Holds s (g.kept o) (s.program.children i) → s.program.Reaches i k := by
    intro hholds
    obtain ⟨j, hj, hr⟩ := hholds.leads op hop k hk
    exact .head hj hr
  obtain ⟨q, hq, hshown⟩ := h.shown id _ (stmtOf?_eq_some.mp hi)
  cases hq.symm.trans ho
  cases hshown with
  | @expr _ e twin _ node _ =>
      obtain ⟨hshared, _⟩ | hholds := h.holds_parts node
      · obtain ⟨_, rfl⟩ := (h.twinned i e).mp twin
        cases (h.stmtOf?_of_exprOf? (hshared op hop)).symm.trans hk
        exact .refl
      · exact of_holds (Program.children_of_asExpr? twin ▸ hholds)
  | stmt _ node => exact of_holds (h.holds_stmt hform ho node)

theorem Retained.stmtOf? {op : OpId} {i : StmtId} (h : Retained g s r op i) :
    s.stmtOf? op = some i := by
  cases h with
  | listed _ node => exact node
  | inner _ _ _ node => exact node

/-- Whatever is retained can be reached. -/
theorem Settled.reaches_of_retained (hform : g.Formed) (h : Settled g s) {b : StmtId}
    (hb : s.BranchOf g r b) {op : OpId} {i : StmtId} (hr : Retained g s r op i) :
    s.program.Reaches b i := by
  induction hr with
  | listed mem node =>
      obtain ⟨j, hj, hreach⟩ := (holds_compound hb.1).leads _ mem _ node
      exact .head hj hreach
  | inner outer op mem node ih =>
      exact ih.trans (h.reaches_kept hform op outer.stmtOf? mem node)

theorem Inv.kept_of_passed {extra : List Task} (h : Inv g extra s) {o : Operation} {d : OpId}
    {e : ExprId} (he : s.exprOf? d = some e) (hd : d ∈ g.passed o) : d ∈ g.kept o := by
  cases hk : o.kind? with
  | none => simp [Graph.passed, hk] at hd
  | some k =>
      unfold Graph.passed at hd
      rw [hk, Option.map_some] at hd
      split at hd
      · next hform =>
          have hform := Option.some.inj hform
          obtain ⟨v, hv, hdef⟩ := Option.bind_eq_some_iff.mp (Option.mem_toList.mp hd)
          rw [Graph.kept_of_form ⟨k, hk, hform⟩, Graph.taken, List.take_add_one, hv]
          cases v with
          | result d' j =>
              cases hdef
              show d ∈ g.valueOps [.result d j]
              rw [h.valueOps_result he j]
              exact List.mem_singleton_self d
          | argument b j => cases hdef
      · next hform =>
          rw [Graph.kept_of_form ⟨k, hk, Option.some.inj hform⟩]
          exact hd
      · cases hd

/-- The operation that made a retained expression is retained. -/
theorem Settled.retained_root (h : Settled g s) {id : OpId} {e : ExprId} (root : Rooted g s id e)
    (hr : Retained g s r id (s.program.expr e).stmt) :
    ∃ id' o', g.op? id' = some o' ∧ s.exprOf? id' = some e ∧
      Retained g s r id' (s.program.expr e).stmt ∧
      (g.passed o' = [] ∨ (s.program.expr e).kind.parts = []) := by
  induction root with
  | own op node _ own => exact ⟨_, _, op, node, hr, own⟩
  | pass op _ mem root ih =>
      exact ih (.inner hr op (h.kept_of_passed root.exprOf? mem)
        (h.stmtOf?_of_exprOf? root.exprOf?))

/-- What stands in a retained statement is made from retained statements. -/
theorem Settled.made_children (hform : g.Formed) (h : Settled g s) {id : OpId} {i : StmtId}
    (hr : Retained g s r id i) : ∀ j ∈ s.program.children i, Made s (Retained g s r) j := by
  have of_holds : ∀ {id o}, g.op? id = some o → Retained g s r id i →
      Holds s (g.kept o) (s.program.children i) →
      ∀ j ∈ s.program.children i, Made s (Retained g s r) j := by
    intro id o ho hr hholds j hj
    exact (hholds.made j hj).imp fun op k ⟨hop, hk⟩ => .inner hr ho hop hk
  obtain ⟨o, ho, hshown⟩ := h.shown id _ (stmtOf?_eq_some.mp hr.stmtOf?)
  cases hshown with
  | @expr _ e twin known _ root =>
      obtain ⟨_, rfl⟩ := (h.twinned i e).mp twin
      rw [hform.op_id id o ho] at root
      obtain ⟨id', o', ho', he, hr', own⟩ := h.retained_root root hr
      obtain ⟨_, hnil⟩ | hholds := h.holds_parts (h.exprNode ho' he)
      · have hparts : (s.program.expr e).kind.parts = [] := own.elim hnil fun hparts => hparts
        rw [h.children_expr known, hparts]
        exact nofun
      · exact of_holds ho' hr' (h.children_expr known ▸ hholds)
  | stmt _ node => exact of_holds ho hr (h.holds_stmt hform ho node)

/-- Whatever can be reached is made from retained statements. -/
theorem Settled.made_of_reaches (hform : g.Formed) (h : Settled g s) {b i : StmtId}
    (hb : s.BranchOf g r b) (hr : s.program.Reaches b i) : Made s (Retained g s r) i := by
  induction hr with
  | refl =>
      refine ((holds_branch hb).made b (List.mem_singleton_self b)).imp ?_
      rintro op k ⟨hop, hk⟩
      exact .listed hop hk
  | tail _ hstep ih =>
      cases ih with
      | node mem => exact h.made_children hform mem _ hstep
      | aux _ parts => exact parts _ hstep

/-- Only operations of a list are retained if all that leave a statement in the region are in it, and
all that operations of the list keep. -/
theorem Retained.mem_of_closed {ops : List OpId} (hlisted : ∀ op ∈ g.sequenceOps r, op ∈ ops)
    (hkept : ∀ id ∈ ops, ∀ o ∈ g.op? id, ∀ op ∈ g.kept o, op ∈ ops) {op : OpId} {i : StmtId}
    (h : Retained g s r op i) : op ∈ ops := by
  induction h with
  | listed mem _ => exact hlisted _ mem
  | inner _ op mem _ ih => exact hkept _ ih _ op _ mem

end Function

/-- In a lift that succeeds, the body of a function leads to the node of an operation if and only if
the node is that of an operation that the region of the body retains. -/
theorem Graph.lift_reaches_iff {g : Graph} (hg : g.Built) (naming : Naming) (c : LiftConfig)
    {s : LiftState} (h : g.lift naming c = (.ok (), s)) {f : OpId} {o : Operation} {d : DeclId}
    {r : RegionId} (ho : g.op? f = some o) (hk : o.kind? = some .function)
    (hd : s.opDecl.get? f = some d) (hr : g.filling? o = some r) :
    ∃ type params body locals,
      (s.program.decl d).kind = .function type params (some body) locals ∧
      ∀ id i, s.opStmt.get? id = some (some i) →
        (s.program.Reaches body i ↔ ∃ op, Retained g s r op i) := by
  have hs := Graph.lift_settled hg h
  obtain ⟨type, params, body, locals, hkind, hbody⟩ := hs.function ho hk hd
  rw [hr] at hbody
  cases hbody with
  | @some _ b hb =>
      refine ⟨type, params, b, locals, hkind, fun id i hid => ⟨fun hreach => ?_, ?_⟩⟩
      · cases hs.made_of_reaches hg.formed hb hreach with
        | node mem => exact ⟨_, mem⟩
        | aux own _ => exact absurd hid (own.2 id)
      · rintro ⟨op, hop⟩
        exact hs.reaches_of_retained hg.formed hb hop

/-- A function with a branch. Its condition makes a call whose value nothing uses, before it yields
the argument of the function. -/
def discarded : Graph :=
  .build .empty
    [.internType (.integer .int none), .internType (.function [0] [0]),
      .createOperation 0 ((OpSpec.ofKind .function).withAttr AttrName.symName (.text "effect")
        |>.withAttr AttrName.functionType (.type 1)),
      .createOperation 0 ((OpSpec.ofKind .function).withAttr AttrName.symName (.text "discarded")
        |>.withAttr AttrName.functionType (.type 1)),
      .createRegion 1, .createBlock 1 [0],
      .createOperation 1 (OpSpec.ofKind .ifStmt),
      .createRegion 2, .createRegion 2, .createBlock 2 [], .createBlock 3 [],
      .createOperation 2 ((OpSpec.ofKind .call).withOperands [.argument 1 0] |>.withResults [0]
        |>.withAttr AttrName.callee (.text "effect")),
      .createOperation 2 ((OpSpec.ofKind .condYield).withOperands [.argument 1 0]),
      .createOperation 1 ((OpSpec.ofKind .returnStmt).withOperands [.argument 1 0])]

/-- The call in the condition is lost. -/
theorem Graph.lift_reaches_iff_discarded :
    ∃ s, discarded.lift .standard (.forTarget .host) = (.ok (), s) ∧
      discarded.kind? 3 = some .call ∧ discarded.hasUses 3 = false ∧
      ∃ d type params body locals i, s.opDecl.get? 1 = some d ∧
        (s.program.decl d).kind = .function type params (some body) locals ∧
        s.opStmt.get? 3 = some (some i) ∧ ¬ s.program.Reaches body i := by
  have hlift : (discarded.lift .standard (.forTarget .host)).1 = .ok () := by decide +kernel
  have hs := Graph.lift_eq_of_fst hlift
  obtain ⟨o, ho⟩ : ∃ o, discarded.op? 1 = some o :=
    Option.isSome_iff_exists.mp (by decide +kernel)
  have hk : o.kind? = some .function := by
    rw [← Option.bind_some o Operation.kind?, ← ho]
    decide +kernel
  have hr : discarded.filling? o = some 1 := by
    rw [← Option.bind_some o discarded.filling?, ← ho]
    decide +kernel
  have hd : (discarded.lift .standard (.forTarget .host)).2.opDecl.get? 1 = some 2 := by
    decide +kernel
  have hi : (discarded.lift .standard (.forTarget .host)).2.opStmt.get? 3 = some (some 2) := by
    decide +kernel
  obtain ⟨type, params, body, locals, hkind, hiff⟩ :=
    Graph.lift_reaches_iff (built_build _ _) .standard (.forTarget .host) hs ho hk hd hr
  refine ⟨_, hs, by decide +kernel, by decide +kernel, 2, type, params, body, locals, 2, hd, hkind,
    hi, fun hreach => ?_⟩
  obtain ⟨op, hop⟩ := (hiff 3 2 hi).mp hreach
  have hmem : op ∈ [2, 4, 5] := hop.mem_of_closed (by decide +kernel) (by decide +kernel)
  have hother : ∀ op ∈ [2, 4, 5],
      (discarded.lift .standard (.forTarget .host)).2.stmtOf? op ≠ some 2 := by decide +kernel
  exact hother op hmem hop.stmtOf?

end Readback
