import Readback.Proofs.Lift.Reach
import Readback.Proofs.Lift.Sound

/-! # The order of effects

Calls, assignments, increments and decrements do more than give a value. `Program.effects` lists the
nodes of this sort in a statement in the order of its text, every expression after its operands. On
the side of the graph, `Graph.Evaluates` follows operations to the operations behind their operands.

An operation whose value is used leaves its place in the block and is evaluated at its uses instead,
once at each. So the effects of a body are those of its operations as `Evaluates` meets them
(`Graph.lift_evaluates`), which need not be their order in the block, and not each of them once.

* `Program.exprEffectsAux` and `Graph.evaluatedAux` are bounded in depth so that they can be computed. In
  programs that were lifted the bound is never reached (`Ordered.exprEffects_eq`, `Printable.effects_eq`);
  `Graph.Evaluates` asks that the list be the same for every greater bound, and determines it
  (`Graph.Evaluates.unique`).
* `Origin` says where an expression comes from: it was taken over from another operation, or made over the
  operands (`Inv.origin_of_exprOf?`). By induction along origins, evaluating an operation meets the
  effects in its expression (`Inv.meets_expr`).
* `Settled.meets_stmt` and `Settled.meets_sequence` do the same for statements and sequences, and
  `Sound.exprs_nodup` says that operations with an effect have different nodes, so that nodes can be
  counted in place of operations.

Two functions over `caller` show both sides. In `tallied` every call is made once and in place
(`Graph.lift_evaluates_tallied`). In `doubled` the value of a call is used twice, and the call is made
twice, after one that stood behind it (`Graph.lift_repeats_effect`). -/

namespace Readback

open LiftState Program

/-! ### Effects in programs -/

/-- Whether the expression is a call, an assignment, an increment or a decrement. -/
def ExprKind.isEffect : ExprKind → Bool
  | .call _ _ => true
  | .binary op _ _ => op.isAssignment
  | .unary op _ => op.isStep
  | _ => false

theorem ExprKind.isEffect_of_parts {k : ExprKind} (h : k.parts = []) : k.isEffect = false := by
  cases k <;> simp_all [parts, isEffect]

namespace Program

/-- The effects in an expression. The first argument bounds the depth. -/
def exprEffectsAux (p : Program) : Nat → ExprId → List ExprId
  | 0, _ => []
  | n + 1, e => (p.expr e).kind.parts.flatMap (p.exprEffectsAux n) ++
      if (p.expr e).kind.isEffect then [e] else []

/-- The effects in an expression, unfolded as a tree: those of its parts from left to right, then its
own. -/
def exprEffects (p : Program) (e : ExprId) : List ExprId := p.exprEffectsAux (e + 1) e

/-- The effects in a statement of the given kind; `sub` lists those in the statements inside it. -/
def effectsLevel (p : Program) (sub : StmtId → List ExprId) : StmtKind → List ExprId
  | .compound body => body.flatMap sub
  | .returns value => value.toList.flatMap p.exprEffects
  | .ifElse cond yes no => p.exprEffects cond ++ (yes :: no.toList).flatMap sub
  | .whileLoop cond body => p.exprEffects cond ++ sub body
  | .doLoop body cond => sub body ++ p.exprEffects cond
  | .forLoop init cond inc body =>
    init.toList.flatMap sub ++ (cond.toList ++ inc.toList).flatMap p.exprEffects ++ sub body
  | .declares decls => (decls.filterMap fun d => (p.decl d).kind.init?).flatMap p.exprEffects
  | .expr e => p.exprEffects e
  | .breaks | .continues | .empty => []

/-- The effects in a statement. The first argument bounds the depth. -/
def effectsAux (p : Program) : Nat → StmtId → List ExprId
  | 0, _ => []
  | n + 1, i => p.effectsLevel (p.effectsAux n) (p.stmt i).kind

/-- The effects in a statement, in the order of its text. -/
def effects (p : Program) (i : StmtId) : List ExprId := p.effectsAux (i + 1) i

section Unfolding

variable {p : Program}

theorem Ordered.exprEffectsAux_eq (h : p.Ordered) :
    ∀ m n e : Nat, e < m → e < n → p.exprEffectsAux m e = p.exprEffectsAux n e := by
  intro m
  induction m with
  | zero => intro n e hm; omega
  | succ m ih =>
      intro n e hm hn
      obtain ⟨n, rfl⟩ : ∃ k, n = k + 1 := ⟨n - 1, by omega⟩
      unfold exprEffectsAux
      congr 1
      refine List.flatMap_congr fun x hx => ?_
      have := h e x hx
      exact ih n x (by omega) (by omega)

/-- Listing the effects in an expression needs no bound. -/
theorem Ordered.exprEffects_eq (h : p.Ordered) (e : Nat) :
    p.exprEffects e = (p.expr e).kind.parts.flatMap p.exprEffects ++
      if (p.expr e).kind.isEffect then [e] else [] := by
  conv_lhs => unfold exprEffects exprEffectsAux
  congr 1
  refine List.flatMap_congr fun x hx => ?_
  have := h e x hx
  exact h.exprEffectsAux_eq e (x + 1) x (by omega) (by omega)

theorem Ordered.exprEffects_of_parts (h : p.Ordered) {e : Nat} (hparts : (p.expr e).kind.parts = []) :
    p.exprEffects e = [] := by
  rw [h.exprEffects_eq, hparts, ExprKind.isEffect_of_parts hparts]
  rfl

theorem Ordered.exprEffects_paren (h : p.Ordered) {e x : Nat} (hk : (p.expr e).kind = .paren x) :
    p.exprEffects e = p.exprEffects x := by
  rw [h.exprEffects_eq, hk]
  simp [ExprKind.parts, ExprKind.isEffect]

theorem effectsLevel_congr {f g : StmtId → List ExprId} {k : StmtKind}
    (h : ∀ x ∈ k.inner, f x = g x) : p.effectsLevel f k = p.effectsLevel g k := by
  cases k with
  | compound body => exact List.flatMap_congr h
  | ifElse cond yes no =>
      rw [effectsLevel, effectsLevel, List.flatMap_congr (l := yes :: no.toList) h]
  | whileLoop cond body => rw [effectsLevel, effectsLevel, h body List.mem_cons_self]
  | doLoop body cond => rw [effectsLevel, effectsLevel, h body List.mem_cons_self]
  | forLoop init cond inc body =>
      have hinit := List.flatMap_congr fun x hx => h x (List.mem_cons_of_mem body hx)
      rw [effectsLevel, effectsLevel, h body List.mem_cons_self, hinit]
  | _ => rfl

theorem Printable.effectsAux_eq (h : p.Printable) :
    ∀ m n i : Nat, i < m → i < n → p.effectsAux m i = p.effectsAux n i := by
  intro m
  induction m with
  | zero => intro n i hm; omega
  | succ m ih =>
      intro n i hm hn
      obtain ⟨n, rfl⟩ : ∃ k, n = k + 1 := ⟨n - 1, by omega⟩
      refine effectsLevel_congr fun x hx => ?_
      have hlt := (h.laid i).inner x hx
      exact ih n x (Nat.lt_of_lt_of_le hlt (Nat.le_of_lt_succ hm))
        (Nat.lt_of_lt_of_le hlt (Nat.le_of_lt_succ hn))

/-- Listing the effects in a statement needs no bound. -/
theorem Printable.effects_eq (h : p.Printable) (i : Nat) :
    p.effects i = p.effectsLevel p.effects (p.stmt i).kind := by
  refine effectsLevel_congr fun x hx => ?_
  exact h.effectsAux_eq i (x + 1) x ((h.laid i).inner x hx) (Nat.lt_succ_self x)

end Unfolding

end Program

/-! ### Effects in graphs -/

namespace Graph

/-- The operations with an effect that are met when the one at a position is evaluated: those met
behind its operands in their order, then itself. Operations further away than the bound are not
looked at. -/
def evaluatedAux (g : Graph) : Nat → OpId → List OpId
  | 0, _ => []
  | n + 1, id => ((g.op? id).elim [] g.kept).flatMap (g.evaluatedAux n) ++ [id].filter g.isEffect

/-- `g.Evaluates ops l`: evaluating the operations `ops` one after the other meets the operations `l`
with an effect, however far one looks. -/
def Evaluates (g : Graph) (ops l : List OpId) : Prop :=
  ∃ bound, ∀ n, bound ≤ n → ops.flatMap (g.evaluatedAux n) = l

/-- The operations with an effect in a region, in order. -/
def effectOps (g : Graph) (r : RegionId) : List OpId := (g.regionOps r).filter g.isEffect

section Evaluates

variable {g : Graph} {ops ops' l l' : List OpId}

theorem Evaluates.nil : g.Evaluates [] [] := ⟨0, fun _ _ => rfl⟩

theorem Evaluates.append (h : g.Evaluates ops l) (h' : g.Evaluates ops' l') :
    g.Evaluates (ops ++ ops') (l ++ l') := by
  obtain ⟨m, hm⟩ := h
  obtain ⟨m', hm'⟩ := h'
  refine ⟨max m m', fun n hn => ?_⟩
  rw [List.flatMap_append, hm n (by omega), hm' n (by omega)]

/-- What evaluation meets is determined. -/
theorem Evaluates.unique (h : g.Evaluates ops l) (h' : g.Evaluates ops l') : l = l' := by
  obtain ⟨m, hm⟩ := h
  obtain ⟨m', hm'⟩ := h'
  rw [← hm (max m m') (by omega), hm' (max m m') (by omega)]

theorem Evaluates.op {id : OpId} {o : Operation} (ho : g.op? id = some o)
    (h : g.Evaluates (g.kept o) l) : g.Evaluates [id] (l ++ [id].filter g.isEffect) := by
  obtain ⟨m, hm⟩ := h
  refine ⟨m + 1, fun n hn => ?_⟩
  obtain ⟨n, rfl⟩ : ∃ k, n = k + 1 := ⟨n - 1, by omega⟩
  rw [List.flatMap_singleton, evaluatedAux, ho, Option.elim_some, hm n (by omega)]

theorem isEffect_eq {id : OpId} {o : Operation} (ho : g.op? id = some o) :
    g.isEffect id = o.kind?.any Kind.isEffect := by
  unfold isEffect kind?
  rw [ho]
  rfl

/-- Only operations with an effect are met. -/
theorem isEffect_of_mem_evaluatedAux {n : Nat} {id x : OpId} (h : x ∈ g.evaluatedAux n id) :
    g.isEffect x = true := by
  induction n generalizing id with
  | zero => cases h
  | succ n ih =>
      obtain h | h := List.mem_append.mp h
      · obtain ⟨y, _, hx⟩ := List.mem_flatMap.mp h
        exact ih hx
      · exact (List.mem_filter.mp h).2

theorem Evaluates.isEffect (h : g.Evaluates ops l) {x : OpId} (hx : x ∈ l) : g.isEffect x = true := by
  obtain ⟨m, hm⟩ := h
  rw [← hm m (Nat.le_refl m)] at hx
  obtain ⟨id, _, hx⟩ := List.mem_flatMap.mp hx
  exact isEffect_of_mem_evaluatedAux hx

end Evaluates

end Graph

/-! ### Where expressions come from -/

/-- `Origin g s o e`: the operation `o` took its expression `e` over from the one operation that it
keeps, or made it over the operands that stand for some of its values. -/
inductive Origin (g : Graph) (s : LiftState) (o : Operation) (e : ExprId) : Prop where
  | passed {d} (kept : g.kept o = [d]) (node : s.exprOf? d = some e) (passed : g.passed o ≠ [])
      (effect : o.kind?.any Kind.isEffect = false)
  | made (vs : List Value) (xs : List ExprId) (kept : g.kept o = g.valueOps vs)
      (operands : List.Forall₂ (Operand g s) vs xs)
      (parts : (s.program.expr e).kind.parts = xs ∨
        ∃ f d, (s.program.expr e).kind.parts = f :: xs ∧ (s.program.expr f).kind = .ref d)
      (passed : g.passed o = [] ∨ vs = [])
      (effect : o.kind?.any Kind.isEffect = (s.program.expr e).kind.isEffect)

section Origin

variable {g : Graph} {extra : List Task} {s : LiftState} {o : Operation} {e : ExprId}

theorem Operation.isEffect_of_binaryOp? {op : BinaryOp} (h : o.binaryOp? = some op) :
    o.kind?.any Kind.isEffect = op.isAssignment := by
  unfold Operation.binaryOp? at h
  split at h
  · next hk =>
      split at h
      · next p _ =>
          cases h
          rw [hk]
          cases p <;> rfl
      · cases h
  · next k _ hk =>
      rw [hk]
      cases k <;> cases h <;> rfl
  · cases h

theorem Operation.isEffect_of_unaryOp? {op : UnaryOp} (h : o.unaryOp? = some op) :
    o.kind?.any Kind.isEffect = op.isStep := by
  obtain ⟨k, hk, hop⟩ := Option.bind_eq_some_iff.mp h
  rw [hk]
  cases k <;> cases hop <;> rfl

theorem Operation.isEffect_of_castStyle? {style : CastStyle} (h : o.castStyle? = some style) :
    o.kind?.any Kind.isEffect = false := by
  unfold Operation.castStyle? at h
  split at h
  · next hk => rw [hk]; rfl
  · next hk => rw [hk]; rfl
  · cases h

theorem Inv.origin (h : Inv g extra s) (node : ExprNode g s o e) : Origin g s o e := by
  cases node with
  | @same v kind operand res =>
      have hform : ∃ k, o.kind? = some k ∧ k.form = .passed := by
        obtain kind | kind | kind := kind <;> exact ⟨_, kind, rfl⟩
      have hkept : g.kept o = g.valueOps [v] := by
        rw [Graph.kept_of_form hform, Graph.taken, List.take_add_one, operand]
        rfl
      have heffect : o.kind?.any Kind.isEffect = false := by
        obtain kind | kind | kind := kind <;> rw [kind] <;> rfl
      obtain ⟨d, k, rfl, he, hops⟩ | ⟨hnil, x, hx⟩ := h.valueOps_of_res res
      · refine .passed (hkept.trans hops) he ?_ heffect
        obtain ⟨k, hk, hform⟩ := hform
        simp [Graph.passed, hk, hform, operand, Value.definingOp?]
      · refine .made [] [] (hkept.trans hnil) .nil (.inl ?_) (.inr rfl) ?_
        · rw [hx]; rfl
        · rw [hx]; exact heffect
  | @wrapper r y kind region _ yields _ node =>
      refine .passed ?_ node ?_ (by rw [kind]; rfl)
      · rw [Graph.kept_of_form ⟨_, kind, rfl⟩]
        simp only [Kind.form, Graph.taken, region, Option.elim_some, Graph.yieldOps, yields]
      · simp [Graph.passed, kind, Kind.form, region, yields]
  | symbol kind _ _ node =>
      have hform : ∃ k, o.kind? = some k ∧ k.form = .symbol := by
        obtain ⟨kind, -⟩ | ⟨kind, -⟩ := kind <;> exact ⟨_, kind, rfl⟩
      refine .made [] [] (Graph.kept_of_form hform) .nil (.inl ?_) (.inr rfl) ?_
      · rw [node]; rfl
      · rw [node]
        obtain ⟨kind, -⟩ | ⟨kind, -⟩ := kind <;> rw [kind] <;> rfl
  | constant kind node =>
      refine .made [] [] (Graph.kept_of_form ⟨_, kind, rfl⟩) .nil (.inl node) (.inr rfl) ?_
      rw [ExprKind.isEffect_of_parts node, kind]
      rfl
  | @binary op v w l r operator lhs rhs node left right =>
      have hform := o.form_of_binaryOp? operator
      refine .made [v, w] [l, r] ?_ (.cons left (.cons right .nil)) (.inl ?_)
        (.inl (Graph.passed_eq_nil hform rfl)) ?_
      · rw [Graph.kept_of_form hform, Graph.taken, List.take_add_one, List.take_add_one, lhs, rhs]
        rfl
      · rw [node]; rfl
      · rw [node, o.isEffect_of_binaryOp? operator]
        rfl
  | @unary op v x operator arg node operand =>
      have hform := o.form_of_unaryOp? operator
      refine .made [v] [x] ?_ (.cons operand .nil) (.inl ?_)
        (.inl (Graph.passed_eq_nil hform rfl)) ?_
      · rw [Graph.kept_of_form hform, Graph.taken, List.take_add_one, arg]
        rfl
      · rw [node]; rfl
      · rw [node, o.isEffect_of_unaryOp? operator]
        rfl
  | @cast k c id v x style _ _ arg node operand =>
      have hform := o.form_of_castStyle? style
      refine .made [v] [x] ?_ (.cons operand .nil) (.inl ?_)
        (.inl (Graph.passed_eq_nil hform rfl)) ?_
      · rw [Graph.kept_of_form hform, Graph.taken, List.take_add_one, arg]
        rfl
      · rw [node]; rfl
      · rw [node, o.isEffect_of_castStyle? style]
        rfl
  | @call sym d f xs kind _ _ node own callee args =>
      refine .made o.operands xs (Graph.kept_of_form ⟨_, kind, rfl⟩) args
        (.inr ⟨f, d, ?_, callee⟩) (.inl (Graph.passed_eq_nil ⟨_, kind, rfl⟩ rfl)) ?_
      · rw [node]; rfl
      · rw [node, kind]; rfl
  | @initList id xs kind _ node elements =>
      refine .made o.operands xs (Graph.kept_of_form ⟨_, kind, rfl⟩) elements (.inl ?_)
        (.inl (Graph.passed_eq_nil ⟨_, kind, rfl⟩ rfl)) ?_
      · rw [node]; rfl
      · rw [node, kind]; rfl

/-- The operation behind an expression, and where the expression comes from. -/
theorem Inv.origin_of_exprOf? (h : Inv g extra s) {id : OpId} (he : s.exprOf? id = some e) :
    ∃ o, g.op? id = some o ∧ Origin g s o e := by
  obtain ⟨i, hi, _⟩ := exprOf?_eq_some.mp he
  obtain ⟨o, ho, _⟩ := h.shown id _ hi
  exact ⟨o, ho, h.origin (h.exprNode ho he)⟩

end Origin

/-! ### Operations and the effects in their nodes -/

/-- `Meets g s ops es`: evaluating the operations `ops` meets the operations that became `es`, in this
order. -/
def Meets (g : Graph) (s : LiftState) (ops : List OpId) (es : List ExprId) : Prop :=
  ∃ l, g.Evaluates ops l ∧ s.Exprs l es

section Meets

variable {g : Graph} {extra : List Task} {s : LiftState}

theorem Meets.nil : Meets g s [] [] := ⟨[], .nil, .nil⟩

theorem Meets.append {ops ops' : List OpId} {es es' : List ExprId} (h : Meets g s ops es)
    (h' : Meets g s ops' es') : Meets g s (ops ++ ops') (es ++ es') := by
  obtain ⟨l, hl, hes⟩ := h
  obtain ⟨l', hl', hes'⟩ := h'
  exact ⟨l ++ l', hl.append hl', List.rel_append hes hes'⟩

/-- An operation without an effect of its own. -/
theorem Meets.quiet {id : OpId} {o : Operation} {es : List ExprId} (ho : g.op? id = some o)
    (hq : o.kind?.any Kind.isEffect = false) (h : Meets g s (g.kept o) es) : Meets g s [id] es := by
  obtain ⟨l, hl, hes⟩ := h
  refine ⟨l, ?_, hes⟩
  have hop := hl.op ho
  rwa [List.filter_singleton, g.isEffect_eq ho, hq, cond_false, List.append_nil] at hop

/-- An operation with an effect. -/
theorem Meets.effect {id : OpId} {o : Operation} {e : ExprId} {es : List ExprId}
    (ho : g.op? id = some o) (hq : o.kind?.any Kind.isEffect = true) (he : s.exprOf? id = some e)
    (h : Meets g s (g.kept o) es) : Meets g s [id] (es ++ [e]) := by
  obtain ⟨l, hl, hes⟩ := h
  refine ⟨l ++ [id], ?_, List.rel_append hes (.cons he .nil)⟩
  have hop := hl.op ho
  rwa [List.filter_singleton, g.isEffect_eq ho, hq] at hop

/-- Nothing is met behind an expression without parts, however it was passed on. -/
theorem Inv.evaluatedAux_leaf (h : Inv g extra s) {e : ExprId}
    (hparts : (s.program.expr e).kind.parts = []) (n : Nat) {id : OpId}
    (he : s.exprOf? id = some e) : g.evaluatedAux n id = [] := by
  induction n generalizing id with
  | zero => rfl
  | succ n ih =>
      obtain ⟨o, ho, horigin⟩ := h.origin_of_exprOf? he
      rw [Graph.evaluatedAux, ho, List.filter_singleton, g.isEffect_eq ho]
      cases horigin with
      | passed kept node _ effect =>
          rw [Option.elim_some, kept, effect, List.flatMap_singleton, ih node]
          rfl
      | made vs xs kept operands parts _ effect =>
          obtain parts | ⟨f, d, parts, _⟩ := parts
          · rw [hparts] at parts
            subst parts
            cases operands
            rw [Option.elim_some, kept, effect, ExprKind.isEffect_of_parts hparts]
            rfl
          · rw [hparts] at parts
            cases parts

section Operands

variable {e : ExprId} (hord : s.program.Ordered)
  (ih : ∀ x < e, ∀ id, s.exprOf? id = some x → Meets g s [id] (s.program.exprEffects x))

include hord ih

theorem Inv.meets_res (h : Inv g extra s) {v : Value} {x : ExprId} (hres : Res g s v x) (hx : x < e) :
    Meets g s (g.valueOps [v]) (s.program.exprEffects x) := by
  obtain ⟨d, k, _, hd, hops⟩ | ⟨hnil, y, hy⟩ := h.valueOps_of_res hres
  · rw [hops]
    exact ih x hx d hd
  · rw [hnil, hord.exprEffects_of_parts (by rw [hy]; rfl)]
    exact .nil

theorem Inv.meets_operand (h : Inv g extra s) {v : Value} {x : ExprId} (ho : Operand g s v x)
    (hx : x < e) : Meets g s (g.valueOps [v]) (s.program.exprEffects x) := by
  obtain ⟨y, ⟨hres, _⟩, rfl | ⟨_, hparen⟩⟩ := ho
  · exact h.meets_res hord ih hres hx
  · have hy : y < x := hord x y (by rw [hparen]; exact List.mem_singleton_self y)
    rw [hord.exprEffects_paren hparen]
    exact h.meets_res hord ih hres (Nat.lt_trans hy hx)

theorem Inv.meets_operands (h : Inv g extra s) {vs : List Value} {xs : List ExprId}
    (ho : List.Forall₂ (Operand g s) vs xs) (hxs : ∀ x ∈ xs, x < e) :
    Meets g s (g.valueOps vs) (xs.flatMap s.program.exprEffects) := by
  induction ho with
  | nil => exact .nil
  | @cons v x vs xs hv _ ihs =>
      rw [Graph.valueOps_cons, List.flatMap_cons]
      have hrest := ihs fun y hy => hxs y (List.mem_cons_of_mem x hy)
      exact (h.meets_operand hord ih hv (hxs x List.mem_cons_self)).append hrest

/-- An operation that made its expression meets what is behind its operands. -/
theorem Inv.meets_own (h : Inv g extra s) {id : OpId} {o : Operation} (ho : g.op? id = some o)
    (he : s.exprOf? id = some e)
    (own : g.passed o = [] ∨ (s.program.expr e).kind.parts = []) :
    Meets g s [id] (s.program.exprEffects e) := by
  cases h.origin (h.exprNode ho he) with
  | passed _ _ passed _ =>
      have hparts := own.resolve_left passed
      rw [hord.exprEffects_of_parts hparts]
      refine ⟨[], ⟨0, fun n _ => ?_⟩, .nil⟩
      rw [List.flatMap_singleton, h.evaluatedAux_leaf hparts n he]
  | made vs xs kept operands parts _ effect =>
      have hlt : ∀ x ∈ xs, x < e := by
        intro x hx
        obtain parts | ⟨f, d, parts, _⟩ := parts
        · exact hord e x (parts ▸ hx)
        · exact hord e x (parts ▸ List.mem_cons_of_mem f hx)
      have hflat : (s.program.expr e).kind.parts.flatMap s.program.exprEffects =
          xs.flatMap s.program.exprEffects := by
        obtain parts | ⟨f, d, parts, hf⟩ := parts
        · rw [parts]
        · rw [parts, List.flatMap_cons, hord.exprEffects_of_parts (by rw [hf]; rfl), List.nil_append]
      have hkept : Meets g s (g.kept o) (xs.flatMap s.program.exprEffects) := by
        rw [kept]
        exact h.meets_operands hord ih operands hlt
      rw [hord.exprEffects_eq, hflat, ← effect]
      by_cases hq : o.kind?.any Kind.isEffect = true
      · rw [if_pos hq]
        exact .effect ho hq he hkept
      · rw [if_neg hq, List.append_nil]
        exact .quiet ho (Bool.eq_false_iff.mpr hq) hkept

theorem Inv.meets_rooted (h : Inv g extra s) {id : OpId} (root : Rooted g s id e) :
    Meets g s [id] (s.program.exprEffects e) := by
  induction root with
  | own op node _ own => exact h.meets_own hord ih op node own
  | @pass id o d e op node mem root ihr =>
      have hmem := h.kept_of_passed root.exprOf? mem
      cases h.origin (h.exprNode op node) with
      | @passed d' kept _ _ effect =>
          rw [kept] at hmem
          cases List.mem_singleton.mp hmem
          refine .quiet op effect ?_
          rw [kept]
          exact ihr ih
      | made _ _ kept _ _ passed _ =>
          obtain hnil | hnil := passed
          · rw [hnil] at mem
            cases mem
          · rw [kept, hnil] at hmem
            cases hmem

end Operands

/-- Evaluating an operation that became an expression meets the effects in the expression. -/
theorem Inv.meets_expr (hform : g.Formed) (h : Inv g extra s) (hord : s.program.Ordered) (e : Nat) :
    ∀ id, s.exprOf? id = some e → Meets g s [id] (s.program.exprEffects e) := by
  induction e using Nat.strong_induction_on with
  | _ e ih =>
      intro id he
      exact h.meets_rooted hord ih (h.rooted hform he)

/-! ### Sequences -/

theorem Program.kind_of_asExpr? {p : Program} {i : StmtId} {e : ExprId} (h : p.asExpr? i = some e) :
    (p.stmt i).kind = .expr e := by
  rw [asExpr?_eq] at h
  obtain ⟨x, hx, he⟩ := Option.bind_eq_some_iff.mp h
  rw [Program.stmt, hx]
  obtain ⟨_, k⟩ := x
  cases k with
  | expr => exact congrArg StmtKind.expr (Option.some.inj he)
  | _ => cases he

theorem Graph.filling?_of_flat {o : Operation} (hflat : o.regions = []) : g.filling? o = none := by
  unfold filling?
  rw [hflat]
  split
  · exact ite_self _
  · rfl
  · rfl

/-- An operation without regions that leaves no statement meets nothing. -/
theorem Silent.meets_flat {id : OpId} {o : Operation} (ho : g.op? id = some o)
    (hflat : o.regions = []) (silent : Silent g s o) : Meets g s [id] [] := by
  have hkept : g.kept o = [] ∧ o.kind?.any Kind.isEffect = false := by
    cases silent with
    | unit kind => exact ⟨by rw [Graph.kept, kind]; rfl, by rw [kind]; rfl⟩
    | decl kind =>
        obtain kind | kind | kind := kind
        · exact ⟨by rw [Graph.kept, kind]; rfl, by rw [kind]; rfl⟩
        · refine ⟨?_, by rw [kind]; rfl⟩
          rw [Graph.kept, kind]
          dsimp only
          rw [Graph.filling?_of_flat hflat]
          rfl
        · exact ⟨by rw [Graph.kept, kind]; rfl, by rw [kind]; rfl⟩
    | name kind =>
        obtain kind | kind | kind | kind := kind <;>
          exact ⟨by rw [Graph.kept, kind]; rfl, by rw [kind]; rfl⟩
  refine .quiet ho hkept.2 ?_
  rw [hkept.1]
  exact .nil

/-- An operation without regions that became a statement meets the effects in the statement. -/
theorem Settled.meets_stmt (hform : g.Formed) (h : Settled g s) (hp : s.program.Printable) {id : OpId}
    {o : Operation} (ho : g.op? id = some o) (hflat : o.regions = []) {i : StmtId}
    (node : StmtNode g s o i) : Meets g s [id] (s.program.effects i) := by
  rw [hp.effects_eq]
  cases node with
  | ifElse _ cond => simp [hflat] at cond
  | whileLoop _ cond => simp [hflat] at cond
  | doLoop _ body => simp [hflat] at body
  | forLoop _ cond => simp [hflat] at cond
  | scope _ _ region => simp [hflat] at region
  | @returns value kind _ node operand =>
      rw [node]
      refine .quiet ho (by rw [kind]; rfl) ?_
      rw [Graph.kept, kind]
      show Meets g s (g.valueOps (o.operands.take 1)) (value.toList.flatMap s.program.exprEffects)
      rw [List.take_one]
      generalize o.operands.head? = first at operand ⊢
      cases operand with
      | none => exact .nil
      | @some v e hu =>
          have hall : ∀ x < e + 1, ∀ id, s.exprOf? id = some x →
              Meets g s [id] (s.program.exprEffects x) := fun x _ =>
            h.meets_expr hform hp.ordered x
          simp only [Option.toList_some, List.flatMap_singleton]
          exact h.meets_res hp.ordered hall hu.1 (Nat.lt_succ_self e)
  | leaf kind =>
      obtain ⟨kind, node⟩ | ⟨kind, node⟩ | ⟨kind, node⟩ := kind <;>
        · rw [node]
          refine .quiet ho (by rw [kind]; rfl) ?_
          rw [Graph.kept, kind]
          exact .nil
  | @declares d kind noted node =>
      rw [hform.op_id id o ho] at noted
      -- Without a region, there is no initial value.
      have hinit : (s.program.decl d).kind.init? = none := by
        obtain kind | kind := kind
        · obtain ⟨type, init, storage, hdecl, hinit⟩ := h.var ho kind noted
          rw [Graph.filling?_of_flat hflat] at hinit
          cases hinit
          rw [hdecl]
          rfl
        · obtain ⟨_, k, hk, hdecl⟩ := h.decls id d noted
          obtain rfl : Kind.record = k := by simpa [Graph.kind?, ho, kind] using hk
          cases he : (s.program.decl d).kind.init? with
          | none => rfl
          | some e => exact absurd (DeclKind.isValue_of_init? he) hdecl
      rw [node]
      simp only [effectsLevel, List.filterMap_cons, hinit, List.filterMap_nil, List.flatMap_nil]
      refine Silent.meets_flat ho hflat (.decl ?_ (hform.op_id id o ho ▸ noted))
      exact .inr kind

/-- What operations without regions leave in a sequence has the effects that evaluating those that
leave something meets. -/
theorem Settled.meets_sequence (hform : g.Formed) (h : Settled g s) (hp : s.program.Printable)
    {ops : List OpId} (hlifted : ∀ id ∈ ops, ∃ l, s.opStmt.get? id = some l)
    (hflat : ∀ id ∈ ops, ∀ o, g.op? id = some o → o.regions = []) :
    Meets g s (ops.filter fun op => !g.elides op)
      ((ops.filterMap fun op => if g.elides op then none else s.stmtOf? op).flatMap
        s.program.effects) := by
  induction ops with
  | nil => exact .nil
  | cons id ops ih =>
      have hrest := ih (fun x hx => hlifted x (List.mem_cons_of_mem id hx))
        fun x hx => hflat x (List.mem_cons_of_mem id hx)
      obtain ⟨l, hl⟩ := hlifted id List.mem_cons_self
      obtain ⟨o, ho, hshown⟩ := h.shown id l hl
      have hregions := hflat id List.mem_cons_self o ho
      by_cases hel : g.elides id = true
      · simpa [List.filter_cons, List.filterMap_cons, hel] using hrest
      · have hstmt : s.stmtOf? id = l := by rw [stmtOf?, hl]; rfl
        simp only [List.filter_cons, List.filterMap_cons, hel, hstmt]
        cases hshown with
        | @expr i e twin _ _ _ =>
            have heffects : s.program.effects i = s.program.exprEffects e := by
              rw [hp.effects_eq, Program.kind_of_asExpr? twin]
              rfl
            have he : s.exprOf? id = some e := exprOf?_eq_some.mpr ⟨i, hl, twin⟩
            have hid := h.meets_expr hform hp.ordered e id he
            rw [← heffects] at hid
            exact hid.append hrest
        | stmt _ node => exact (h.meets_stmt hform hp ho hregions node).append hrest
        | silent silent => exact (silent.meets_flat ho hregions).append hrest

end Meets

/-! ### Bodies -/

section Bodies

variable {g : Graph} {s : LiftState}

/-- Operations with an effect became different expressions. -/
theorem Sound.exprOf?_inj (h : Sound g s) {x x' : OpId} {e : ExprId} (hx : g.isEffect x = true)
    (hx' : g.isEffect x' = true) (he : s.exprOf? x = some e) (he' : s.exprOf? x' = some e) :
    x = x' := by
  obtain ⟨i, hi, htwin⟩ := exprOf?_eq_some.mp he
  obtain ⟨i', hi', htwin'⟩ := exprOf?_eq_some.mp he'
  obtain ⟨_, rfl⟩ := (h.printable.twinned i e).mp htwin
  obtain ⟨_, rfl⟩ := (h.printable.twinned i' e).mp htwin'
  exact h.distinct x x' _ hx hx' hi hi'

theorem Sound.exprs_unique (h : Sound g s) {l l' : List OpId} {es : List ExprId} (hl : s.Exprs l es)
    (hl' : s.Exprs l' es) (he : ∀ x ∈ l, g.isEffect x = true) (he' : ∀ x ∈ l', g.isEffect x = true) :
    l = l' := by
  induction hl generalizing l' with
  | nil =>
      cases hl'
      rfl
  | @cons x e l es hx _ ih =>
      cases hl' with
      | @cons x' _ l' _ hx' hrest =>
          have hsame := h.exprOf?_inj (he x List.mem_cons_self) (he' x' List.mem_cons_self) hx hx'
          have hrest := ih hrest (fun y hy => he y (List.mem_cons_of_mem x hy))
            fun y hy => he' y (List.mem_cons_of_mem x' hy)
          rw [hsame, hrest]

theorem LiftState.Exprs.exists_of_mem {l : List OpId} {es : List ExprId} (h : s.Exprs l es)
    {e : ExprId} (he : e ∈ es) : ∃ x ∈ l, s.exprOf? x = some e := by
  induction h with
  | nil => cases he
  | @cons x y l es hx _ ih =>
      obtain rfl | he := List.mem_cons.mp he
      · exact ⟨x, List.mem_cons_self, hx⟩
      · obtain ⟨z, hz, hze⟩ := ih he
        exact ⟨z, List.mem_cons_of_mem x hz, hze⟩

theorem Sound.exprs_nodup (h : Sound g s) {l : List OpId} {es : List ExprId} (hl : s.Exprs l es)
    (he : ∀ x ∈ l, g.isEffect x = true) (hnodup : l.Nodup) : es.Nodup := by
  induction hl with
  | nil => exact .nil
  | @cons x e l es hx hrest ih =>
      obtain ⟨hnew, hnodup⟩ := List.nodup_cons.mp hnodup
      have he' : ∀ y ∈ l, g.isEffect y = true := fun y hy => he y (List.mem_cons_of_mem x hy)
      refine List.nodup_cons.mpr ⟨fun hmem => ?_, ih he' hnodup⟩
      obtain ⟨y, hy, hye⟩ := LiftState.Exprs.exists_of_mem hrest hmem
      rw [h.exprOf?_inj (he x List.mem_cons_self) (he' y hy) hx hye] at hnew
      exact hnew hy

end Bodies

/-- In a lift that succeeds, the effects in the body of a function whose operations have no regions
are those that evaluating the operations that leave a statement meets, in this order. They are
those of the body's own operations, each once and in their order, if and only if evaluation meets these
so. -/
theorem Graph.lift_evaluates {g : Graph} (hg : g.Built) (naming : Naming) (c : LiftConfig)
    {s : LiftState} (h : g.lift naming c = (.ok (), s)) {f : OpId} {o : Operation} {d : DeclId}
    {r : RegionId} (ho : g.op? f = some o) (hk : o.kind? = some .function)
    (hd : s.opDecl.get? f = some d) (hr : g.filling? o = some r)
    (hflat : ∀ id ∈ g.regionOps r, ∀ q, g.op? id = some q → q.regions = []) :
    ∃ type params body locals l,
      (s.program.decl d).kind = .function type params (some body) locals ∧
      (∀ l', g.Evaluates (g.sequenceOps r) l' ↔ l' = l) ∧ s.Exprs l (s.program.effects body) ∧
      (s.Exprs (g.effectOps r) (s.program.effects body) ∧ (s.program.effects body).Nodup ↔
        l = g.effectOps r) := by
  have hs := lift_settled hg h
  have hsound := lift_sound h
  obtain ⟨type, params, body, locals, hkind, hbody⟩ := hs.function ho hk hd
  rw [hr] at hbody
  cases hbody with
  | @some _ b hb =>
      obtain ⟨⟨hlifted, _, hcompound⟩, _⟩ := hb
      have heffects : s.program.effects b = (s.listed g r).flatMap s.program.effects := by
        rw [hsound.printable.effects_eq, hcompound]
        rfl
      obtain ⟨l, hl, hes⟩ := hs.meets_sequence hg.formed hsound.printable hlifted hflat
      have hes : s.Exprs l (s.program.effects b) := heffects ▸ hes
      have hown : ∀ x ∈ g.effectOps r, g.isEffect x = true := fun x hx => (List.mem_filter.mp hx).2
      refine ⟨type, params, b, locals, l, hkind, fun l' => ⟨fun hl' => hl'.unique hl, ?_⟩, hes,
        fun ⟨hops, _⟩ => ?_, ?_⟩
      · rintro rfl
        exact hl
      · exact hsound.exprs_unique hes hops (fun x hx => hl.isEffect hx) hown
      · rintro rfl
        exact ⟨hes, hsound.exprs_nodup hes hown ((hg.regionOps_nodup r).filter _)⟩

/-- A function from integers to integers with the given operations in its body, after the declaration of
another one. -/
def caller (body : List OpSpec) : Graph :=
  .build .empty
    ([.internType (.integer .int none), .internType (.function [0] [0]),
      .createOperation 0 ((OpSpec.ofKind .function).withAttr AttrName.symName (.text "effect")
        |>.withAttr AttrName.functionType (.type 1)),
      .createOperation 0 ((OpSpec.ofKind .function).withAttr AttrName.symName (.text "caller")
        |>.withAttr AttrName.functionType (.type 1)),
      .createRegion 1, .createBlock 1 [0]] ++ body.map (.createOperation 1))

/-- A call of the declared function with the argument of the body. -/
def callEffect : OpSpec :=
  (OpSpec.ofKind .call).withOperands [.argument 1 0] |>.withResults [0]
    |>.withAttr AttrName.callee (.text "effect")

/-- A call whose value nothing uses, and one whose value is returned. -/
def tallied : Graph :=
  caller [callEffect, callEffect, (OpSpec.ofKind .returnStmt).withOperands [.result 3 0]]

/-- The calls stay as they are. -/
theorem Graph.lift_evaluates_tallied :
    ∃ s type params body locals, tallied.lift .standard (.forTarget .host) = (.ok (), s) ∧
      (s.program.decl 2).kind = .function type params (some body) locals ∧
      tallied.effectOps 1 = [2, 3] ∧ s.Exprs [2, 3] (s.program.effects body) ∧
      tallied.Evaluates (tallied.sequenceOps 1) [2, 3] := by
  have hlift : (tallied.lift .standard (.forTarget .host)).1 = .ok () := by decide +kernel
  have hs := Graph.lift_eq_of_fst hlift
  obtain ⟨o, ho⟩ : ∃ o, tallied.op? 1 = some o := Option.isSome_iff_exists.mp (by decide +kernel)
  have hk : o.kind? = some .function := by
    rw [← Option.bind_some o Operation.kind?, ← ho]
    decide +kernel
  have hr : tallied.filling? o = some 1 := by
    rw [← Option.bind_some o tallied.filling?, ← ho]
    decide +kernel
  have hd : (tallied.lift .standard (.forTarget .host)).2.opDecl.get? 1 = some 2 := by decide +kernel
  have hflat : ∀ id ∈ tallied.regionOps 1, ∀ q, tallied.op? id = some q → q.regions = [] := by
    decide +kernel
  have hbuilt : tallied.Built := built_build _ _
  obtain ⟨type, params, body, locals, l, hkind, hl, hes, hiff⟩ :=
    Graph.lift_evaluates hbuilt .standard (.forTarget .host) hs ho hk hd hr hflat
  have hbody : body = 7 := by
    have hslot : ((tallied.lift .standard (.forTarget .host)).2.program.decl 2).kind.slot = some 7 := by
      decide +kernel
    rw [hkind] at hslot
    exact Option.some.inj hslot
  have heffects : (tallied.lift .standard (.forTarget .host)).2.program.effects body = [2, 5] := by
    rw [hbody]
    decide +kernel
  have hops : tallied.effectOps 1 = [2, 3] := by decide +kernel
  have hexprs : (tallied.lift .standard (.forTarget .host)).2.Exprs [2, 3] [2, 5] :=
    .cons (by decide +kernel) (.cons (by decide +kernel) .nil)
  rw [heffects, hops] at hiff
  cases hiff.mp ⟨hexprs, by decide⟩
  exact ⟨_, type, params, body, locals, hs, hkind, hops, hes, (hl _).mpr rfl⟩

/-- A call, another one whose value nothing uses, and the sum of the value of the first with itself. -/
def doubled : Graph :=
  caller [callEffect, callEffect,
    (OpSpec.ofKind .add).withOperands [.result 2 0, .result 2 0] |>.withResults [0],
    (OpSpec.ofKind .returnStmt).withOperands [.result 4 0]]

/-- The first call is made twice, and after the second one. -/
theorem Graph.lift_repeats_effect :
    ∃ s type params body locals, doubled.Built ∧
      doubled.lift .standard (.forTarget .host) = (.ok (), s) ∧
      doubled.kind? 1 = some .function ∧ (doubled.op? 1).bind doubled.filling? = some 1 ∧
      (∀ id ∈ doubled.regionOps 1, ∀ q, doubled.op? id = some q → q.regions = []) ∧
      s.opDecl.get? 1 = some 2 ∧
      (s.program.decl 2).kind = .function type params (some body) locals ∧
      doubled.effectOps 1 = [2, 3] ∧ s.Exprs [3, 2, 2] (s.program.effects body) ∧
      ¬ s.Exprs (doubled.effectOps 1) (s.program.effects body) := by
  have hlift : (doubled.lift .standard (.forTarget .host)).1 = .ok () := by decide +kernel
  have hs := Graph.lift_eq_of_fst hlift
  obtain ⟨o, ho⟩ : ∃ o, doubled.op? 1 = some o := Option.isSome_iff_exists.mp (by decide +kernel)
  have hk : o.kind? = some .function := by
    rw [← Option.bind_some o Operation.kind?, ← ho]
    decide +kernel
  have hd : (doubled.lift .standard (.forTarget .host)).2.opDecl.get? 1 = some 2 := by decide +kernel
  obtain ⟨type, params, body, locals, hkind, _⟩ :=
    (Graph.lift_settled (built_build _ _) hs).function ho hk hd
  have hbody : body = some 8 := by
    have hslot : ((doubled.lift .standard (.forTarget .host)).2.program.decl 2).kind.slot = some 8 := by
      decide +kernel
    rw [hkind] at hslot
    exact hslot
  subst hbody
  have heffects : (doubled.lift .standard (.forTarget .host)).2.program.effects 8 = [5, 2, 2] := by
    decide +kernel
  have hops : doubled.effectOps 1 = [2, 3] := by decide +kernel
  refine ⟨_, type, params, 8, locals, built_build _ _, hs, by decide +kernel, by decide +kernel,
    by decide +kernel, hd, hkind, hops, ?_, ?_⟩
  · rw [heffects]
    exact .cons (by decide +kernel) (.cons (by decide +kernel) (.cons (by decide +kernel) .nil))
  · rw [heffects, hops]
    intro hexprs
    cases hexprs.length_eq

end Readback
