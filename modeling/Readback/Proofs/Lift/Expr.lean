import Readback.Proofs.Lift.Invariant

/-! # Lifting expressions

What the rules for types, values and expressions do to the state of a lift. An operation with a rule
of its own becomes a new expression over its operands; a reference or a yield becomes the expression
of the value that it passes on.

* `Building` says that a step only builds: it adds to the program and to the table of types, and leaves
  everything that is known of operations alone. Steps of construction build (`typed_gives`), and so does
  lifting a type (`type_gives`).
* The parts of an operation are what the graph has there (`operand_gives`, `resultType_gives`,
  `region_gives`), if the step that reads them succeeds.
* `value_gives` says which expression stands for a value: the node of the operation behind it, or a new
  reference to a declaration. `symbolRef_gives` does the same for symbols, along with the entry of the
  table that the declaration was found under.
* Recording an expression keeps the invariant of the lift. There are two cases: a new expression
  (`Inv.record_expr`), and one that another operation became (`Inv.record_shared`). In both, what is an
  operand of the expression has to be so after the recording (`Inv.operand_recorded`), and what the
  operation cites has to be what the table of symbols gives.

With these, each rule is a short proof of `RecordsExpr`: whenever it succeeds on a state that satisfies
the invariant, the expression that it gives can be recorded. The rules for the kinds of operations
(`binary_records`, `unary_records`, `cast_records`, `call_records` and so on) are joined in
`simpleExpr_records`. -/

namespace Readback

open Step LiftState

namespace Lift

/-! ### Building steps -/

/-- Whenever the step succeeds, it has only built. -/
def Building {α : Type} (m : Lift α) : Prop := ∀ s, Gives m s fun _ t => s.Builds t

section Building

variable {α β : Type}

theorem Building.bind {m : Lift α} {f : α → Lift β} (hm : Building m) (hf : ∀ a, Building (f a)) :
    Building (m >>= f) := fun s =>
  (hm s).bind fun a t ht => (hf a t).imp fun _ _ hu => ht.trans hu

theorem Building.pure (a : α) : Building (pure a) := fun s => .pure (.refl s)

theorem Building.throw (e : LiftError) : Building (throw e : Lift α) := fun _ => .throw e trivial

theorem program_building : Building program := fun s => .get_bind (.pure (.refl s))

theorem modify_building {f : LiftState → LiftState} (h : ∀ s : LiftState, s.Builds (f s)) :
    Building (modify f : Lift Unit) := h

/-- A construction step changes the program only. -/
theorem typed_gives_program {m : Check α} {s : LiftState} {Q : α → Program → Prop}
    (h : Gives m s.program Q) :
    Gives (typed m) s fun a t => ∃ q, Q a q ∧ t = { s with program := q } := by
  unfold Gives Ensures typed at *
  cases hm : m s.program with
  | ok a q =>
      rw [hm] at h
      exact ⟨q, h, rfl⟩
  | error e q => trivial

/-- A construction step that extends the program builds. -/
theorem typed_gives {m : Check α} {s : LiftState} {Q : α → Program → Prop}
    (h : Gives m s.program fun a q => s.program.Extends q ∧ Q a q) :
    Gives (typed m) s fun a t => s.Builds t ∧ Q a t.program := by
  refine (typed_gives_program h).imp ?_
  rintro a _ ⟨q, ⟨hext, hq⟩, rfl⟩
  exact ⟨⟨⟨hext, rfl, rfl, rfl, rfl, fun _ _ h => h⟩, rfl⟩, hq⟩

theorem Building.typesOnly {m : Check α} (hm : Moves Program.TypesOnly m) :
    Building (typed m) := by
  intro s
  have h : Gives m s.program fun _ q => s.program.Extends q ∧ True :=
    hm.ensures (fun _ _ ht => ⟨ht.extends, trivial⟩) fun _ _ => trivial
  exact (typed_gives h).imp fun _ _ h => h.1

theorem Building.mapM {f : α → Lift β} (hf : ∀ a, Building (f a)) (l : List α) :
    Building (l.mapM f) := by
  induction l with
  | nil => exact .pure _
  | cons a l ih =>
      rw [List.mapM_cons]
      exact (hf a).bind fun _ => ih.bind fun _ => .pure _

end Building

theorem chooseName_building (env : LiftEnv) (role : NameRole) (o : Operation) (index : Nat) :
    Building (chooseName env role o index) :=
  .bind (modify_building fun _ => ⟨⟨.refl _, rfl, rfl, rfl, rfl, fun _ _ h => h⟩, rfl⟩) fun _ => .pure _

/-! ### Types -/

theorem qualified_building (kind : Builtin) (quals : Quals) : Building (qualified kind quals) :=
  .bind (.typesOnly (Check.internNode_moves _)) fun _ => .pure _

theorem shape_building (env : LiftEnv) {lift : TypeId → Lift QualType}
    (hl : ∀ id, Building (lift id)) (id : TypeId) (s : Shape) :
    Building (shape env lift id s) := by
  cases s with
  | plain kind quals => exact qualified_building _ _
  | integer kind quals => exact .bind program_building fun _ => qualified_building _ _
  | pointer element quals =>
      exact .bind (hl element) fun _ =>
        .bind (.typesOnly (Check.internNode_moves _)) fun _ => .pure _
  | array element size quals =>
      exact .bind (hl element) fun _ =>
        .bind (.typesOnly (Check.internNode_moves _)) fun _ => .pure _
  | lvalue element => exact hl element
  | function inputs results =>
      have hrest : ∀ result, Building (do
          let params ← inputs.mapM lift
          typed (Check.functionType result params false)) := fun _ =>
        .bind (.mapM hl _) fun _ => .typesOnly (Check.internNode_moves _)
      unfold shape
      dsimp only
      split
      · exact .bind (.typesOnly (Check.internNode_moves _)) hrest
      · exact .bind (hl _) hrest
      · exact .bind (.throw _) hrest
  | named kind name => exact .throw _

/-- A lifted type is remembered. -/
theorem typeAux_gives (env : LiftEnv) (bound : Nat) (id : TypeId) (s : LiftState) :
    Gives (typeAux env bound id) s fun type t =>
      s.Builds t ∧ t.typeOf.get? id = some type := by
  induction bound generalizing id s with
  | zero =>
      unfold typeAux
      refine .get_bind ?_
      split
      · next type h => exact .pure ⟨.refl s, h⟩
      · split
        · exact .throw _ trivial
        · exact .throw _ trivial
        · next h => cases h
  | succ bound ih =>
      have hshape : ∀ sh, Building (shape env (typeAux env bound) id sh) :=
        shape_building env (fun id s => (ih id s).imp fun _ _ h => h.1) id
      unfold typeAux
      refine .get_bind ?_
      split
      · next type h => exact .pure ⟨.refl s, h⟩
      · next hnone =>
          split
          · exact .throw _ trivial
          · exact .throw _ trivial
          · next sh _ _ hbound =>
              cases hbound
              refine (hshape sh s).bind fun type t ht => ?_
              refine ⟨⟨⟨ht.program, ht.opStmt, ht.opDecl, ht.argDecl, ht.symbols, ?_⟩, ht.queue⟩, ?_⟩
              · intro id' type' h
                show (t.typeOf.insert id type).get? id' = _
                rw [Dict.get?_insert]
                split
                · next heq =>
                    rw [← heq, hnone] at h
                    cases h
                · exact ht.typeOf id' type' h
              · show (t.typeOf.insert id type).get? id = _
                rw [Dict.get?_insert, if_pos rfl]

theorem type_gives (env : LiftEnv) (id : TypeId) (s : LiftState) :
    Gives (type env id) s fun type t => s.Builds t ∧ t.typeOf.get? id = some type :=
  typeAux_gives env _ id s

/-! ### Parts of an operation -/

section Part

variable {s : LiftState}

theorem operation_gives (env : LiftEnv) (id : OpId) : Gives (operation env id) s fun o t =>
    env.graph.op? id = some o ∧ t = s := by
  unfold operation
  split
  · next h => exact .pure ⟨h, rfl⟩
  · exact .throw _ trivial

theorem operand_gives (env : LiftEnv) (o : Operation) (index : Nat) :
    Gives (operand env o index) s fun v t => o.operands[index]? = some v ∧ t = s := by
  unfold operand
  split
  · next h => exact .pure ⟨h, rfl⟩
  · exact .throw _ trivial

theorem resultType_gives (env : LiftEnv) (o : Operation) : Gives (resultType env o) s fun id t =>
    o.resultTypes.head? = some id ∧ t = s := by
  unfold resultType
  split
  · next h => exact .pure ⟨h, rfl⟩
  · exact .throw _ trivial

theorem region_gives (env : LiftEnv) (o : Operation) (index : Nat) (what : String) :
    Gives (region env o index what) s fun r t => o.regions[index]? = some r ∧ t = s := by
  unfold region
  split
  · next h => exact .pure ⟨h, rfl⟩
  · exact .throw _ trivial

end Part

/-! ### Values -/

section Value

variable {g : Graph} {extra : List Task} {s : LiftState}

/-- A reference to a declaration is new. -/
theorem declRef_gives (d : DeclId) : Gives (typed (Check.declRef d)) s fun e t =>
    s.Builds t ∧ s.program.IsNew t.program e ∧ (t.program.expr e).kind = .ref d ∧
      (s.program.decl d).kind.IsValue :=
  typed_gives (Check.declRef_gives d)

/-- The expression for a value stands for it. It is a new reference unless it is the node of the
operation behind the value. -/
theorem value_gives (h : Inv g extra s) (v : Value) : Gives (value v) s fun e t =>
    s.Builds t ∧ Use g t v e ∧
      ((t = s ∧ ∃ d, v.definingOp? = some d ∧ s.exprOf? d = some e) ∨
        s.program.IsNew t.program e ∧ (t.program.expr e).kind.parts = []) := by
  unfold value
  refine .get_bind ?_
  split
  · next d hd =>
      obtain ⟨o, ho, hd⟩ := Option.bind_eq_some_iff.mp hd
      refine (declRef_gives d).imp ?_
      rintro e t ⟨hb, he, href, hval⟩
      refine ⟨hb, ⟨?_, .inr (h.new_auxiliary hb he)⟩, .inr ⟨he, by rw [href]; rfl⟩⟩
      cases v with
      | argument b k => cases ho
      | result o' k =>
          cases ho
          obtain ⟨-, kind, hkind, hdecl⟩ := h.decls o d hd
          refine .decl ?_ (hb.opDecl ▸ hd) he.2 href
          cases kind with
          | function => exact .inr hkind
          | var => exact .inl hkind
          | record => exact absurd hval hdecl
          | field => exact absurd hval hdecl
          | _ => exact hdecl.elim
  · next e _ he =>
      obtain ⟨o, ho, he⟩ := Option.bind_eq_some_iff.mp he
      cases v with
      | argument b k => cases ho
      | result o' k =>
          cases ho
          exact .pure ⟨.refl s, ⟨.node he, .inl ⟨o, k, rfl, he⟩⟩, .inl ⟨rfl, o, rfl, he⟩⟩
  · next d _ _ hd =>
      refine (declRef_gives d).imp ?_
      rintro e t ⟨hb, he, href, hval⟩
      refine ⟨hb, ⟨?_, .inr (h.new_auxiliary hb he)⟩, .inr ⟨he, by rw [href]; rfl⟩⟩
      exact .param ((h.args v d hd).mono (hb.grows g 0)) he.2 href
  · exact .throw _ trivial

theorem operandValue_gives {env : LiftEnv} (h : Inv g extra s) (o : Operation) (index : Nat) :
    Gives (operandValue env o index) s fun e t => ∃ v, o.operands[index]? = some v ∧
      s.Builds t ∧ Use g t v e ∧
        ((t = s ∧ ∃ d, v.definingOp? = some d ∧ s.exprOf? d = some e) ∨
          s.program.IsNew t.program e ∧ (t.program.expr e).kind.parts = []) := by
  refine (operand_gives env o index).bind ?_
  rintro v t ⟨hv, rfl⟩
  exact (value_gives h v).imp fun e t he => ⟨v, hv, he⟩

theorem values_gives (hform : g.Formed) (h : Inv g extra s) (vs : List Value) :
    Gives (vs.mapM value) s fun es t => s.Builds t ∧ List.Forall₂ (Use g t) vs es := by
  induction vs generalizing s with
  | nil => exact .pure ⟨.refl s, .nil⟩
  | cons v vs ih =>
      rw [List.mapM_cons]
      refine (value_gives h v).bind ?_
      rintro e t ⟨hb, he, _⟩
      refine (ih (h.builds hform hb)).bind fun es u ⟨hb', hes⟩ => .pure ⟨hb.trans hb', ?_⟩
      exact .cons (he.mono (hb'.grows g 0)) hes

theorem symbol_gives (env : LiftEnv) (h : Inv g extra s) (o : Operation) (name : String) :
    Gives (symbol env o name) s fun d t =>
      t = s ∧ ∃ sym, o.textAttr? name = some sym ∧ s.symbols.get? sym = some d ∧ s.Named g sym d := by
  unfold symbol
  split
  · exact .throw _ trivial
  · next sym hsym =>
      refine .get_bind ?_
      split
      · next d hd => exact .pure ⟨rfl, sym, hsym, hd, h.symbols sym d hd⟩
      · exact .throw _ trivial

theorem symbolRef_gives (env : LiftEnv) (h : Inv g extra s) (o : Operation) (name : String) :
    Gives (symbolRef env o name) s fun e t => ∃ sym d, o.textAttr? name = some sym ∧
      s.symbols.get? sym = some d ∧ t.Named g sym d ∧ s.Builds t ∧ s.program.IsNew t.program e ∧
        (t.program.expr e).kind = .ref d := by
  refine (symbol_gives env h o name).bind ?_
  rintro d t ⟨rfl, sym, hsym, hd, hnamed⟩
  exact (declRef_gives d).imp fun e t ⟨hb, he, href, _⟩ =>
    ⟨sym, d, hsym, hd, hnamed.mono (hb.grows g 0), hb, he, href⟩

end Value

end Lift

/-! ### Recording expressions -/

section Record

variable {g : Graph} {extra : List Task} {s t : LiftState} {id : OpId} {op : Operation}

theorem exprOf?_recorded {i : StmtId} {e : ExprId} (h : s.program.asExpr? i = some e) :
    (s.recorded id (some i)).exprOf? id = some e := by
  refine exprOf?_eq_some.mpr ⟨i, ?_, h⟩
  show (s.opStmt.insert id (some i)).get? id = _
  rw [Dict.get?_insert, if_pos rfl]

theorem cites_of_none {e : ExprId} (h : op.cited? = none) :
    ∀ name x, op.cited? = some name → s.symbols.get? name = some x → t.Cites e x := by
  intro name x hname
  rw [h] at hname
  cases hname

/-- Recording a new expression. -/
theorem Inv.record_expr (hform : g.Formed) (h : Inv g extra s) (hb : s.Builds t)
    (hop : g.op? id = some op) (hid : s.opStmt.get? id = none) {e : Nat}
    (he : s.program.IsNew t.program e)
    (hcites : ∀ name x, op.cited? = some name → s.symbols.get? name = some x → t.Cites e x)
    (hown : g.passed op = [] ∨ (t.program.expr e).kind.parts = [])
    (hnode : Grows g id s (t.recorded id (some (t.program.expr e).stmt)) →
      ExprNode g (t.recorded id (some (t.program.expr e).stmt)) op e) :
    Recorded g extra s id (some (t.program.expr e).stmt) t := by
  have hr : ∀ i, some (t.program.expr e).stmt = some i → s.program.stmts.size ≤ i ∨
      ∃ o, s.opStmt.get? o = some (some i) := by
    rintro i ⟨⟩
    exact .inl (newStmt_of_new h.twinned hb.program he).1
  have htwin := (hb.program.twinned h.twinned _ e).mpr ⟨he.2, rfl⟩
  have hcurrent : Current s op id (t.recorded id (some (t.program.expr e).stmt)) :=
    fun name x hname hx => ⟨e, x, exprOf?_recorded htwin, hcites name x hname hx, .inl rfl⟩
  obtain rfl := hform.op_id id op hop
  refine h.record hform hb hop hid hr hcurrent
    (.expr htwin he.2 (hnode (grows_recorded hb hop hid hr hcurrent)) (.own hop ?_ he.2 hown))
  exact exprOf?_recorded htwin

/-- Recording an expression that another operation became. -/
theorem Inv.record_shared (hform : g.Formed) (h : Inv g extra s) (hop : g.op? id = some op)
    (hid : s.opStmt.get? id = none) (hcited : op.cited? = none) {e : Nat} {d : OpId}
    (hd : d ∈ g.passed op)
    (he : s.exprOf? d = some e)
    (hnode : Grows g id s (s.recorded id (some (s.program.expr e).stmt)) →
      ExprNode g (s.recorded id (some (s.program.expr e).stmt)) op e) :
    Recorded g extra s id (some (s.program.expr e).stmt) s := by
  obtain ⟨i, hi, htwin⟩ := exprOf?_eq_some.mp he
  obtain ⟨hlt, rfl⟩ := (h.twinned i e).mp htwin
  have hr : ∀ j, some (s.program.expr e).stmt = some j → s.program.stmts.size ≤ j ∨
      ∃ o, s.opStmt.get? o = some (some j) := by
    rintro j ⟨⟩
    exact .inr ⟨d, hi⟩
  have hcurrent : Current s op id (s.recorded id (some (s.program.expr e).stmt)) :=
    current_of_none hcited
  have hg : Grows g id s (s.recorded id (some (s.program.expr e).stmt)) :=
    grows_recorded (.refl s) hop hid hr hcurrent
  obtain rfl := hform.op_id id op hop
  refine h.record hform (.refl s) hop hid hr hcurrent
    (.expr htwin hlt (hnode hg) (.pass hop (exprOf?_recorded htwin) hd ?_))
  exact (h.rooted hform he).mono hg

/-- A new expression other than the recorded one is no operation's. -/
theorem Inv.auxiliary_recorded (h : Inv g extra s) (hb : s.Builds t) {x e : Nat}
    (hx : s.program.IsNew t.program x) (he : e < t.program.exprs.size) (hne : x ≠ e) :
    (t.recorded id (some (t.program.expr e).stmt)).AuxiliaryExpr x := by
  have ht := hb.program.twinned h.twinned
  have hnew := newStmt_of_new h.twinned hb.program hx
  refine ⟨hx.2, hnew.2, fun o ho => ?_⟩
  have ho : (t.opStmt.insert id (some (t.program.expr e).stmt)).get? o =
      some (some (t.program.expr x).stmt) := ho
  rw [Dict.get?_insert, hb.opStmt] at ho
  split at ho
  · -- Both expressions would stand for one statement.
    injection ho with ho
    injection ho with ho
    have h₁ := (ht (t.program.expr x).stmt e).mpr ⟨he, ho⟩
    have h₂ := (ht (t.program.expr x).stmt x).mpr ⟨hx.2, rfl⟩
    exact hne (Option.some.inj (h₂.symm.trans h₁))
  · exact absurd (h.stmt_lt ho) (Nat.not_lt.mpr hnew.1)

/-- What a new expression `e` has for an operand, when it is recorded. -/
theorem Inv.operand_recorded (h : Inv g extra s) (hb : s.Builds t) {e : Nat}
    (he : s.program.IsNew t.program e)
    (hg : Grows g id s (t.recorded id (some (t.program.expr e).stmt)))
    (hkind : ∀ y, (t.program.expr e).kind ≠ .paren y) {v : Value} {a x : Nat} (ha : Use g s v a)
    (hx : s.program.Wraps t.program a x) :
    Operand g (t.recorded id (some (t.program.expr e).stmt)) v x := by
  refine ⟨a, ha.mono hg, ?_⟩
  obtain rfl | ⟨hnew, hparen⟩ := hx
  · exact .inl rfl
  · refine .inr ⟨h.auxiliary_recorded hb hnew he.2 ?_, hparen⟩
    rintro rfl
    exact hkind a hparen

/-- What a new expression `e` has for a list of operands, when it is recorded. -/
theorem Inv.operands_recorded (h : Inv g extra s) (hb : s.Builds t) {e : Nat}
    (he : s.program.IsNew t.program e)
    (hg : Grows g id s (t.recorded id (some (t.program.expr e).stmt)))
    (hkind : ∀ y, (t.program.expr e).kind ≠ .paren y) {vs : List Value} {es xs : List ExprId}
    (hes : List.Forall₂ (Use g s) vs es)
    (hxs : List.Forall₂ (s.program.Wraps t.program) es xs) :
    List.Forall₂ (Operand g (t.recorded id (some (t.program.expr e).stmt))) vs xs := by
  induction hes generalizing xs with
  | nil =>
      cases hxs
      exact .nil
  | cons hv _ ih =>
      cases hxs with
      | cons hx hxs => exact .cons (h.operand_recorded hb he hg hkind hv hx) (ih hxs)

/-- What stands for a value still does when another operation is recorded. -/
theorem Res.recorded {v : Value} {e : ExprId} (h : Res g s v e) (hid : s.opStmt.get? id = none)
    (r : Option StmtId) : Res g (s.recorded id r) v e := by
  cases h with
  | @node d k e node =>
      obtain ⟨i, hi, he⟩ := exprOf?_eq_some.mp node
      refine .node (exprOf?_eq_some.mpr ⟨i, ?_, he⟩)
      show (s.opStmt.insert id r).get? d = _
      rw [Dict.get?_insert, if_neg, hi]
      rintro rfl
      rw [hid] at hi
      cases hi
  | decl kind noted known ref => exact .decl kind noted known ref
  | param param known ref => exact .param param known ref

end Record

/-! ### Rules for expressions -/

theorem Operation.binaryOp?_of_kind {o : Operation} {kind : Kind} {op : BinaryOp}
    (hk : o.kind? = some kind) (hop : kind.binaryOp? = some op) : o.binaryOp? = some op := by
  rw [Operation.binaryOp?, hk]
  cases kind with
  | compare => cases hop
  | _ => exact hop

namespace Lift

section Rules

variable {env : LiftEnv} {extra : List Task} {s : LiftState} {id : OpId} {o : Operation}

/-- Whenever the rule succeeds on a state that satisfies the invariant and does not have the operation
yet, the expression that it gives can be recorded. -/
def RecordsExpr (env : LiftEnv) (extra : List Task) (id : OpId) (m : Lift ExprId) : Prop :=
  ∀ s, Inv env.graph extra s → s.opStmt.get? id = none → Gives m s fun e t =>
    Recorded env.graph extra s id (some (t.program.expr e).stmt) t

theorem operandValue_records (hform : env.graph.Formed) (hop : env.graph.op? id = some o)
    (hk : o.kind? = some .valueYield ∨ o.kind? = some .condYield ∨ o.kind? = some .declRef) :
    RecordsExpr env extra id (operandValue env o 0) := by
  intro s h hid
  refine (operandValue_gives h o 0).imp ?_
  rintro e t ⟨v, hv, hb, huse, hnew⟩
  have hid' : t.opStmt.get? id = none := by rw [hb.opStmt, hid]
  have hnode := ExprNode.same hk hv (huse.1.recorded hid' (some (t.program.expr e).stmt))
  have hcited : o.cited? = none := by
    obtain hk | hk | hk := hk <;> exact o.cited?_eq_none ⟨_, hk, rfl⟩ rfl
  obtain ⟨rfl, d, hd, hshared⟩ | ⟨he, hparts⟩ := hnew
  · refine h.record_shared hform hop hid hcited (d := d) ?_ hshared fun _ => hnode
    have hform : o.kind?.map Kind.form = some .passed := by
      obtain hk | hk | hk := hk <;> rw [hk] <;> rfl
    simp [Graph.passed, hform, hv, hd]
  · exact h.record_expr hform hb hop hid he (cites_of_none hcited) (.inr hparts) fun _ => hnode

theorem symbolRef_records (hform : env.graph.Formed) (hop : env.graph.op? id = some o)
    {attr : String} (hk : o.kind? = some .functionRef ∧ attr = AttrName.callee ∨
      o.kind? = some .globalRef ∧ attr = AttrName.name) :
    RecordsExpr env extra id (symbolRef env o attr) := by
  intro s h hid
  refine (symbolRef_gives env h o attr).imp ?_
  rintro e t ⟨sym, d, hsym, hd, hnamed, hb, he, href⟩
  have hcited := o.cited?_of_symbol hk hsym
  refine h.record_expr hform hb hop hid he (fun name x hname hx => ⟨he.2, .inl ?_⟩)
    (.inr (by rw [href]; rfl)) fun _ => .symbol hk hsym hnamed href
  cases hcited.symm.trans hname
  cases hd.symm.trans hx
  exact href

theorem binary_records (hform : env.graph.Formed) (hop : env.graph.op? id = some o)
    {op : BinaryOp} (hk : o.binaryOp? = some op) : RecordsExpr env extra id (binary env o op) := by
  intro s h hid
  refine (operand_gives env o 0).bind ?_
  rintro v _ ⟨hv, rfl⟩
  refine (operand_gives env o 1).bind ?_
  rintro w _ ⟨hw, rfl⟩
  refine (value_gives h v).bind ?_
  rintro lhs u ⟨hb, hlhs, _⟩
  have hu := h.builds hform hb
  refine (value_gives hu w).bind ?_
  rintro rhs u' ⟨hb', hrhs, _⟩
  have hu' := hu.builds hform hb'
  have hid' : u'.opStmt.get? id = none := by rw [hb'.opStmt, hb.opStmt, hid]
  refine (typed_gives (Check.binary_gives op lhs rhs)).imp ?_
  rintro e t ⟨ht, he, l, r, hkind, hl, hr⟩
  refine Recorded.after ?_ ((hb.trans hb').grows _ id)
  have hparen : ∀ y, (t.program.expr e).kind ≠ .paren y := by simp [hkind]
  have hown := Graph.passed_eq_nil (g := env.graph) (o.form_of_binaryOp? hk) rfl
  have hcited := o.cited?_eq_none (o.form_of_binaryOp? hk) rfl
  refine hu'.record_expr hform ht hop hid' he (cites_of_none hcited) (.inl hown)
    fun hg => .binary hk hv hw hkind ?_ ?_
  · exact hu'.operand_recorded ht he hg hparen (hlhs.mono (hb'.grows _ 0)) hl
  · exact hu'.operand_recorded ht he hg hparen hrhs hr

theorem unary_records (hform : env.graph.Formed) (hop : env.graph.op? id = some o)
    {op : UnaryOp} (hk : o.unaryOp? = some op) : RecordsExpr env extra id (unary env o op) := by
  intro s h hid
  refine (operandValue_gives h o 0).bind ?_
  rintro a u ⟨v, hv, hb, ha, _⟩
  have hu := h.builds hform hb
  have hid' : u.opStmt.get? id = none := by rw [hb.opStmt, hid]
  refine (typed_gives (Check.unary_gives op a)).imp ?_
  rintro e t ⟨ht, he, x, hkind, hx⟩
  refine Recorded.after ?_ (hb.grows _ id)
  have hown := Graph.passed_eq_nil (g := env.graph) (o.form_of_unaryOp? hk) rfl
  have hcited := o.cited?_eq_none (o.form_of_unaryOp? hk) rfl
  refine hu.record_expr hform ht hop hid' he (cites_of_none hcited) (.inl hown)
    fun hg => .unary hk hv hkind ?_
  exact hu.operand_recorded ht he hg (by simp [hkind]) ha hx

theorem compare_records (hform : env.graph.Formed) (hop : env.graph.op? id = some o)
    (hk : o.kind? = some .compare) : RecordsExpr env extra id (compare env o) := by
  unfold compare
  split
  · next p hp =>
      refine binary_records hform hop ?_
      rw [Operation.binaryOp?, hk]
      simp [hp]
  · exact fun _ _ _ => .throw _ trivial

theorem constant_records (hform : env.graph.Formed) (hop : env.graph.op? id = some o)
    (hk : o.kind? = some .constant) : RecordsExpr env extra id (constant env o) := by
  intro s h hid
  have leaf : ∀ {m : Check ExprId} {u : LiftState}, s.Builds u →
      Gives m u.program (fun e q => u.program.Extends q ∧ u.program.IsNew q e ∧
        (q.expr e).kind.parts = []) →
      Gives (typed m) u fun e t =>
        Recorded env.graph extra s id (some (t.program.expr e).stmt) t := by
    intro m u hb hm
    refine (typed_gives hm).imp ?_
    rintro e t ⟨ht, he, hparts⟩
    refine Recorded.after ?_ (hb.grows _ id)
    exact (h.builds hform hb).record_expr hform ht hop (by rw [hb.opStmt, hid]) he
      (cites_of_none (o.cited?_eq_none ⟨_, hk, rfl⟩ rfl)) (.inr hparts) fun _ => .constant hk hparts
  have literal : ∀ {f : QualType → Check ExprId}, (∀ type p, Gives (f type) p fun e q =>
        p.Extends q ∧ p.IsNew q e ∧ (q.expr e).kind.parts = []) →
      Gives (do let type ← type env (← resultType env o); typed (f type)) s fun e t =>
        Recorded env.graph extra s id (some (t.program.expr e).stmt) t := by
    intro f hf
    refine (resultType_gives env o).bind ?_
    rintro tid _ ⟨_, rfl⟩
    exact (type_gives env tid _).bind fun type u ⟨hb, _⟩ => leaf hb (hf type _)
  unfold constant
  split
  · exact .throw _ trivial
  · exact literal fun type _ => Check.integer_gives _ type
  · exact literal fun type _ => Check.floating_gives _ type
  · exact leaf (.refl s) (Check.text_gives _)
  · exact .throw _ trivial

theorem cast_records (hform : env.graph.Formed) (hop : env.graph.op? id = some o)
    {style : CastStyle} (hk : o.castStyle? = some style) :
    RecordsExpr env extra id (cast env o style) := by
  intro s h hid
  unfold cast
  split
  · next c hc =>
      refine .guard trivial fun _ => ?_
      refine (resultType_gives env o).bind ?_
      rintro tid _ ⟨htid, rfl⟩
      refine (type_gives env tid _).bind ?_
      rintro type u ⟨hb, htype⟩
      have hu := h.builds hform hb
      refine (operandValue_gives hu o 0).bind ?_
      rintro a u' ⟨v, hv, hb', ha, _⟩
      have hu' := hu.builds hform hb'
      have hid' : u'.opStmt.get? id = none := by rw [hb'.opStmt, hb.opStmt, hid]
      refine (typed_gives (Check.cast_gives style c type a _)).imp ?_
      rintro e t ⟨ht, he, hty, hcat, x, hkind, hx⟩
      refine Recorded.after ?_ ((hb.trans hb').grows _ id)
      have hown := Graph.passed_eq_nil (g := env.graph) (o.form_of_castStyle? hk) rfl
      have hcited := o.cited?_eq_none (o.form_of_castStyle? hk) rfl
      refine hu'.record_expr hform ht hop hid' he (cites_of_none hcited) (.inl hown)
        fun hg => .cast hk hc htid hv hkind ?_ ?_ ?_
      · exact hu'.operand_recorded ht he hg (by simp [hkind]) ha hx
      · show t.typeOf.get? tid = some (t.program.expr e).type
        rw [hty]
        exact ht.typeOf _ _ (hb'.typeOf _ _ htype)
      · show (t.program.expr e).category = .lvalue ↔ _
        rw [hcat]
        split <;> simp_all
  · exact .throw _ trivial

theorem initList_records (hform : env.graph.Formed) (hop : env.graph.op? id = some o)
    (hk : o.kind? = some .initList) : RecordsExpr env extra id (initList env o) := by
  intro s h hid
  refine (resultType_gives env o).bind ?_
  rintro tid _ ⟨htid, rfl⟩
  refine (type_gives env tid _).bind ?_
  rintro type u ⟨hb, _⟩
  have hu := h.builds hform hb
  refine (values_gives hform hu o.operands).bind ?_
  rintro es u' ⟨hb', hes⟩
  have hu' := hu.builds hform hb'
  have hid' : u'.opStmt.get? id = none := by rw [hb'.opStmt, hb.opStmt, hid]
  refine (typed_gives (Check.initList_gives type es)).imp ?_
  rintro e t ⟨ht, he, xs, hkind, hxs⟩
  refine Recorded.after ?_ ((hb.trans hb').grows _ id)
  have hown := Graph.passed_eq_nil (g := env.graph) ⟨_, hk, rfl⟩ rfl
  have hcited := o.cited?_eq_none ⟨_, hk, rfl⟩ rfl
  refine hu'.record_expr hform ht hop hid' he (cites_of_none hcited) (.inl hown)
    fun hg => .initList hk htid hkind ?_
  exact hu'.operands_recorded ht he hg (by simp [hkind]) hes hxs

theorem call_records (hform : env.graph.Formed) (hop : env.graph.op? id = some o)
    (hk : o.kind? = some .call) : RecordsExpr env extra id (call env o) := by
  intro s h hid
  unfold call
  refine .guard trivial fun _ => ?_
  refine (symbolRef_gives env h o _).bind ?_
  rintro f u ⟨sym, d, hsym, hd, hnamed, hb, hf, href⟩
  have hu := h.builds hform hb
  refine (values_gives hform hu o.operands).bind ?_
  rintro es u' ⟨hb', hes⟩
  have hu' := hu.builds hform hb'
  have hid' : u'.opStmt.get? id = none := by rw [hb'.opStmt, hb.opStmt, hid]
  have haux := (h.new_auxiliary hb hf).mono (hb'.grows env.graph 0)
  have href' : (u'.program.expr f).kind = .ref d := by
    rw [(hb'.grows env.graph 0).expr hf.2, href]
  refine (typed_gives (Check.call_gives href' es)).imp ?_
  rintro e t ⟨ht, he, xs, hkind, hxs⟩
  refine Recorded.after ?_ ((hb.trans hb').grows _ id)
  have hown := Graph.passed_eq_nil (g := env.graph) ⟨_, hk, rfl⟩ rfl
  have hcited := o.cited?_of_call hk hsym
  have hcallee : (t.program.expr f).kind = .ref d := by
    rw [(ht.grows env.graph 0).expr haux.1, href']
  refine hu'.record_expr hform ht hop hid' he (fun name x hname hx => ⟨he.2, .inr ?_⟩) (.inl hown)
    fun hg => ?_
  · cases hcited.symm.trans hname
    rw [hb'.symbols, hb.symbols, hd] at hx
    cases hx
    exact ⟨f, xs, hkind, (haux.mono (ht.grows env.graph 0)).1, hcallee⟩
  · refine .call hk hsym (hnamed.mono ((hb'.grows _ id).trans hg)) hkind (haux.mono hg) hcallee ?_
    exact hu'.operands_recorded ht he hg (by simp [hkind]) hes hxs

/-- Operations without regions that become expressions. -/
theorem simpleExpr_records (hform : env.graph.Formed) (hop : env.graph.op? id = some o)
    {kind : Kind} (hk : o.kind? = some kind) : RecordsExpr env extra id (simpleExpr env o kind) := by
  unfold simpleExpr
  split
  · exact operandValue_records hform hop (.inl hk)
  · exact operandValue_records hform hop (.inr (.inl hk))
  · exact operandValue_records hform hop (.inr (.inr hk))
  · exact symbolRef_records hform hop (.inl ⟨hk, rfl⟩)
  · exact symbolRef_records hform hop (.inr ⟨hk, rfl⟩)
  · exact call_records hform hop hk
  · exact constant_records hform hop hk
  · exact initList_records hform hop hk
  · exact cast_records hform hop (by rw [Operation.castStyle?, hk])
  · exact cast_records hform hop (by rw [Operation.castStyle?, hk])
  · exact compare_records hform hop hk
  · next hne =>
      split
      · next op _ hop' =>
          exact binary_records hform hop (Operation.binaryOp?_of_kind hk hop')
      · next op _ hop' =>
          refine unary_records hform hop ?_
          rw [Operation.unaryOp?, hk]
          exact hop'
      · exact fun _ _ _ => .throw _ trivial

end Rules

end Lift

end Readback
