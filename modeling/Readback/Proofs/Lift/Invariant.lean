import Readback.Proofs.Lift.Node

/-! # The invariant of a lift

`Inv g extra s` holds between any two operations of a lift: every operation that was lifted is shown by
what it became, the tables of declarations, parameters and symbols say what they should, and every body
and initial value has been filled in or is still owed. Tasks are owed while they wait in the queue or
are among `extra`, the tasks that are being carried out.

* `Filled g s o d r` says that the declaration of an operation has been filled from its region, and
  `owed` lists the tasks that are still to be carried out; the invariant has one of the two for every
  function and variable (`Graph.filling?`).
* Most steps only build nodes (`LiftState.Builds`) and keep the invariant as it is (`Inv.builds`).
  `Keeps` is the same with changes of the queue, as long as the same tasks are owed (`Inv.keeps`).
* A rule ends by recording what its operation became; `Recorded` is what it has to establish for that:
  with its result recorded, the invariant holds, and the lift of the operation has only added to the
  state that it started from.

Recording is where the work is. A new node must be no other operation's, and it is not because nodes
that are new are no operation's before (`Inv.newStmt_auxiliary`, `Inv.new_auxiliary`). The operation
must be shown by what is recorded (`Inv.record`, and `Inv.record_stmt` for statements). And if it refers
to a declaration by its symbol, that must be what the symbol stands for now (`Current`): a later
declaration may take the symbol over, but the operation keeps the one that it found.

The steps that record are about one operation. That all operations of a region or of a graph are
recorded is a matter of going through them, and the state only grows meanwhile (`grows_recorded`). -/

namespace Readback

open Step LiftState

/-! ### Declarations and what fills them -/

/-- Operations of the kind introduce declarations like this one. -/
def Kind.Declares : Kind → DeclKind → Prop
  | .function, .function _ _ _ _ => True
  | .var, .var _ _ _ => True
  | .record, d => ¬ d.IsValue
  | .field, d => ¬ d.IsValue
  | _, _ => False

theorem Kind.declares_of_settled_eq {k : Kind} {d d' : DeclKind} (h : d.settled = d'.settled)
    (hd : k.Declares d) : k.Declares d' := by
  have hv := DeclKind.isValue_of_settled_eq h
  cases k with
  | function => cases d <;> cases d' <;> simp_all [Declares, DeclKind.settled]
  | var => cases d <;> cases d' <;> simp_all [Declares, DeclKind.settled]
  | record => exact fun h' => hd (hv.mpr h')
  | field => exact fun h' => hd (hv.mpr h')
  | _ => exact hd.elim

/-- The region that fills the declaration of an operation: the body of a function that has a block,
or the region of a variable that has operations. -/
def Graph.filling? (g : Graph) (o : Operation) : Option RegionId :=
  match o.kind? with
  | some .function => if (g.entry? o).isSome then o.regions.head? else none
  | some .var => o.regions.head?.filter fun r => !(g.regionOps r).isEmpty
  | _ => none

/-- The declaration that a task fills. -/
def Task.decl : Task → DeclId
  | .body function _ => function
  | .init _ var _ => var

/-- The region that a task fills the declaration from. -/
def Task.region : Task → RegionId
  | .body _ region => region
  | .init _ _ region => region

/-- Whether a task is about a function. -/
def Task.isBody : Task → Bool
  | .body _ _ => true
  | .init _ _ _ => false

namespace LiftState

/-- The operation introduced the declaration. -/
def DeclOf (g : Graph) (s : LiftState) (o : OpId) (d : DeclId) : Prop :=
  d < s.program.decls.size ∧ ∃ k, g.kind? o = some k ∧ k.Declares (s.program.decl d).kind

/-- The declaration of the operation has been filled from the region. -/
def Filled (g : Graph) (s : LiftState) (o : Operation) (d : DeclId) (r : RegionId) : Prop :=
  ∃ x, (s.program.decl d).kind.slot = some x ∧
    if o.kind? = some .function then s.BranchOf g r x else s.YieldOf g r x

/-- The tasks that are still to be carried out. -/
def owed (s : LiftState) (extra : List Task) : List Task := extra ++ s.queue.pending

end LiftState

/-- The invariant of a lift. -/
structure Inv (g : Graph) (extra : List Task) (s : LiftState) : Prop where
  twinned : s.program.Twinned
  shown : ∀ o r, s.opStmt.get? o = some r → ∃ op, g.op? o = some op ∧ Shown g s op r
  decls : ∀ o d, s.opDecl.get? o = some d → s.DeclOf g o d
  noted : ∀ o d, s.opDecl.get? o = some d → ∃ r, s.opStmt.get? o = some r
  decls_inj : ∀ o o' d, s.opDecl.get? o = some d → s.opDecl.get? o' = some d → o = o'
  args : ∀ v x, s.argDecl.get? v = some x → s.ParamOf g v x
  symbols : ∀ name d, s.symbols.get? name = some d → s.Named g name d
  filled : ∀ f o d r, g.op? f = some o → s.opDecl.get? f = some d → g.filling? o = some r →
    s.Filled g o d r ∨ ∃ task ∈ s.owed extra, task.decl = d ∧ task.region = r
  vacant : ∀ f o d, g.op? f = some o → s.opDecl.get? f = some d → g.filling? o = none →
    (s.program.decl d).kind.slot = none
  tasks : ∀ task ∈ s.owed extra, ∃ f o, g.op? f = some o ∧ s.opDecl.get? f = some task.decl ∧
    g.filling? o = some task.region ∧ (o.kind? = some .function ↔ task.isBody = true)

/-- An operation that became an expression is shown by it. -/
theorem Inv.exprNode {g : Graph} {extra : List Task} {s : LiftState} (h : Inv g extra s) {id : OpId}
    {o : Operation} {e : ExprId} (ho : g.op? id = some o) (he : s.exprOf? id = some e) :
    ExprNode g s o e := by
  obtain ⟨i, hi, htwin⟩ := exprOf?_eq_some.mp he
  obtain ⟨q, hq, hshown⟩ := h.shown id _ hi
  cases hq.symm.trans ho
  cases hshown with
  | expr twin _ node _ =>
      cases twin.symm.trans htwin
      exact node
  | stmt _ node =>
      rw [node.not_expr.1] at htwin
      cases htwin

/-- Whether an operation became an expression can be told from the graph. -/
theorem Inv.exprOf?_isSome {g : Graph} {extra : List Task} {s : LiftState} (h : Inv g extra s)
    {op : OpId} {l : Option StmtId} (hl : s.opStmt.get? op = some l) :
    (s.exprOf? op).isSome = g.isExpr op := by
  obtain ⟨o, ho, hshown⟩ := h.shown op l hl
  rw [exprOf?_of_get? hl, hshown.asExpr?_isSome, Graph.isExpr, Graph.kind?, ho]
  rfl

/-- The expression of an operation goes back to one that made it. -/
theorem Inv.rooted {g : Graph} (hform : g.Formed) {extra : List Task} {s : LiftState}
    (h : Inv g extra s) {id : OpId} {e : ExprId} (he : s.exprOf? id = some e) :
    Rooted g s id e := by
  obtain ⟨i, hi, htwin⟩ := exprOf?_eq_some.mp he
  obtain ⟨o, ho, hshown⟩ := h.shown id _ hi
  cases hshown with
  | expr twin _ _ root =>
      cases twin.symm.trans htwin
      rw [hform.op_id id o ho] at root
      exact root
  | stmt _ node =>
      rw [node.not_expr.1] at htwin
      cases htwin

/-! ### Steps that only build -/

namespace LiftState

/-- The state `t` differs from `s` by further nodes and types, names, counts and tasks. -/
structure Keeps (s t : LiftState) : Prop where
  program : s.program.Extends t.program
  opStmt : t.opStmt = s.opStmt
  opDecl : t.opDecl = s.opDecl
  argDecl : t.argDecl = s.argDecl
  symbols : t.symbols = s.symbols
  typeOf : ∀ id type, s.typeOf.get? id = some type → t.typeOf.get? id = some type

/-- The state `t` differs from `s` by further nodes and types, names and counts. -/
structure Builds (s t : LiftState) : Prop extends Keeps s t where
  queue : t.queue.pending = s.queue.pending

theorem Keeps.requeue (s : LiftState) (q : Queue Task) : s.Keeps { s with queue := q } :=
  ⟨.refl _, rfl, rfl, rfl, rfl, fun _ _ h => h⟩

theorem Builds.refl (s : LiftState) : s.Builds s :=
  ⟨⟨.refl _, rfl, rfl, rfl, rfl, fun _ _ h => h⟩, rfl⟩

theorem Builds.trans {s t u : LiftState} (h₁ : s.Builds t) (h₂ : t.Builds u) : s.Builds u where
  program := h₁.program.trans h₂.program
  opStmt := h₂.opStmt.trans h₁.opStmt
  opDecl := h₂.opDecl.trans h₁.opDecl
  argDecl := h₂.argDecl.trans h₁.argDecl
  symbols := h₂.symbols.trans h₁.symbols
  typeOf id type h := h₂.typeOf id type (h₁.typeOf id type h)
  queue := h₂.queue.trans h₁.queue

theorem Keeps.grows {s t : LiftState} (h : s.Keeps t) (g : Graph) (n : Nat) : Grows g n s t where
  program := h.program.grows
  below _ _ := by rw [h.opStmt]
  opStmt _ _ ho := by rw [h.opStmt]; exact ho
  opDecl _ _ _ ho := by rw [h.opDecl]; exact ho
  argDecl _ _ hv := by rw [h.argDecl]; exact hv
  typeOf := h.typeOf
  fresh o i ho _ := ⟨o, by rw [← h.opStmt]; exact ho⟩
  symbols name x hx := ⟨x, by rw [h.symbols]; exact hx, .inl rfl⟩
  cited := cited_of_opStmt h.opStmt

theorem DeclOf.mono {g : Graph} {n : Nat} {s t : LiftState} {o : OpId} {d : DeclId}
    (h : s.DeclOf g o d) (hg : Grows g n s t) : t.DeclOf g o d := by
  obtain ⟨hd, k, hk, hdecl⟩ := h
  exact ⟨Nat.lt_of_lt_of_le hd hg.program.decls_size, k, hk,
    Kind.declares_of_settled_eq (hg.program.decls d hd).2.symm hdecl⟩

/-- What fills a declaration stays if bodies and initial values stay. -/
theorem Filled.mono {g : Graph} {n : Nat} {s t : LiftState} {o : Operation} {d : DeclId}
    {r : RegionId} (h : s.Filled g o d r) (hd : d < s.program.decls.size) (hg : Grows g n s t)
    (slots : s.program.KeepsSlots t.program) : t.Filled g o d r := by
  obtain ⟨x, hx, hfill⟩ := h
  refine ⟨x, (slots d hd).trans hx, ?_⟩
  split at hfill
  · next hk => rw [if_pos hk]; exact hfill.mono hg
  · next hk => rw [if_neg hk]; exact hfill.mono hg

end LiftState

/-- The invariant stays as long as the tables stay and the same tasks are owed. -/
theorem Inv.keeps {g : Graph} (hform : g.Formed) {extra extra' : List Task} {s t : LiftState}
    (h : Inv g extra s) (hb : s.Keeps t) (howed : t.owed extra' = s.owed extra) :
    Inv g extra' t := by
  have hg := hb.grows g 0
  constructor
  case twinned => exact hb.program.twinned h.twinned
  case shown =>
    intro o r ho
    rw [hb.opStmt] at ho
    obtain ⟨op, hop, hs⟩ := h.shown o r ho
    refine ⟨op, hop, hs.mono ?_ hg⟩
    rw [hform.op_id o op hop]
    exact hop
  case decls =>
    rw [hb.opDecl]
    exact fun o d ho => (h.decls o d ho).mono hg
  case noted =>
    rw [hb.opDecl, hb.opStmt]
    exact h.noted
  case decls_inj =>
    rw [hb.opDecl]
    exact h.decls_inj
  case args =>
    rw [hb.argDecl]
    exact fun v x hv => (h.args v x hv).mono hg
  case symbols =>
    rw [hb.symbols]
    exact fun name d hn => (h.symbols name d hn).mono hg
  case filled =>
    rw [hb.opDecl, howed]
    intro f o d r ho hd hr
    obtain hf | hf := h.filled f o d r ho hd hr
    · exact .inl (hf.mono (h.decls f d hd).1 hg hb.program.slots)
    · exact .inr hf
  case vacant =>
    rw [hb.opDecl]
    intro f o d ho hd hr
    exact (hb.program.slots d (h.decls f d hd).1).trans (h.vacant f o d ho hd hr)
  case tasks =>
    rw [hb.opDecl, howed]
    exact h.tasks

theorem Inv.builds {g : Graph} (hform : g.Formed) {extra : List Task} {s t : LiftState}
    (h : Inv g extra s) (hb : s.Builds t) : Inv g extra t :=
  h.keeps hform hb.toKeeps (by rw [owed, owed, hb.queue])

/-! ### Recording what an operation became -/

/-- Notes what an operation became. -/
def LiftState.recorded (s : LiftState) (id : OpId) (r : Option StmtId) : LiftState :=
  { s with
    opStmt := s.opStmt.insert id r
    stats := { s.stats with opsLifted := s.stats.opsLifted + 1 } }

/-- Notes the declaration of a field. A field leaves no statement. -/
def LiftState.withField (s : LiftState) (id : OpId) (d : DeclId) : LiftState :=
  { s with opDecl := s.opDecl.insert id d, opStmt := s.opStmt.insert id none }

theorem LiftState.withField_opDecl (s : LiftState) (id x : OpId) (d : DeclId) :
    (s.withField id d).opDecl.get? x = if id = x then some d else s.opDecl.get? x :=
  Dict.get?_insert ..

theorem LiftState.withField_opStmt (s : LiftState) (id x : OpId) (d : DeclId) :
    (s.withField id d).opStmt.get? x = if id = x then some none else s.opStmt.get? x :=
  Dict.get?_insert ..

/-- What a rule has to establish: with its result recorded, the invariant holds, and the lift of the
operation has only added to the state that it started from. -/
def Recorded (g : Graph) (extra : List Task) (s : LiftState) (id : OpId) (r : Option StmtId)
    (t : LiftState) : Prop :=
  Inv g extra (t.recorded id r) ∧ Grows g id s (t.recorded id r)

section Record

variable {g : Graph} {extra : List Task} {s t : LiftState} {id : OpId} {op : Operation}

theorem Shown.lt {i : StmtId} (h : Shown g s op (some i)) : i < s.program.stmts.size := by
  cases h with
  | expr twin => exact asExpr?_lt twin
  | stmt known => exact known

theorem Inv.stmt_lt (h : Inv g extra s) {o : OpId} {i : Nat} (ho : s.opStmt.get? o = some (some i)) :
    i < s.program.stmts.size := by
  obtain ⟨_, _, hs⟩ := h.shown o _ ho
  exact hs.lt

/-- A new expression comes with a new statement. -/
theorem newStmt_of_new {p q : Program} (hp : p.Twinned) (hpq : p.Extends q) {e : Nat}
    (he : p.IsNew q e) : p.IsNewStmt q (q.expr e).stmt := by
  have hq := hpq.twinned hp
  refine ⟨Nat.le_of_not_lt fun hlt => ?_, hq.lt he.2⟩
  have htwin := (hq _ e).mpr ⟨he.2, rfl⟩
  rw [hpq.grows.asExpr? hlt] at htwin
  exact absurd ((hp _ e).mp htwin).1 (Nat.not_lt.mpr he.1)

/-- A new statement is no operation's. -/
theorem Inv.newStmt_auxiliary (h : Inv g extra s) (hb : s.Builds t) {i : Nat}
    (hi : s.program.IsNewStmt t.program i) : t.Auxiliary i := by
  refine ⟨hi.2, fun o ho => ?_⟩
  rw [hb.opStmt] at ho
  exact absurd (h.stmt_lt ho) (Nat.not_lt.mpr hi.1)

/-- A new expression is no operation's. -/
theorem Inv.new_auxiliary (h : Inv g extra s) (hb : s.Builds t) {e : Nat}
    (he : s.program.IsNew t.program e) : t.AuxiliaryExpr e :=
  ⟨he.2, h.newStmt_auxiliary hb (newStmt_of_new h.twinned hb.program he)⟩

/-- With its result recorded, the operation cites what its symbol stands for. -/
def Current (s : LiftState) (op : Operation) (id : OpId) (t : LiftState) : Prop :=
  ∀ name x, op.cited? = some name → s.symbols.get? name = some x →
    t.CitesFrom id x s.program.decls.size

theorem current_of_none (h : op.cited? = none) : Current s op id t := by
  intro name x hname
  rw [h] at hname
  cases hname

/-- Recording a new node, or one that is some operation's already, only adds to the state. -/
theorem grows_recorded (hb : s.Builds t) (hop : g.op? id = some op) (hid : s.opStmt.get? id = none)
    {r : Option StmtId}
    (hr : ∀ i, r = some i → s.program.stmts.size ≤ i ∨ ∃ o, s.opStmt.get? o = some (some i))
    (hcurrent : Current s op id (t.recorded id r)) : Grows g id s (t.recorded id r) where
  program := hb.program.grows
  below o ho := by
    show (t.opStmt.insert id r).get? o = _
    rw [Dict.get?_insert, if_neg (Nat.ne_of_gt ho), hb.opStmt]
  opStmt o l ho := by
    show (t.opStmt.insert id r).get? o = _
    rw [Dict.get?_insert, hb.opStmt]
    split
    · next h =>
        rw [← h, hid] at ho
        cases ho
    · exact ho
  opDecl _ _ _ ho := by
    show t.opDecl.get? _ = _
    rw [hb.opDecl]
    exact ho
  argDecl _ _ hv := by
    show t.argDecl.get? _ = _
    rw [hb.argDecl]
    exact hv
  typeOf := hb.typeOf
  fresh o i ho hi := by
    have ho : (t.opStmt.insert id r).get? o = some (some i) := ho
    rw [Dict.get?_insert, hb.opStmt] at ho
    split at ho
    · cases ho
      obtain hge | ho := hr i rfl
      · exact absurd hi (Nat.not_lt.mpr hge)
      · exact ho
    · exact ⟨o, ho⟩
  symbols name x hx := by
    refine ⟨x, ?_, .inl rfl⟩
    show t.symbols.get? name = _
    rw [hb.symbols]
    exact hx
  cited o q l name x hq hname hs ho hx := by
    have ho : (t.opStmt.insert id r).get? o = some l := ho
    rw [Dict.get?_insert, hb.opStmt, hs] at ho
    split at ho
    · next heq =>
        subst heq
        cases hop.symm.trans hq
        exact hcurrent name x hname hx
    · cases ho

/-- Recording keeps the invariant if the operation is shown by what is recorded. -/
theorem Inv.record (hform : g.Formed) (h : Inv g extra s) (hb : s.Builds t)
    (hop : g.op? id = some op) (hid : s.opStmt.get? id = none) {r : Option StmtId}
    (hr : ∀ i, r = some i → s.program.stmts.size ≤ i ∨ ∃ o, s.opStmt.get? o = some (some i))
    (hcurrent : Current s op id (t.recorded id r)) (hs : Shown g (t.recorded id r) op r) :
    Recorded g extra s id r t := by
  have hg : Grows g id s (t.recorded id r) := grows_recorded hb hop hid hr hcurrent
  have ht := h.builds hform hb
  refine ⟨?_, hg⟩
  constructor
  case twinned => exact ht.twinned
  case shown =>
    intro o l ho
    have ho : (t.opStmt.insert id r).get? o = some l := ho
    rw [Dict.get?_insert, hb.opStmt] at ho
    split at ho
    · next heq =>
        cases ho
        exact ⟨op, heq ▸ hop, hs⟩
    · obtain ⟨q, hq, hshown⟩ := h.shown o l ho
      refine ⟨q, hq, hshown.mono ?_ hg⟩
      rw [hform.op_id o q hq]
      exact hq
  case decls => exact ht.decls
  case noted =>
    intro o d ho
    obtain ⟨l, hl⟩ := ht.noted o d ho
    show ∃ l, (t.opStmt.insert id r).get? o = some l
    rw [Dict.get?_insert]
    split
    · exact ⟨r, rfl⟩
    · exact ⟨l, hl⟩
  case decls_inj => exact ht.decls_inj
  case args => exact ht.args
  case symbols => exact ht.symbols
  case filled =>
    intro f o d r' ho hd hr'
    have hd' : s.opDecl.get? f = some d := hb.opDecl ▸ hd
    obtain hf | hf := h.filled f o d r' ho hd' hr'
    · exact .inl (hf.mono (h.decls f d hd').1 hg hb.program.slots)
    · obtain ⟨task, hmem, htask⟩ := hf
      refine .inr ⟨task, ?_, htask⟩
      show task ∈ extra ++ t.queue.pending
      rw [hb.queue]
      exact hmem
  case vacant => exact ht.vacant
  case tasks => exact ht.tasks

/-- Recording a new statement. -/
theorem Inv.record_stmt (hform : g.Formed) (h : Inv g extra s) (hb : s.Builds t)
    (hop : g.op? id = some op) (hid : s.opStmt.get? id = none) (hcited : op.cited? = none) {i : Nat}
    (hi : s.program.IsNewStmt t.program i)
    (hnode : Grows g id s (t.recorded id (some i)) → StmtNode g (t.recorded id (some i)) op i) :
    Recorded g extra s id (some i) t := by
  have hr : ∀ j, some i = some j → s.program.stmts.size ≤ j ∨
      ∃ o, s.opStmt.get? o = some (some j) := fun j hj => .inl (Option.some.inj hj ▸ hi.1)
  have hcurrent : Current s op id (t.recorded id (some i)) := current_of_none hcited
  exact h.record hform hb hop hid hr hcurrent
    (.stmt hi.2 (hnode (grows_recorded hb hop hid hr hcurrent)))

/-- What happened before the recording only has to add to the state. -/
theorem Recorded.after {u : LiftState} {r : Option StmtId} (h : Recorded g extra u id r t)
    (hg : Grows g id s u) : Recorded g extra s id r t := ⟨h.1, hg.trans h.2⟩

end Record

end Readback
