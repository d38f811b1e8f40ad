import Readback.Proofs.Lift.Expr

/-! # Lifting regions

What the rules that walk a region do, given that lifting a single operation keeps the invariant. That is
the hypothesis `Lifts` of a module that never looks at how operations are lifted; the induction over
nested operations provides it.

* A region that becomes a sequence lists what its operations leave (`stmts_gives`). Those that are
  elided leave nothing: they become part of the expressions that use them. The sequence is a compound
  statement (`compound_gives`), and the else part of a branch is one if its region has a block
  (`branch_gives`).
* A region that has to yield gives the node of its only yield (`yielded_gives`). The walk collects
  yields and the expressions that nothing uses apart from each other (`yieldsAux_gives`); more than one
  yield, or none, is a failure.
* The operations of a region come after the operation that holds it (`regionOps_above`), so what they
  enter does not touch the one that is being lifted.

`Records` is what a rule has to do: whenever it succeeds on a state that satisfies the invariant and
does not have the operation yet, its result can be recorded. It holds of wrappers, branches, loops,
inner scopes and returns (`wrapper_records`, `ifElse_records`, `whileLoop_records`, `doLoop_records`,
`forLoop_records`, `innerScope_records`, `returns_records`). A counting loop reads its three regions in
different ways: a condition that may be missing (`loopCondition_gives`), an increment that may be an
unused expression instead of a yield (`loopIncrement_gives`), and a body. -/

namespace Readback

open Step LiftState

namespace Lift

/-- Lifting an operation keeps the invariant, adds to the state, and records what the operation
became. -/
def Lifts (env : LiftEnv) (extra : List Task) (lift : OpLifter) : Prop :=
  ∀ scope id s, Inv env.graph extra s → Gives (lift scope id) s fun r t =>
    Inv env.graph extra t ∧ Grows env.graph id s t ∧ t.opStmt.get? id = some r

section Region

variable {env : LiftEnv} {extra : List Task} {lift : OpLifter} {scope : Scope} {s : LiftState}

/-! ### Sequences -/

/-- One after the other, the operations are lifted, and those that are not elided leave their
statements. -/
theorem stmts_gives (hl : Lifts env extra lift) {n : Nat} {ops : List OpId}
    (hops : ∀ o ∈ ops, n ≤ o) (h : Inv env.graph extra s) :
    Gives (stmts env lift scope ops) s fun l t =>
      Inv env.graph extra t ∧ Grows env.graph n s t ∧ (∀ o ∈ ops, ∃ r, t.opStmt.get? o = some r) ∧
        l = ops.filterMap fun o => if env.graph.elides o then none else t.stmtOf? o := by
  induction ops generalizing s with
  | nil => exact .pure ⟨h, .refl _ _ _, by simp, rfl⟩
  | cons op ops ih =>
      have hn := hops op List.mem_cons_self
      have hops' := fun o ho => hops o (List.mem_cons_of_mem op ho)
      refine (hl scope op s h).bind ?_
      rintro r t ⟨ht, hg, hr⟩
      cases r with
      | none =>
          refine (ih hops' ht).imp ?_
          rintro l u ⟨hu, hg', hlifted, hlist⟩
          have hr' := hg'.opStmt op _ hr
          refine ⟨hu, (hg.weaken hn).trans hg', ?_, ?_⟩
          · simpa using ⟨⟨_, hr'⟩, hlifted⟩
          · simp [hlist, stmtOf?, hr']
      | some i =>
          obtain ⟨o, ho, hshown⟩ := ht.shown op _ hr
          refine .get_bind ?_
          refine (ih hops' ht).bind ?_
          rintro l u ⟨hu, hg', hlifted, hlist⟩
          refine .pure ?_
          have hr' := hg'.opStmt op _ hr
          refine ⟨hu, (hg.weaken hn).trans hg', ?_, ?_⟩
          · simpa using ⟨⟨_, hr'⟩, hlifted⟩
          · rw [hshown.isElided_eq ho]
            cases hel : env.graph.elides op <;> simp [hel, hlist, stmtOf?, hr']

/-- The operations of a region are above the operation that holds it. -/
theorem regionOps_above (hform : env.graph.Formed) {id : Nat} {o : Operation}
    (hop : env.graph.op? id = some o) {k : Nat} {r : RegionId} (hr : o.regions[k]? = some r) :
    ∀ j ∈ env.graph.regionOps r, id + 1 ≤ j := fun _ hj =>
  hform.lt_of_mem hop (List.mem_of_getElem? hr) hj

/-- A region as a compound statement. -/
theorem compound_gives (hform : env.graph.Formed) (hl : Lifts env extra lift) {n : Nat}
    {r : RegionId} (hr : ∀ o ∈ env.graph.regionOps r, n ≤ o) (h : Inv env.graph extra s) :
    Gives (compound env lift scope r) s fun i t =>
      Inv env.graph extra t ∧ Grows env.graph n s t ∧ t.BranchOf env.graph r i := by
  refine (stmts_gives hl hr h).bind ?_
  rintro l u ⟨hu, hg, hlifted, hlist⟩
  refine (typed_gives (Check.pushStmt_gives (k := .compound l) nofun)).imp ?_
  rintro i t ⟨hb, hi, hkind⟩
  have hlifted' : u.Lifted env.graph r := hlifted
  refine ⟨hu.builds hform hb, hg.trans (hb.grows _ n), ⟨hlifted'.mono (hb.grows _ n), hi.2, ?_⟩,
    hu.newStmt_auxiliary hb hi⟩
  rw [hkind, hlist, hlifted'.listed_eq (hb.grows _ n)]
  rfl

/-- The else part of a branch, if it has one. -/
theorem branch_gives (hform : env.graph.Formed) (hl : Lifts env extra lift) {n : Nat}
    {r : Option RegionId} (hr : ∀ r', r = some r' → ∀ o ∈ env.graph.regionOps r', n ≤ o)
    (h : Inv env.graph extra s) :
    Gives (r.mapM (compound env lift scope)) s fun i t =>
      Inv env.graph extra t ∧ Grows env.graph n s t ∧ Option.Rel (t.BranchOf env.graph) r i := by
  cases r with
  | none => exact .pure ⟨h, .refl _ _ _, .none⟩
  | some r =>
      refine Ensures.map ((compound_gives hform hl (hr r rfl) h).imp fun i t ⟨ht, hg, hi⟩ => ?_)
      exact ⟨ht, hg, .some hi⟩

/-! ### Yields -/

theorem exprs_one {t : LiftState} {p : OpId → Bool} {o : OpId} {e : ExprId} (hp : p o = true)
    (he : t.exprOf? o = some e) : t.Exprs ([o].filter p) [e] := by
  simp only [List.filter_singleton, hp]
  exact .cons he .nil

theorem exprs_skip {t : LiftState} {p : OpId → Bool} {o : OpId} (hp : p o = false) :
    t.Exprs ([o].filter p) [] := by
  simp only [List.filter_singleton, hp]
  exact .nil

/-- The yields and the expressions that nothing uses, each in order. -/
theorem yieldsAux_gives (hl : Lifts env extra lift) {n : Nat} {region : RegionId} {ops : List OpId}
    (hops : ∀ o ∈ ops, n ≤ o) (h : Inv env.graph extra s) (y : Option ExprId)
    (unused : List ExprId) :
    Gives (yieldsAux env lift scope region ops y unused) s fun x t =>
      Inv env.graph extra t ∧ Grows env.graph n s t ∧ (∀ o ∈ ops, ∃ r, t.opStmt.get? o = some r) ∧
        ∃ ys es, x.1.toList = y.toList ++ ys ∧ x.2 = unused.reverse ++ es ∧
          t.Exprs (ops.filter (isYield env.graph)) ys ∧
          t.Exprs (ops.filter env.graph.isLoose) es := by
  induction ops generalizing s y unused with
  | nil => exact .pure ⟨h, .refl _ _ _, by simp, [], [], by simp, by simp, .nil, .nil⟩
  | cons op ops ih =>
      have hn := hops op List.mem_cons_self
      have hops' := fun o ho => hops o (List.mem_cons_of_mem op ho)
      refine (hl scope op s h).bind ?_
      rintro r t ⟨ht, hg, hr⟩
      refine .get_bind ?_
      have hsome := ht.exprOf?_isSome hr
      dsimp only
      rw [← exprOf?_of_get? hr]
      -- What the rest gives, with what the operation itself adds.
      have rest : ∀ (y' : Option ExprId) (unused' ys es : List ExprId),
          y'.toList = y.toList ++ ys → unused'.reverse = unused.reverse ++ es →
          (∀ u, Grows env.graph n t u → u.Exprs ([op].filter (isYield env.graph)) ys) →
          (∀ u, Grows env.graph n t u → u.Exprs ([op].filter env.graph.isLoose) es) →
          Gives (yieldsAux env lift scope region ops y' unused') t fun x t =>
            Inv env.graph extra t ∧ Grows env.graph n s t ∧
              (∀ o ∈ op :: ops, ∃ r, t.opStmt.get? o = some r) ∧
              ∃ ys es, x.1.toList = y.toList ++ ys ∧ x.2 = unused.reverse ++ es ∧
                t.Exprs ((op :: ops).filter (isYield env.graph)) ys ∧
                t.Exprs ((op :: ops).filter env.graph.isLoose) es := by
        intro y' unused' ys es hy hun hys hes
        refine (ih hops' ht y' unused').imp ?_
        rintro x u ⟨hu, hg', hlifted, ys', es', hx, hx', hys', hes'⟩
        refine ⟨hu, (hg.weaken hn).trans hg', ?_, ys ++ ys', es ++ es', ?_, ?_, ?_, ?_⟩
        · simpa using ⟨⟨_, hg'.opStmt op _ hr⟩, hlifted⟩
        · rw [hx, hy, List.append_assoc]
        · rw [hx', hun, List.append_assoc]
        · rw [← List.singleton_append, List.filter_append]
          exact List.rel_append (hys u hg') hys'
        · rw [← List.singleton_append, List.filter_append]
          exact List.rel_append (hes u hg') hes'
      split
      · next hy =>
          have hloose : env.graph.isLoose op = false := by simp [Graph.isLoose, hy]
          refine .guard trivial fun hnone => ?_
          split
          · exact .throw _ trivial
          · next e he =>
              exact rest (some e) unused [e] [] (by simpa using hnone) (by simp)
                (fun u hu => exprs_one hy (hu.exprOf? he)) fun _ _ => exprs_skip hloose
      · next hy =>
          have hy : isYield env.graph op = false := by simpa using hy
          split
          · next e he =>
              have hexpr : env.graph.isExpr op = true := by rw [← hsome, he]; rfl
              cases huses : env.graph.hasUses op with
              | true =>
                  exact rest y unused [] [] (by simp) (by simp) (fun _ _ => exprs_skip hy)
                    fun _ _ => exprs_skip (by simp [Graph.isLoose, huses])
              | false =>
                  exact rest y (e :: unused) [] [e] (by simp) (by simp) (fun _ _ => exprs_skip hy)
                    fun u hu => exprs_one (by simp [Graph.isLoose, hy, hexpr, huses]) (hu.exprOf? he)
          · next he =>
              have hexpr : env.graph.isExpr op = false := by rw [← hsome, he]; rfl
              exact rest y unused [] [] (by simp) (by simp) (fun _ _ => exprs_skip hy)
                fun _ _ => exprs_skip (by simp [Graph.isLoose, hexpr])

theorem yields_gives (hl : Lifts env extra lift) {n : Nat} {r : RegionId}
    (hr : ∀ o ∈ env.graph.regionOps r, n ≤ o) (h : Inv env.graph extra s) :
    Gives (yields env lift scope r) s fun x t =>
      Inv env.graph extra t ∧ Grows env.graph n s t ∧ t.Lifted env.graph r ∧
        t.Exprs ((env.graph.regionOps r).filter (isYield env.graph)) x.1.toList ∧
        t.Exprs ((env.graph.regionOps r).filter env.graph.isLoose) x.2 := by
  refine (yieldsAux_gives hl hr h none []).imp
    fun x t ⟨ht, hg, hlifted, ys, es, hy, hes, hys, hes'⟩ => ⟨ht, hg, hlifted, ?_, ?_⟩
  · rw [hy]
    exact hys
  · rw [hes]
    exact hes'

/-- A region that has to yield gives the node of its only yield. -/
theorem yielded_gives (hl : Lifts env extra lift) {n : Nat} {r : RegionId}
    (hr : ∀ o ∈ env.graph.regionOps r, n ≤ o) (h : Inv env.graph extra s) :
    Gives (yielded env lift scope r) s fun e t =>
      Inv env.graph extra t ∧ Grows env.graph n s t ∧ t.YieldOf env.graph r e := by
  refine (yields_gives hl hr h).bind ?_
  rintro x t ⟨ht, hg, hlifted, hys, _⟩
  obtain ⟨y, es⟩ := x
  cases y with
  | none => exact .throw _ trivial
  | some e =>
      obtain ⟨y, _, he, hnil, hlist⟩ := List.forall₂_cons_right_iff.mp hys
      cases hnil
      exact .pure ⟨ht, hg, hlifted, y, hlist, he⟩

end Region

/-! ### Rules for statements -/

section Rules

variable {env : LiftEnv} {extra : List Task} {lift : OpLifter} {scope : Scope} {id : OpId}
  {o : Operation}

/-- Whenever the rule succeeds on a state that satisfies the invariant and does not have the operation
yet, its result can be recorded. -/
def Records (env : LiftEnv) (extra : List Task) (id : OpId) (m : Lift (Option StmtId)) : Prop :=
  ∀ s, Inv env.graph extra s → s.opStmt.get? id = none → Gives m s fun r t =>
    Recorded env.graph extra s id r t

theorem RecordsExpr.records {m : Lift ExprId} (h : RecordsExpr env extra id m) :
    Records env extra id (do let e ← m; return some ((← program).expr e).stmt) := fun s hs hid =>
  (h s hs hid).bind fun _ _ ht => .get_bind (.pure ht)

theorem wrapper_records (hform : env.graph.Formed) (hl : Lifts env extra lift)
    (hop : env.graph.op? id = some o) (hk : o.kind? = some .expression) :
    RecordsExpr env extra id (wrapper env lift scope o) := by
  intro s h hid
  unfold wrapper
  split
  · exact .throw _ trivial
  · next r hr =>
      refine .guard trivial fun hcount => ?_
      have habove := regionOps_above hform hop (List.head?_eq_getElem? ▸ hr)
      refine (yielded_gives hl habove h).imp ?_
      rintro e t ⟨ht, hg, hlifted, y, hy, he⟩
      refine Recorded.after ?_ (hg.weaken (Nat.le_succ id))
      have hid' : t.opStmt.get? id = none := (hg.below id (Nat.lt_succ_self id)).trans hid
      have hpassed : y ∈ env.graph.passed o := by simp [Graph.passed, hk, Kind.form, hr, hy]
      refine ht.record_shared hform hop hid' (o.cited?_eq_none ⟨_, hk, rfl⟩ rfl) hpassed he fun hrec => ?_
      refine .wrapper hk hr (Lifted.mono hlifted hrec) hy ?_ (hrec.exprOf? he)
      -- The only yield is the one that is counted.
      obtain ⟨z, hz⟩ := List.length_eq_one_iff.mp (not_not.mp hcount)
      have hmem : z ∈ (env.graph.regionOps r).filter fun op =>
          env.graph.kind? op == some .valueYield := hz ▸ List.mem_singleton_self z
      obtain ⟨hzr, hzk⟩ := List.mem_filter.mp hmem
      have hzk : env.graph.kind? z = some .valueYield := eq_of_beq hzk
      have hzy : z ∈ (env.graph.regionOps r).filter (isYield env.graph) :=
        List.mem_filter.mpr ⟨hzr, by simp [isYield, hzk]⟩
      rw [hy, List.mem_singleton] at hzy
      rw [← hzy]
      exact hzk

theorem ifElse_records (hform : env.graph.Formed) (hl : Lifts env extra lift)
    (hop : env.graph.op? id = some o) (hk : o.kind? = some .ifStmt) :
    Records env extra id (some <$> ifElse env lift scope o) := by
  intro s h hid
  refine .map ?_
  refine (region_gives env o 0 _).bind ?_
  rintro rc _ ⟨hrc, rfl⟩
  refine (region_gives env o 1 _).bind ?_
  rintro ry _ ⟨hry, rfl⟩
  refine (yielded_gives hl (regionOps_above hform hop hrc) h).bind ?_
  rintro c u₁ ⟨h₁, hg₁, hc⟩
  refine (compound_gives hform hl (regionOps_above hform hop hry) h₁).bind ?_
  rintro y u₂ ⟨h₂, hg₂, hy⟩
  have hno : ∀ r, env.graph.elseRegion? o = some r → ∀ j ∈ env.graph.regionOps r, id + 1 ≤ j :=
    fun r hr => regionOps_above hform hop (Option.filter_eq_some_iff.mp hr).1
  refine (branch_gives hform hl hno h₂).bind ?_
  rintro n u ⟨hu, hg₃, hn⟩
  have hg := (hg₁.trans hg₂).trans hg₃
  have hid' : u.opStmt.get? id = none := (hg.below id (Nat.lt_succ_self id)).trans hid
  refine (typed_gives (Check.condition_pushStmt_gives c (k := fun x => .ifElse x y n) nofun)).imp
    fun i t ⟨hb, hi, hkind⟩ => Recorded.after ?_ (hg.weaken (Nat.le_succ id))
  refine hu.record_stmt hform hb hop hid' (o.cited?_eq_none ⟨_, hk, rfl⟩ rfl) hi fun hrec => ?_
  exact .ifElse hk hrc hry hkind (((hc.mono hg₂).mono hg₃).mono hrec) ((hy.mono hg₃).mono hrec)
    (relImp hn fun _ _ h => h.mono hrec)

theorem whileLoop_records (hform : env.graph.Formed) (hl : Lifts env extra lift)
    (hop : env.graph.op? id = some o) (hk : o.kind? = some .whileStmt) :
    Records env extra id (some <$> whileLoop env lift scope o) := by
  intro s h hid
  refine .map ?_
  refine (region_gives env o 0 _).bind ?_
  rintro rc _ ⟨hrc, rfl⟩
  refine (region_gives env o 1 _).bind ?_
  rintro rb _ ⟨hrb, rfl⟩
  refine (yielded_gives hl (regionOps_above hform hop hrc) h).bind ?_
  rintro c u₁ ⟨h₁, hg₁, hc⟩
  refine (compound_gives hform hl (regionOps_above hform hop hrb) h₁).bind ?_
  rintro b u ⟨hu, hg₂, hbody⟩
  have hg := hg₁.trans hg₂
  have hid' : u.opStmt.get? id = none := (hg.below id (Nat.lt_succ_self id)).trans hid
  refine (typed_gives (Check.condition_pushStmt_gives c (k := fun x => .whileLoop x b) nofun)).imp
    fun i t ⟨hb, hi, hkind⟩ => Recorded.after ?_ (hg.weaken (Nat.le_succ id))
  refine hu.record_stmt hform hb hop hid' (o.cited?_eq_none ⟨_, hk, rfl⟩ rfl) hi fun hrec => ?_
  exact .whileLoop hk hrc hrb hkind ((hc.mono hg₂).mono hrec) (hbody.mono hrec)

theorem doLoop_records (hform : env.graph.Formed) (hl : Lifts env extra lift)
    (hop : env.graph.op? id = some o) (hk : o.kind? = some .doStmt) :
    Records env extra id (some <$> doLoop env lift scope o) := by
  intro s h hid
  refine .map ?_
  refine (region_gives env o 0 _).bind ?_
  rintro rb _ ⟨hrb, rfl⟩
  refine (region_gives env o 1 _).bind ?_
  rintro rc _ ⟨hrc, rfl⟩
  refine (compound_gives hform hl (regionOps_above hform hop hrb) h).bind ?_
  rintro b u₁ ⟨h₁, hg₁, hbody⟩
  refine (yielded_gives hl (regionOps_above hform hop hrc) h₁).bind ?_
  rintro c u ⟨hu, hg₂, hc⟩
  have hg := hg₁.trans hg₂
  have hid' : u.opStmt.get? id = none := (hg.below id (Nat.lt_succ_self id)).trans hid
  refine (typed_gives (Check.condition_pushStmt_gives c (k := fun x => .doLoop b x) nofun)).imp
    fun i t ⟨hb, hi, hkind⟩ => Recorded.after ?_ (hg.weaken (Nat.le_succ id))
  refine hu.record_stmt hform hb hop hid' (o.cited?_eq_none ⟨_, hk, rfl⟩ rfl) hi fun hrec => ?_
  exact .doLoop hk hrb hrc hkind (hc.mono hrec) ((hbody.mono hg₂).mono hrec)

/-- The condition of a counting loop, unless its region is empty. -/
def loopCondition (env : LiftEnv) (lift : OpLifter) (scope : Scope) (r : RegionId) :
    Lift (Option ExprId) :=
  if (env.graph.regionOps r).isEmpty then pure none else some <$> yielded env lift scope r

/-- The increment of a counting loop, if it has one. -/
def loopIncrement (env : LiftEnv) (lift : OpLifter) (scope : Scope) (o : Operation)
    (r : RegionId) : Lift (Option ExprId) := do
  match ← yields env lift scope r with
  | (some e, []) => pure (some e)
  | (none, []) => pure none
  | (none, [e]) => pure (some e)
  | (_, unused) =>
    throw (env.malformed o ("increment leaves " ++ toString unused.length ++ " expressions unused"))

theorem forLoop_eq (env : LiftEnv) (lift : OpLifter) (scope : Scope) (o : Operation) :
    forLoop env lift scope o = (do
      let rc ← region env o 0 "condition"
      let ri ← region env o 1 "increment"
      let rb ← region env o 2 "body"
      let cond ← loopCondition env lift scope rc
      let inc ← loopIncrement env lift scope o ri
      let body ← compound env lift scope rb
      typed (Check.forLoop none cond inc body)) := by
  unfold forLoop loopCondition loopIncrement
  refine bind_congr fun rc => bind_congr fun ri => bind_congr fun rb => ?_
  dsimp only
  simp only [bind_assoc]
  -- The rest of the loop stands once behind either case of the condition.
  split <;> refine bind_congr fun cond => bind_congr ?_ <;>
    rintro ⟨_ | _, _ | ⟨_, _ | _⟩⟩ <;> rfl

theorem loopCondition_gives (hl : Lifts env extra lift) {n : Nat} {r : RegionId}
    (hr : ∀ j ∈ env.graph.regionOps r, n ≤ j) (h : Inv env.graph extra s) :
    Gives (loopCondition env lift scope r) s fun c t =>
      Inv env.graph extra t ∧ Grows env.graph n s t ∧ t.ConditionOf env.graph r c := by
  unfold loopCondition
  split
  · next hempty => exact .pure ⟨h, .refl _ _ _, List.isEmpty_iff.mp hempty⟩
  · next hne =>
      refine .map ((yielded_gives hl hr h).imp ?_)
      rintro e t ⟨ht, hg, he⟩
      exact ⟨ht, hg, by simpa using hne, he⟩

theorem loopIncrement_gives (hl : Lifts env extra lift) {n : Nat} {r : RegionId}
    (hr : ∀ j ∈ env.graph.regionOps r, n ≤ j) (o : Operation) (h : Inv env.graph extra s) :
    Gives (loopIncrement env lift scope o r) s fun inc t =>
      Inv env.graph extra t ∧ Grows env.graph n s t ∧ t.IncrementOf env.graph r inc := by
  refine (yields_gives hl hr h).bind ?_
  rintro x t ⟨ht, hg, hlifted, hys, hes⟩
  have hinc {inc : Option ExprId} (h : x.1.toList ++ x.2 = inc.toList) :
      t.IncrementOf env.graph r inc := ⟨hlifted, h ▸ List.rel_append hys hes⟩
  split
  · exact .pure ⟨ht, hg, hinc rfl⟩
  · exact .pure ⟨ht, hg, hinc rfl⟩
  · exact .pure ⟨ht, hg, hinc rfl⟩
  · exact .throw _ trivial

theorem forLoop_records (hform : env.graph.Formed) (hl : Lifts env extra lift)
    (hop : env.graph.op? id = some o) (hk : o.kind? = some .forStmt) :
    Records env extra id (some <$> forLoop env lift scope o) := by
  intro s h hid
  refine .map ?_
  rw [forLoop_eq]
  refine (region_gives env o 0 _).bind ?_
  rintro rc _ ⟨hrc, rfl⟩
  refine (region_gives env o 1 _).bind ?_
  rintro ri _ ⟨hri, rfl⟩
  refine (region_gives env o 2 _).bind ?_
  rintro rb _ ⟨hrb, rfl⟩
  refine (loopCondition_gives hl (regionOps_above hform hop hrc) h).bind ?_
  rintro c u₁ ⟨h₁, hg₁, hc⟩
  refine (loopIncrement_gives hl (regionOps_above hform hop hri) o h₁).bind ?_
  rintro inc u₂ ⟨h₂, hg₂, hinc⟩
  refine (compound_gives hform hl (regionOps_above hform hop hrb) h₂).bind ?_
  rintro b u ⟨hu, hg₃, hbody⟩
  have hg := (hg₁.trans hg₂).trans hg₃
  have hid' : u.opStmt.get? id = none := (hg.below id (Nat.lt_succ_self id)).trans hid
  refine (typed_gives (Check.forLoop_gives none c inc b)).imp
    fun i t ⟨hb, hi, hkind⟩ => Recorded.after ?_ (hg.weaken (Nat.le_succ id))
  refine hu.record_stmt hform hb hop hid' (o.cited?_eq_none ⟨_, hk, rfl⟩ rfl) hi fun hrec => ?_
  exact .forLoop hk hrc hri hrb hkind (((hc.mono hg₂).mono hg₃).mono hrec)
    ((hinc.mono hg₃).mono hrec) (hbody.mono hrec)

theorem innerScope_records (hform : env.graph.Formed) (hl : Lifts env extra lift)
    (hop : env.graph.op? id = some o) (hk : o.kind? = none)
    (hname : o.name.text = Registry.scopeName) :
    Records env extra id (some <$> innerScope env lift scope o) := by
  intro s h hid
  refine .map ?_
  refine (region_gives env o 0 _).bind ?_
  rintro r _ ⟨hr, rfl⟩
  refine (stmts_gives hl (regionOps_above hform hop hr) h).bind ?_
  rintro l u ⟨hu, hg, hlifted, hlist⟩
  have hid' : u.opStmt.get? id = none := (hg.below id (Nat.lt_succ_self id)).trans hid
  refine (typed_gives (Check.pushStmt_gives (k := .compound l) nofun)).imp
    fun i t ⟨hb, hi, hkind⟩ => Recorded.after ?_ (hg.weaken (Nat.le_succ id))
  refine hu.record_stmt hform hb hop hid' (by rw [Operation.cited?, hk]) hi fun hrec => ?_
  have hlifted' : u.Lifted env.graph r := hlifted
  refine .scope hk hname hr ⟨hlifted'.mono hrec, hi.2, ?_⟩
  rw [hlifted'.listed_eq hrec]
  exact hkind.trans (congrArg _ hlist)

theorem returns_records (hform : env.graph.Formed) (hop : env.graph.op? id = some o)
    (hk : o.kind? = some .returnStmt) :
    Records env extra id (some <$> returns env scope o) := by
  intro s h hid
  refine .map ?_
  unfold returns
  split
  · next f =>
      have finish : ∀ u (value : Option ExprId), s.Builds u → o.operands.length ≤ 1 →
          Option.Rel (Use env.graph u) o.operands.head? value →
          Gives (typed (Check.returns f value)) u fun i t =>
            Recorded env.graph extra s id (some i) t := by
        intro u value hb hlen hvalue
        have hid' : u.opStmt.get? id = none := by rw [hb.opStmt, hid]
        refine (typed_gives (Check.returns_gives f value)).imp
          fun i t ⟨ht, hi, hkind⟩ => Recorded.after ?_ (hb.grows _ id)
        refine (h.builds hform hb).record_stmt hform ht hop hid' (o.cited?_eq_none ⟨_, hk, rfl⟩ rfl) hi
          fun hrec => ?_
        exact .returns hk hlen hkind (relImp hvalue fun _ _ h => h.mono hrec)
      dsimp only
      split
      · next hnil => exact finish s none (.refl s) (by simp [hnil]) (by rw [hnil]; exact .none)
      · next v hone =>
          refine Ensures.bind (Ensures.map (Q := fun c t => ∃ e, c = some e ∧ s.Builds t ∧
            Use env.graph t v e) ?_) ?_
          · exact (value_gives h v).imp fun e t ⟨hb, he, _⟩ => ⟨e, rfl, hb, he⟩
          · rintro _ u ⟨e, rfl, hb, he⟩
            exact finish u (some e) hb (by simp [hone]) (by rw [hone]; exact .some he)
      · exact .throw _ trivial
  · exact .throw _ trivial

/-- A statement without parts. -/
theorem leaf_records (hform : env.graph.Formed) (hop : env.graph.op? id = some o)
    {k : StmtKind} (hk : o.kind? = some .breakStmt ∧ k = .breaks ∨
      o.kind? = some .continueStmt ∧ k = .continues ∨ o.kind? = some .skip ∧ k = .empty) :
    Records env extra id (some <$> typed (Check.pushStmt k)) := by
  intro s h hid
  have hexpr : ∀ e, k ≠ .expr e := by
    rintro e rfl
    obtain ⟨_, hk⟩ | ⟨_, hk⟩ | ⟨_, hk⟩ := hk <;> cases hk
  refine .map ((typed_gives (Check.pushStmt_gives hexpr)).imp fun i t ⟨hb, hi, hkind⟩ => ?_)
  have hcited : o.cited? = none := by
    obtain ⟨hk, -⟩ | ⟨hk, -⟩ | ⟨hk, -⟩ := hk <;> exact o.cited?_eq_none ⟨_, hk, rfl⟩ rfl
  refine h.record_stmt hform hb hop hid hcited hi fun _ => .leaf ?_
  show o.kind? = _ ∧ (t.program.stmt i).kind = _ ∨ o.kind? = _ ∧ (t.program.stmt i).kind = _ ∨
    o.kind? = _ ∧ (t.program.stmt i).kind = _
  rw [hkind]
  exact hk

end Rules


end Lift

end Readback
