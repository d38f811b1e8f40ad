import Readback.Proofs.Lift.Decl

/-! # Runs of a lift

The invariant of a lift says, for every operation that was lifted, what it became. This module carries
it through whole lifts.

* Every rule records what its operation became (`rule_records`), by the lemmas on the rules for
  expressions, regions and declarations. An operation that has been lifted before is what it became then
  (`memo_gives`). So lifting an operation keeps the invariant, however deep it is nested
  (`opAux_lifts`).
* A declaration that was made but not filled yet owes a task. Carrying the task out fills it
  (`task_gives`): the body of a function is the sequence of what its region leaves, and the initial
  value of a variable is what its region yields (`Task.Result`). Filling settles this one task and
  leaves the others as they are (`Inv.fill`).
* Draining carries out all tasks (`drainAux_gives`), those that come up on the way among them, so a
  drained queue owes nothing.

`Settled g s` is what holds when a lift has succeeded: the invariant, with nothing left to do. The body
of a function is there if and only if the function has a block (`Settled.function`), and the initial
value of a variable if and only if its region has operations (`Settled.var`).

The main result is `Graph.lift_settled`: a lift that succeeds settles everything. The properties of
lifted programs, such as how they are structured, what they evaluate and what they keep, are read off
from that. -/

namespace Readback

open Step LiftState

/-- The state with a note of how many tasks were carried out. -/
def LiftState.executed (s : LiftState) : LiftState :=
  { s with stats := { s.stats with deferredExecuted := s.queue.completed } }

namespace Lift

section Rules

variable {env : LiftEnv} {extra : List Task} {lift : OpLifter} {scope : Scope} {id : OpId}
  {o : Operation}

/-! ### Rules -/

/-- Lifting operations one after the other. -/
theorem forM_gives (hl : Lifts env extra lift) {n : Nat} {ops : List OpId}
    (hops : ∀ o ∈ ops, n ≤ o) {s : LiftState} (h : Inv env.graph extra s) :
    Gives (ops.forM fun op => do let _ ← lift scope op) s fun _ t =>
      Inv env.graph extra t ∧ Grows env.graph n s t ∧
        ∀ o ∈ ops, ∃ r, t.opStmt.get? o = some r := by
  induction ops generalizing s with
  | nil => exact .pure ⟨h, .refl _ _ _, by simp⟩
  | cons op ops ih =>
      have hn := hops op List.mem_cons_self
      have hops' := fun o ho => hops o (List.mem_cons_of_mem op ho)
      refine Ensures.bind (P := fun _ t => ∃ r, Inv env.graph extra t ∧ Grows env.graph op s t ∧
        t.opStmt.get? op = some r) ?_ ?_
      · exact (hl scope op s h).bind fun r t ht => .pure ⟨r, ht⟩
      · rintro _ t ⟨r, ht, hg, hr⟩
        refine (ih hops' ht).imp ?_
        rintro _ u ⟨hu, hg', hlifted⟩
        refine ⟨hu, (hg.weaken hn).trans hg', ?_⟩
        simpa using ⟨⟨r, hg'.opStmt op r hr⟩, hlifted⟩

theorem translationUnit_records (hform : env.graph.Formed) (hl : Lifts env extra lift)
    (hop : env.graph.op? id = some o) (hk : o.kind? = some .translationUnit) :
    Records env extra id (do
      (o.regions.flatMap env.graph.regionOps).forM fun op => do let _ ← lift scope op
      return none) := by
  intro s h hid
  have habove : ∀ j ∈ o.regions.flatMap env.graph.regionOps, id + 1 ≤ j := by
    intro j hj
    obtain ⟨r, hr, hj⟩ := List.mem_flatMap.mp hj
    exact hform.lt_of_mem hop hr hj
  refine (forM_gives hl habove h).bind fun _ t ⟨ht, hg, hlifted⟩ => .pure ?_
  have hid' : t.opStmt.get? id = none := (hg.below id (Nat.lt_succ_self id)).trans hid
  refine Recorded.after ?_ (hg.weaken (Nat.le_succ id))
  have hcurrent : Current t o id (t.recorded id none) :=
    current_of_none (o.cited?_eq_none ⟨_, hk, rfl⟩ rfl)
  refine ht.record hform (.refl t) hop hid' nofun hcurrent (.silent (.unit hk fun r hr j hj => ?_))
  obtain ⟨l, hl⟩ := hlifted j (List.mem_flatMap.mpr ⟨r, hr, hj⟩)
  exact ⟨l, (grows_recorded (r := none) (.refl t) hop hid' nofun hcurrent).opStmt j l hl⟩

/-- A rule that only chooses a name. -/
theorem name_records (hform : env.graph.Formed) (hop : env.graph.op? id = some o)
    (hk : o.kind? = some .typeAlias ∨ o.kind? = some .enumeration ∨ o.kind? = some .enumerator)
    (role : NameRole) : Records env extra id (do
      let _ ← chooseName env role o 0
      return none) := by
  intro s h hid
  refine (chooseName_building env role o 0 s).bind fun _ t hb => .pure ?_
  have hcited : o.cited? = none := by
    obtain hk | hk | hk := hk <;> exact o.cited?_eq_none ⟨_, hk, rfl⟩ rfl
  exact h.record hform hb hop hid nofun (current_of_none hcited) (.silent (.name (.inr hk)))

/-- Every rule records what its operation became. -/
theorem rule_records (hform : env.graph.Formed) (hl : Lifts env extra lift) (scope : Scope)
    (id : OpId) : Records env extra id (rule env lift scope id) := by
  intro s h hid
  refine (operation_gives env id).bind ?_
  rintro o _ ⟨hop, rfl⟩
  split
  · next hk =>
      split
      · next hname => exact innerScope_records hform hl hop hk hname _ h hid
      · exact .throw _ trivial
  · next kind hk =>
      split
      · exact translationUnit_records hform hl hop hk _ h hid
      · exact function_records hform hop hk _ h hid
      · exact var_records hform hop hk _ h hid
      · exact record_records hform hop hk _ h hid
      · exact name_records hform hop (.inl hk) _ _ h hid
      · exact name_records hform hop (.inr (.inl hk)) _ _ h hid
      · exact name_records hform hop (.inr (.inr hk)) _ _ h hid
      · exact ifElse_records hform hl hop hk _ h hid
      · exact whileLoop_records hform hl hop hk _ h hid
      · exact doLoop_records hform hl hop hk _ h hid
      · exact forLoop_records hform hl hop hk _ h hid
      · exact returns_records hform hop hk _ h hid
      · exact leaf_records hform hop (.inl ⟨hk, rfl⟩) _ h hid
      · exact leaf_records hform hop (.inr (.inl ⟨hk, rfl⟩)) _ h hid
      · exact leaf_records hform hop (.inr (.inr ⟨hk, rfl⟩)) _ h hid
      · exact (wrapper_records hform hl hop hk).records _ h hid
      · exact (simpleExpr_records hform hop hk).records _ h hid

/-- An operation that has been lifted before is what it became then. -/
theorem memo_gives (hform : env.graph.Formed) {s : LiftState} (h : Inv env.graph extra s)
    {r : Option StmtId} (hr : s.opStmt.get? id = some r) :
    Gives (do
      modify fun s => { s with stats := { s.stats with memoHits := s.stats.memoHits + 1 } }
      return r : Lift (Option StmtId)) s fun r t =>
        Inv env.graph extra t ∧ Grows env.graph id s t ∧ t.opStmt.get? id = some r := by
  have hb : s.Builds { s with stats := { s.stats with memoHits := s.stats.memoHits + 1 } } :=
    ⟨⟨.refl _, rfl, rfl, rfl, rfl, fun _ _ h => h⟩, rfl⟩
  exact ⟨h.builds hform hb, hb.grows _ id, hr⟩

/-- Lifting an operation keeps the invariant, however deep it is nested. -/
theorem opAux_lifts (hform : env.graph.Formed) (bound : Nat) : Lifts env extra (opAux env bound) := by
  induction bound with
  | zero =>
      intro scope id s h
      unfold opAux
      refine .get_bind ?_
      split
      · next r hr => exact memo_gives hform h hr
      · exact .throw _ trivial
  | succ bound ih =>
      intro scope id s h
      unfold opAux
      refine .get_bind ?_
      split
      · next r hr => exact memo_gives hform h hr
      · next hid =>
          refine (rule_records hform ih scope id s h hid).bind fun r t ht => ?_
          refine ⟨ht.1, ht.2, ?_⟩
          show (t.opStmt.insert id r).get? id = _
          rw [Dict.get?_insert, if_pos rfl]

end Rules

end Lift

/-! ### Tasks -/

/-- What a task is to put into its declaration. -/
def Task.Result (g : Graph) (s : LiftState) (task : Task) (x : Nat) : Prop :=
  if task.isBody then s.BranchOf g task.region x else s.YieldOf g task.region x

/-- Filling a declaration settles the task for it. -/
theorem Inv.fill {g : Graph} (hform : g.Formed) {task : Task} {extra : List Task} {s : LiftState}
    (h : Inv g (task :: extra) s) {k : DeclKind} {x : Nat}
    (hset : k.settled = (s.program.decl task.decl).kind.settled) (hslot : k.slot = some x)
    (hx : task.Result g s x) :
    Inv g extra { s with program := s.program.setDeclKind task.decl k } ∧
      Grows g 0 s { s with program := s.program.setDeclKind task.decl k } := by
  have hg : Grows g 0 s { s with program := s.program.setDeclKind task.decl k } :=
    ⟨s.program.setDeclKind_grows hset, fun _ _ => rfl, fun _ _ h => h, fun _ _ _ h => h,
      fun _ _ h => h, fun _ _ h => h, fun o _ h _ => ⟨o, h⟩, fun _ y hy => ⟨y, hy, .inl rfl⟩,
      cited_of_opStmt rfl⟩
  obtain ⟨f, o, ho, hf, hfill, hbody⟩ := h.tasks task List.mem_cons_self
  -- The declarations of other operations are not touched.
  have hother : ∀ {f' d}, s.opDecl.get? f' = some d → f' ≠ f →
      (s.program.setDeclKind task.decl k).decl d = s.program.decl d := by
    intro f' d hf' hne
    rw [Program.decl_setDeclKind, if_neg]
    rintro ⟨rfl, -⟩
    exact hne (h.decls_inj f' f _ hf' hf)
  refine ⟨?_, hg⟩
  constructor
  case twinned => exact h.twinned
  case shown =>
    intro q r hq
    obtain ⟨op, hop, hshown⟩ := h.shown q r hq
    refine ⟨op, hop, hshown.mono ?_ hg⟩
    rw [hform.op_id q op hop]
    exact hop
  case decls => exact fun q d hq => (h.decls q d hq).mono hg
  case noted => exact h.noted
  case decls_inj => exact h.decls_inj
  case args => exact fun v y hv => (h.args v y hv).mono hg
  case symbols => exact fun name d hn => (h.symbols name d hn).mono hg
  case filled =>
    intro f' q d r hq hf' hr
    by_cases hne : f' = f
    · subst hne
      cases hf.symm.trans hf'
      cases ho.symm.trans hq
      cases hfill.symm.trans hr
      have hlt := (h.decls f' _ hf').1
      refine .inl ⟨x, ?_, ?_⟩
      · show ((s.program.setDeclKind task.decl k).decl task.decl).kind.slot = _
        rw [Program.decl_setDeclKind, if_pos ⟨rfl, hlt⟩]
        exact hslot
      · unfold Task.Result at hx
        by_cases hkind : o.kind? = some .function
        · rw [if_pos (hbody.mp hkind)] at hx
          rw [if_pos hkind]
          exact hx.mono hg
        · rw [if_neg (fun hb => hkind (hbody.mpr hb))] at hx
          rw [if_neg hkind]
          exact hx.mono hg
    · obtain ⟨y, hy, hfilled⟩ | ⟨task', hmem, hdecl, hregion⟩ := h.filled f' q d r hq hf' hr
      · refine .inl ⟨y, ?_, ?_⟩
        · show ((s.program.setDeclKind task.decl k).decl d).kind.slot = _
          rw [hother hf' hne]
          exact hy
        · split at hfilled
          · next hkind => rw [if_pos hkind]; exact hfilled.mono hg
          · next hkind => rw [if_neg hkind]; exact hfilled.mono hg
      · obtain rfl | hmem := List.mem_cons.mp hmem
        · exact absurd (h.decls_inj f' f _ hf' (hdecl ▸ hf)) hne
        · exact .inr ⟨task', hmem, hdecl, hregion⟩
  case vacant =>
    intro f' q d hq hf' hr
    show ((s.program.setDeclKind task.decl k).decl d).kind.slot = _
    rw [hother hf', h.vacant f' q d hq hf' hr]
    rintro rfl
    cases ho.symm.trans hq
    rw [hfill] at hr
    cases hr
  case tasks => exact fun task' hmem => h.tasks task' (List.mem_cons_of_mem task hmem)

namespace Lift

section Run

variable {env : LiftEnv} {s : LiftState}

/-- Carrying out a task settles it. -/
theorem task_gives (hform : env.graph.Formed) {task : Task} {extra : List Task}
    (h : Inv env.graph (task :: extra) s) : Gives (Lift.task env task) s fun _ t =>
      Inv env.graph extra t ∧ Grows env.graph 0 s t := by
  have above : ∀ r : RegionId, ∀ o ∈ env.graph.regionOps r, 0 ≤ o := fun _ _ _ => Nat.zero_le _
  cases task with
  | body function region =>
      refine (compound_gives hform (opAux_lifts hform _) (above region) h).bind ?_
      rintro body u ⟨hu, hg, hbranch⟩
      refine (typed_gives_program (Check.setBody_gives function body)).imp ?_
      rintro _ _ ⟨_, ⟨type, params, old, locals, hkind, rfl⟩, rfl⟩
      have hfill := hu.fill hform (k := .function type params (some body) locals) (x := body)
        (by rw [show (u.program.decl (Task.body function region).decl).kind = _ from hkind]; rfl)
        rfl hbranch
      exact ⟨hfill.1, hg.trans hfill.2⟩
  | init scope var region =>
      refine (yielded_gives (opAux_lifts hform _) (above region) h).bind ?_
      rintro init u ⟨hu, hg, hyield⟩
      refine (typed_gives_program (Check.setInit_gives var init)).imp ?_
      rintro _ _ ⟨_, ⟨q, type, old, storage, hq, hkind, rfl⟩, rfl⟩
      have hb : u.Builds { u with program := q } :=
        ⟨⟨hq.extends, rfl, rfl, rfl, rfl, fun _ _ h => h⟩, rfl⟩
      have hgb := hb.grows env.graph 0
      have hdecl : q.decl var = u.program.decl var := by
        unfold Program.TypesOnly at hq
        rw [hq]
        rfl
      have hfill := (hu.builds hform hb).fill hform (k := .var type (some init) storage) (x := init)
        (by rw [show (q.decl (Task.init scope var region).decl).kind = _ from
          (congrArg Decl.kind hdecl).trans hkind]; rfl) rfl (hyield.mono hgb)
      exact ⟨hfill.1, (hg.trans hgb).trans hfill.2⟩

theorem update_gives (f : Queue Task → Queue Task) :
    Gives (modify (Queue.update f) : Lift Unit) s fun _ t => t = { s with queue := f s.queue } := by
  exact rfl

/-- Draining carries out all tasks. -/
theorem drainAux_gives (hform : env.graph.Formed) (bound count : Nat) (h : Inv env.graph [] s) :
    Gives (Queue.drainAux (Lift.task env) LiftError.unbounded bound count) s fun _ t =>
      Inv env.graph [] t ∧ Grows env.graph 0 s t ∧ t.queue.pending = [] := by
  induction bound generalizing s count with
  | zero =>
      unfold Queue.drainAux
      refine .get_bind ?_
      split
      · next hnil => exact .pure ⟨h, .refl _ _ _, hnil⟩
      · exact .throw _ trivial
  | succ bound ih =>
      unfold Queue.drainAux
      refine .get_bind ?_
      split
      · next hnil => exact .pure ⟨h, .refl _ _ _, hnil⟩
      · next task rest hpending =>
          -- The task is taken from the queue, carried out and counted.
          have hkeep := Keeps.requeue s { s.queue with pending := rest }
          have hs : Inv env.graph [task] { s with queue := { s.queue with pending := rest } } :=
            h.keeps hform hkeep hpending.symm
          refine (update_gives fun q => { q with pending := rest }).bind ?_
          rintro _ _ rfl
          refine (task_gives hform hs).bind ?_
          rintro _ u ⟨hu, hg⟩
          refine (update_gives Queue.complete).bind ?_
          rintro _ _ rfl
          have hkeep' := Keeps.requeue u u.queue.complete
          refine (ih (count + 1) (hu.keeps hform hkeep' rfl)).imp
            fun _ t ⟨ht, hg', hnil⟩ => ⟨ht, ?_, hnil⟩
          exact ((hkeep.grows _ 0).trans hg).trans ((hkeep'.grows _ 0).trans hg')

/-- Draining is carrying out tasks, after which it is noted how many they were. -/
theorem drain_of_drainAux {Q : Nat → LiftState → Prop} {E : LiftError → LiftState → Prop}
    (h : Outcome (Queue.drainAux (Lift.task env) LiftError.unbounded
      (env.graph.operations.size + s.queue.size) 0) s (fun count t => Q count t.executed)
        fun e t => E e t.executed) : Outcome (drain env) s Q E := by
  unfold Outcome at h ⊢
  unfold drain Queue.drain
  cases hrun : Queue.drainAux (Lift.task env) LiftError.unbounded
      (env.graph.operations.size + s.queue.size) 0 s with
  | ok count t =>
      rw [hrun] at h
      exact h
  | error e t =>
      rw [hrun] at h
      exact h

theorem drain_gives (hform : env.graph.Formed) (h : Inv env.graph [] s) :
    Gives (drain env) s fun _ t =>
      Inv env.graph [] t ∧ Grows env.graph 0 s t ∧ t.queue.pending = [] := by
  refine drain_of_drainAux (E := fun _ _ => True) ?_
  refine (drainAux_gives hform _ 0 h).imp fun _ t ⟨ht, hg, hnil⟩ => ?_
  have hb : t.Builds t.executed := ⟨⟨.refl _, rfl, rfl, rfl, rfl, fun _ _ h => h⟩, rfl⟩
  exact ⟨ht.builds hform hb, hg.trans (hb.grows _ 0), hnil⟩

/-- Nothing has been lifted at the start. -/
theorem start_inv (g : Graph) (target : Target) : Inv g [] (LiftState.start target) where
  twinned i e := by simp [LiftState.start, Program.empty, Program.asExpr?]
  shown _ _ h := by cases h
  decls _ _ h := by cases h
  noted _ _ h := by cases h
  decls_inj _ _ _ h := by cases h
  args _ _ h := by cases h
  symbols _ _ h := by cases h
  filled _ _ _ _ _ h := by cases h
  vacant _ _ _ _ h := by cases h
  tasks _ h := by cases h

theorem run_gives (env : LiftEnv) (hform : env.graph.Formed) (h : Inv env.graph [] s) :
    Gives (run env) s fun _ t => Inv env.graph [] t ∧ t.queue.pending = [] ∧
      ∀ o ∈ env.graph.topLevelOps, ∃ r, t.opStmt.get? o = some r := by
  refine (forM_gives (opAux_lifts hform _) (fun _ _ => Nat.zero_le _) h).bind ?_
  rintro _ t ⟨ht, _, hlifted⟩
  refine (drain_gives hform ht).bind fun _ u ⟨hu, hg, hnil⟩ => .pure ⟨hu, hnil, fun o ho => ?_⟩
  obtain ⟨r, hr⟩ := hlifted o ho
  exact ⟨r, hg.opStmt o r hr⟩

end Run

end Lift

/-- What holds when a lift has succeeded. -/
structure Settled (g : Graph) (s : LiftState) : Prop extends Inv g [] s where
  drained : s.queue.pending = []
  topLevel : ∀ o ∈ g.topLevelOps, ∃ r, s.opStmt.get? o = some r

section Settled

variable {g : Graph} {s : LiftState} {f : OpId} {o : Operation} {d : DeclId}

/-- The body of a function is there if and only if the function has a block. -/
theorem Settled.function (h : Settled g s) (ho : g.op? f = some o) (hk : o.kind? = some .function)
    (hd : s.opDecl.get? f = some d) : ∃ type params body locals,
      (s.program.decl d).kind = .function type params body locals ∧
      Option.Rel (s.BranchOf g) (g.filling? o) body := by
  obtain ⟨_, k, hk', hdecl⟩ := h.decls f d hd
  obtain rfl : Kind.function = k := by simpa [Graph.kind?, ho, hk] using hk'
  cases hkind : (s.program.decl d).kind with
  | function type params body locals =>
      refine ⟨type, params, body, locals, rfl, ?_⟩
      cases hr : g.filling? o with
      | none =>
          have hslot := h.vacant f o d ho hd hr
          rw [hkind] at hslot
          obtain rfl : body = none := hslot
          exact .none
      | some r =>
          obtain ⟨x, hx, hfill⟩ | ⟨task, hmem, _⟩ := h.filled f o d r ho hd hr
          · rw [if_pos hk] at hfill
            rw [hkind] at hx
            obtain rfl : body = some x := hx
            exact .some hfill
          · rw [owed, h.drained] at hmem
            cases hmem
  | _ => rw [hkind] at hdecl; exact hdecl.elim

/-- The initial value of a variable is there if and only if its region has operations. -/
theorem Settled.var (h : Settled g s) (ho : g.op? f = some o) (hk : o.kind? = some .var)
    (hd : s.opDecl.get? f = some d) : ∃ type init storage,
      (s.program.decl d).kind = .var type init storage ∧
      Option.Rel (s.YieldOf g) (g.filling? o) init := by
  obtain ⟨_, k, hk', hdecl⟩ := h.decls f d hd
  obtain rfl : Kind.var = k := by simpa [Graph.kind?, ho, hk] using hk'
  cases hkind : (s.program.decl d).kind with
  | var type init storage =>
      refine ⟨type, init, storage, rfl, ?_⟩
      cases hr : g.filling? o with
      | none =>
          have hslot := h.vacant f o d ho hd hr
          rw [hkind] at hslot
          obtain rfl : init = none := hslot
          exact .none
      | some r =>
          obtain ⟨x, hx, hfill⟩ | ⟨task, hmem, _⟩ := h.filled f o d r ho hd hr
          · rw [if_neg (by simp [hk])] at hfill
            rw [hkind] at hx
            obtain rfl : init = some x := hx
            exact .some hfill
          · rw [owed, h.drained] at hmem
            cases hmem
  | _ => rw [hkind] at hdecl; exact hdecl.elim

end Settled

/-- A lift that succeeds is a run that does. -/
theorem Graph.run_of_lift {g : Graph} {naming : Naming} {c : LiftConfig} {s : LiftState}
    (h : g.lift naming c = (.ok (), s)) :
    Lift.run ⟨g, naming, c.showOps⟩ (.start c.target) = .ok () s := by
  unfold Graph.lift at h
  cases hres : Lift.run ⟨g, naming, c.showOps⟩ (.start c.target) with
  | ok _ t =>
      rw [hres] at h
      cases h
      rfl
  | error e t =>
      rw [hres] at h
      cases h

/-- A lift that succeeds settles everything. -/
theorem Graph.lift_settled {g : Graph} (hg : g.Built) {naming : Naming} {c : LiftConfig}
    {s : LiftState} (h : g.lift naming c = (.ok (), s)) : Settled g s := by
  have hrun := Lift.run_gives ⟨g, naming, c.showOps⟩ hg.formed (Lift.start_inv g c.target)
  unfold Gives Ensures at hrun
  rw [Graph.run_of_lift h] at hrun
  exact ⟨hrun.1, hrun.2.1, hrun.2.2⟩

theorem Graph.lift_eq_of_fst {g : Graph} {naming : Naming} {c : LiftConfig}
    (h : (g.lift naming c).1 = .ok ()) : g.lift naming c = (.ok (), (g.lift naming c).2) :=
  Prod.ext h rfl

end Readback
