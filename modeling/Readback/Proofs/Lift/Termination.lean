import Readback.Graph.Builder
import Readback.Proofs.Lift.Memo

/-! # Lifts end

A lift follows the nesting of the graph and carries out the tasks that it put off, some of which put off
further ones. It is bounded at three places: the depth of a type, the depth of an operation and the
number of tasks. In a well-built graph none of the bounds is ever reached.

Types and operations come after what is around them, so the first two bounds are enough
(`opAux_balancing`). The tasks need an account of where they come from:

* `Graph.declarers` are the functions and variables of the graph, and `LiftState.deferred` those that
  were lifted and have something to fill them (`Graph.defers`).
* `Balanced` ties the queue to them: every task that ever came is one of an operation that was lifted,
  and it was completed, waits or is being carried out. Each function or variable that has something to
  fill it puts off one task when it is lifted, and it is lifted once; so there are never more tasks than
  declarers (`Balanced.le_card`).
* The balance is kept when an operation is entered along with its task (`Balanced.enter`), when the
  first task is taken from the queue (`Balanced.pop`) and when it is completed (`Balanced.complete`).
  `balancing` is the account of runs that keep it and reach no bound.
* Each task that is carried out is one less of all that can ever come. So a bound by what is left of
  them does not stop the drain (`drainAux_balanced`), although tasks are added while it goes on.

The main result is `Graph.WellBuilt.lift_ends`: lifting a well-built graph ends without reaching a
bound, as many tasks were put off as functions and variables with something to fill them were lifted,
and if the lift succeeds, all of them were carried out and nothing waits. In `seeded` one task puts off
another (`Graph.WellBuilt.lift_ends_seeded`). -/

namespace Readback

open Step LiftState Relation

/-! ### Tasks and the operations that they come from -/

namespace Graph

/-- Whether the operation at a position puts off a task when it is lifted. -/
def defers (g : Graph) (id : OpId) : Bool := ((g.op? id).bind g.filling?).isSome

/-- The functions and variables of the graph. -/
def declarers (g : Graph) : Finset OpId :=
  {id ∈ Finset.range g.operations.size | g.kind? id = some .function ∨ g.kind? id = some .var}

theorem card_declarers_le (g : Graph) : g.declarers.card ≤ g.operations.size := by
  have h := Finset.card_filter_le (Finset.range g.operations.size) fun id =>
    g.kind? id = some .function ∨ g.kind? id = some .var
  rwa [Finset.card_range] at h

theorem defers_eq {g : Graph} {id : OpId} {o : Operation} (ho : g.op? id = some o) :
    g.defers id = (g.filling? o).isSome := by
  rw [defers, ho, Option.bind_some]

theorem filling?_eq_none {g : Graph} {o : Operation} (hf : o.kind? ≠ some .function)
    (hv : o.kind? ≠ some .var) : g.filling? o = none := by
  unfold filling?
  split
  · next h => exact absurd h hf
  · next h => exact absurd h hv
  · rfl

theorem kind?_of_defers {g : Graph} {id : OpId} (h : g.defers id = true) :
    g.kind? id = some .function ∨ g.kind? id = some .var := by
  cases ho : g.op? id with
  | none => simp [defers, ho] at h
  | some o =>
      rw [defers_eq ho] at h
      by_contra hk
      simp only [kind?, ho, Option.bind_some, not_or] at hk
      rw [filling?_eq_none hk.1 hk.2] at h
      cases h

end Graph

namespace LiftState

/-- The operations that were lifted and put off a task. -/
def deferred (g : Graph) (s : LiftState) : Finset OpId :=
  {id ∈ Finset.range g.operations.size | g.defers id = true ∧ (s.opStmt.get? id).isSome}

theorem deferred_subset (g : Graph) (s : LiftState) : s.deferred g ⊆ g.declarers := by
  intro id hid
  simp only [deferred, Graph.declarers, Finset.mem_filter] at hid ⊢
  exact ⟨hid.1, Graph.kind?_of_defers hid.2.1⟩

end LiftState

/-- Every task that ever came is one of an operation that was lifted, and it was completed, waits or
is one of those being carried out. -/
structure Balanced (g : Graph) (finished running : Nat) (s : LiftState) : Prop
    extends s.Counted g where
  enqueued : s.queue.enqueued = (s.deferred g).card
  noted : s.stats.deferredEnqueued = s.queue.enqueued
  completed : s.queue.completed = finished
  served : s.queue.enqueued = finished + s.queue.pending.length + running

section Balanced

variable {g : Graph} {finished running : Nat} {s t : LiftState}

theorem Balanced.le_card (h : Balanced g finished running s) : s.queue.enqueued ≤ g.declarers.card :=
  h.enqueued ▸ Finset.card_le_card (s.deferred_subset g)

/-- What was lifted and what is queued is all that matters. -/
theorem Balanced.congr (h : Balanced g finished running s) (hstmt : t.tables.opStmt = s.tables.opStmt)
    (hlifted : t.tables.opsLifted = s.tables.opsLifted) (hqueue : t.tables.queue = s.tables.queue)
    (hcount : t.tables.deferredEnqueued = s.tables.deferredEnqueued) :
    Balanced g finished running t := by
  have hentries : t.opStmt = s.opStmt := hstmt
  have hq : t.queue = s.queue := hqueue
  have hnoted : t.stats.deferredEnqueued = s.stats.deferredEnqueued := hcount
  refine ⟨h.toCounted.congr hstmt hlifted, ?_, ?_, ?_, ?_⟩
  · rw [hq, h.enqueued, deferred, deferred, hentries]
  · rw [hnoted, hq, h.noted]
  · rw [hq, h.completed]
  · rw [hq, h.served]

theorem Balanced.enter_field (h : Balanced g finished running s) {id : OpId} (d : DeclId)
    (hk : g.kind? id = some .field) : Balanced g finished running (s.withField id d) := by
  refine ⟨(recalls_field (S := Set.univ) d hk h.toCounted).counted, ?_, h.noted, h.completed, h.served⟩
  rw [show (s.withField id d).queue = s.queue from rfl, h.enqueued]
  congr 1
  ext x
  by_cases hx : id = x
  · subst hx
    have hno : g.defers id = false := by
      by_contra hd
      have := Graph.kind?_of_defers (Bool.eq_true_of_not_eq_false hd)
      simp [hk] at this
    simp [deferred, hno]
  · simp [deferred, withField_opStmt, hx]

/-- An operation that is entered along with the task that it put off. -/
theorem Balanced.enter (h : Balanced g finished running s) {id : OpId} {o : Operation}
    (ho : g.op? id = some o) (task : Option Task) (htask : task.map Task.region = g.filling? o)
    (hid : s.opStmt.get? id = none) (hk : g.kind? id ≠ some .field)
    (ht : t.tables = s.tables.deferring task) (r : Option StmtId) :
    Balanced g finished running (t.recorded id r) := by
  have hentries : t.opStmt = s.opStmt :=
    (congrArg Tables.opStmt ht).trans (Tables.deferring_opStmt ..)
  have hlifted : t.stats.opsLifted = s.stats.opsLifted :=
    (congrArg Tables.opsLifted ht).trans (Tables.deferring_opsLifted ..)
  have hcounted : t.Counted g := h.toCounted.congr hentries hlifted
  have henter := hcounted.enter (hentries ▸ hid) hk r
  have hdefers : g.defers id = task.isSome := by
    rw [Graph.defers_eq ho, ← htask, Option.isSome_map]
  have hnew : id ∉ s.deferred g := by simp [deferred, hid]
  have hset : (t.recorded id r).deferred g =
      if task.isSome then insert id (s.deferred g) else s.deferred g := by
    ext x
    have hget : ((t.recorded id r).opStmt.get? x) = if id = x then some r else s.opStmt.get? x := by
      rw [← hentries]
      exact Dict.get?_insert ..
    by_cases hx : id = x
    · subst hx
      cases htask : task.isSome <;> simp [deferred, hget, hdefers, htask, hid, Graph.op?_lt ho]
    · cases htask : task.isSome <;> simp [deferred, hget, hx, Ne.symm hx]
  cases task with
  | none =>
      have hqueue : t.queue = s.queue := congrArg Tables.queue ht
      have hnoted : t.stats.deferredEnqueued = s.stats.deferredEnqueued :=
        congrArg Tables.deferredEnqueued ht
      refine ⟨henter.counted, ?_, ?_, ?_, ?_⟩
      · rw [hset]
        exact (congrArg Queue.enqueued hqueue).trans h.enqueued
      · exact hnoted.trans (h.noted.trans (congrArg Queue.enqueued hqueue).symm)
      · exact (congrArg Queue.completed hqueue).trans h.completed
      · show t.queue.enqueued = finished + t.queue.pending.length + running
        rw [hqueue, h.served]
  | some task =>
      have hqueue : t.queue = s.queue.push task := congrArg Tables.queue ht
      have hnoted : t.stats.deferredEnqueued = s.stats.deferredEnqueued + 1 :=
        congrArg Tables.deferredEnqueued ht
      have hserved := h.served
      refine ⟨henter.counted, ?_, ?_, ?_, ?_⟩
      · rw [hset, Option.isSome_some, if_pos rfl, Finset.card_insert_of_notMem hnew, ← h.enqueued]
        exact congrArg Queue.enqueued hqueue
      · show t.stats.deferredEnqueued = t.queue.enqueued
        rw [hnoted, hqueue, h.noted]
        rfl
      · exact (congrArg Queue.completed hqueue).trans h.completed
      · show t.queue.enqueued = finished + t.queue.pending.length + running
        rw [hqueue]
        simp only [Queue.push, List.length_append, List.length_singleton]
        omega

/-- The first task that waits is taken from the queue. -/
theorem Balanced.pop (h : Balanced g finished 0 s) {task : Task} {rest : List Task}
    (hpending : s.queue.pending = task :: rest) :
    Balanced g finished 1 { s with queue := { s.queue with pending := rest } } := by
  refine ⟨h.toCounted.congr rfl rfl, h.enqueued, h.noted,
    h.completed, ?_⟩
  have hserved := h.served
  have hlen := congrArg List.length hpending
  rw [List.length_cons] at hlen
  show s.queue.enqueued = finished + rest.length + 1
  omega

/-- The task that is being carried out is completed. -/
theorem Balanced.complete (h : Balanced g finished 1 s) :
    Balanced g (finished + 1) 0 { s with queue := s.queue.complete } := by
  refine ⟨h.toCounted.congr rfl rfl, h.enqueued, h.noted,
    congrArg (· + 1) h.completed, ?_⟩
  have hserved := h.served
  show s.queue.enqueued = finished + 1 + s.queue.pending.length + 0
  omega

end Balanced

/-! ### Every step -/

/-- The account of runs that keep the balance and reach no bound where types are ordered. -/
def balancing (g : Graph) (finished running : Nat) : Account g where
  done _ s t := Balanced g finished running s → Balanced g finished running t
  failed s e t := (Balanced g finished running s → Balanced g finished running t) ∧
    (e = .unbounded → ¬ g.types.Ordered)
  idle h hs := by
    have ht := tables_of_records h
    exact hs.congr (congrArg _ ht) (congrArg _ ht) (congrArg _ ht) (congrArg _ ht)
  append h h' hs := h' (h hs)
  fails h he :=
    ⟨fun hs => hs.congr (congrArg _ h) (congrArg _ h) (congrArg _ h) (congrArg _ h), he.bounded⟩
  later h h' := ⟨fun hs => h'.1 (h hs), h'.2⟩

theorem balancing_free (g : Graph) (finished running : Nat) : (balancing g finished running).Free :=
  fun h hs => hs.congr (congrArg _ h) (congrArg _ h) (congrArg _ h) (congrArg _ h)

namespace Lift

section Run

variable {env : LiftEnv} {finished running : Nat}

/-- The rule for an operation that puts nothing off itself. -/
theorem rule_balancing {lift : OpLifter} {scope : Scope} {id : OpId} {o : Operation}
    (ho : env.graph.op? id = some o) (hf : o.kind? ≠ some .function) (hv : o.kind? ≠ some .var)
    (hlift : ∀ c ∈ env.graph.innerOps o,
      (balancing env.graph finished running).Follows [] (lift scope c)) :
    (balancing env.graph finished running).Follows [] (rule env lift scope id) := by
  have hrecord : (balancing env.graph finished running).Follows [] (record env scope o) :=
    record_follows (balancing_free _ _ _) (fun _ _ hs => hs.congr rfl rfl rfl rfl)
      fun _ d _ hk hs => hs.enter_field d hk
  exact rule_follows ho (fun hk => absurd hk hf) (fun hk => absurd hk hv) (fun _ => hrecord)
    fun _ => ⟨by simp, hlift⟩

/-- Lifting a function or a variable: its task and its entry come in one. -/
theorem opAux_declares {bound : Nat} {scope : Scope} {id : OpId} {o : Operation} {s : LiftState}
    (ho : env.graph.op? id = some o) (hk : o.kind? = some .function ∨ o.kind? = some .var)
    (hs : s.opStmt.get? id = none) :
    Outcome (opAux env (bound + 1) scope id) s
      (fun _ => (balancing env.graph finished running).done [] s)
      ((balancing env.graph finished running).failed s) := by
  have hfield : env.graph.kind? id ≠ some .field := by
    rcases hk with hk | hk <;> simp [Graph.kind?, ho, hk]
  have hnoted : ∀ d, Balanced env.graph finished running s → Balanced env.graph finished running
      { s with
        opDecl := (s.tables.noted scope o d).opDecl
        symbols := (s.tables.noted scope o d).symbols } := fun _ hbal => hbal.congr rfl rfl rfl rfl
  refine opAux_outcome hs ((rule_declares ho hk s).mono ?_ ?_)
  · rintro r t ⟨d, task, htask, ht⟩ hbal
    have hregion : task.map Task.region = env.graph.filling? o := by
      rw [htask.1, Option.map_map]
      exact (Option.map_congr fun r _ => o.region_filler scope d r).trans Option.map_id'
    exact (hnoted d hbal).enter ho task hregion hs hfield ht r
  · rintro e t ⟨he, ht | ⟨d, ht⟩⟩
    · refine ⟨fun hbal => hbal.congr ?_ ?_ ?_ ?_, he.bounded⟩ <;> rw [ht]
    · refine ⟨fun hbal => (hnoted d hbal).congr ?_ ?_ ?_ ?_, he.bounded⟩ <;> rw [ht] <;> rfl

/-- Lifting an operation keeps the balance, with a bound that its nesting does not reach. -/
theorem opAux_balancing (hacyclic : env.graph.Acyclic) (bound : Nat) (scope : Scope) (id : OpId)
    (hbound : env.graph.Shallow bound id) :
    (balancing env.graph finished running).Follows [] (opAux env bound scope id) := by
  induction bound generalizing scope id with
  | zero => exact hbound.elim
  | succ bound ih =>
      intro s
      cases hs : s.opStmt.get? id with
      | some r =>
          rw [Outcome, opAux_hit hs]
          exact (balancing env.graph finished running).idle rfl
      | none =>
          cases ho : env.graph.op? id with
          | none =>
              rw [Outcome, opAux_miss hs, rule_missing ho]
              exact (balancing env.graph finished running).fails rfl (LiftError.plain_malformed ..)
          | some o =>
              by_cases hk : o.kind? = some .function ∨ o.kind? = some .var
              · exact opAux_declares ho hk hs
              · rw [not_or] at hk
                have hinner : ∀ c ∈ env.graph.innerOps o,
                    (balancing env.graph finished running).Follows [] (opAux env bound scope c) := by
                  intro c hc
                  obtain ⟨r, hr, hc⟩ := List.mem_flatMap.mp hc
                  exact ih scope c (hbound c ⟨o, r, ho, env.graph.readRegions_subset o hr, hc⟩)
                have hrule := rule_balancing ho hk.1 hk.2 hinner s
                unfold Outcome at hrule ⊢
                rw [opAux_miss hs]
                cases hr : rule env (opAux env bound) scope id s with
                | error e t =>
                    rw [hr] at hrule
                    exact hrule
                | ok r t =>
                    rw [hr] at hrule
                    intro hbal
                    obtain ⟨_, hnew, hfield⟩ := rule_new
                      (fun c _ => opAux_recalls hacyclic bound scope c) hacyclic hbal.toCounted hs hr
                    have hnone := Graph.filling?_eq_none (g := env.graph) hk.1 hk.2
                    exact (hrule hbal).enter ho none hnone.symm hnew hfield rfl r

theorem op_balancing (hacyclic : env.graph.Acyclic) (scope : Scope) (id : OpId) :
    (balancing env.graph finished running).Follows [] (op env scope id) :=
  opAux_balancing hacyclic _ scope id (hacyclic.shallow id)

theorem task_balancing (hacyclic : env.graph.Acyclic) (t : Task) :
    (balancing env.graph finished running).Follows [] (Lift.task env t) :=
  task_follows t fun id _ => op_balancing hacyclic _ id

/-! ### Draining -/

/-- Each task that is carried out is one less of all that can ever come, so that a bound by what is
left of them does not stop the drain. -/
theorem drainAux_balanced (hacyclic : env.graph.Acyclic) (hord : env.graph.types.Ordered)
    (bound count : Nat) {s : LiftState} (hbal : Balanced env.graph finished 0 s)
    (hbound : env.graph.declarers.card ≤ bound + finished) :
    Outcome (Queue.drainAux (Lift.task env) LiftError.unbounded bound count) s
      (fun _ t => ∃ finished, Balanced env.graph finished 0 t ∧ t.queue.pending = [])
      (fun e t => (∃ finished running, Balanced env.graph finished running t) ∧ e ≠ .unbounded) := by
  have hle := hbal.le_card
  have hserved := hbal.served
  induction bound generalizing s finished count with
  | zero =>
      unfold Queue.drainAux
      refine .get_bind ?_
      split
      · next hnil => exact ⟨finished, hbal, hnil⟩
      · next hpending =>
          have hlen := congrArg List.length hpending
          simp only [HasQueue.queue, List.length_cons] at hlen
          omega
  | succ bound ih =>
      unfold Queue.drainAux
      refine .get_bind ?_
      split
      · next hnil => exact ⟨finished, hbal, hnil⟩
      · next task rest hpending =>
          refine Outcome.bind (P := fun _ t => t = { s with queue := { s.queue with pending := rest } })
            (by exact rfl) ?_
          rintro _ _ rfl
          have hpopped := hbal.pop hpending
          refine Outcome.bind (P := fun _ t => Balanced env.graph finished 1 t) ?_ fun _ t ht => ?_
          · exact (task_balancing hacyclic task _).mono (fun _ _ h => h hpopped)
              fun e t h => ⟨⟨finished, 1, h.1 hpopped⟩, fun he => h.2 he hord⟩
          · refine Outcome.bind (P := fun _ u => u = { t with queue := t.queue.complete })
              (by exact rfl) ?_
            rintro _ _ rfl
            have hdone := ht.complete
            exact ih (count + 1) hdone (by omega) hdone.le_card hdone.served

theorem drain_balanced (hacyclic : env.graph.Acyclic) (hord : env.graph.types.Ordered) {s : LiftState}
    (hbal : Balanced env.graph finished 0 s) :
    Outcome (drain env) s
      (fun _ t => (∃ finished, Balanced env.graph finished 0 t) ∧ t.queue.pending = [] ∧
        t.stats.deferredExecuted = t.queue.completed)
      (fun e t => (∃ finished running, Balanced env.graph finished running t) ∧ e ≠ .unbounded) := by
  have hcard := env.graph.card_declarers_le
  refine drain_of_drainAux ?_
  refine (drainAux_balanced hacyclic hord _ 0 hbal (by omega)).mono ?_ ?_
  · rintro _ t ⟨finished, ht, hnil⟩
    exact ⟨⟨finished, ht.congr rfl rfl rfl rfl⟩, hnil, rfl⟩
  · rintro e t ⟨⟨finished, running, ht⟩, he⟩
    exact ⟨⟨finished, running, ht.congr rfl rfl rfl rfl⟩, he⟩

theorem start_balanced (g : Graph) (target : Target) : Balanced g 0 0 (LiftState.start target) where
  toCounted := counted_start g target
  enqueued := by simp [deferred, LiftState.start, Queue.empty]
  noted := rfl
  completed := rfl
  served := rfl

/-- The operations of the body put off the first tasks. -/
theorem topLevel_balanced (hacyclic : env.graph.Acyclic) (target : Target) :
    Outcome (env.graph.topLevelOps.forM fun id => do let _ ← op env .file id) (LiftState.start target)
      (fun _ t => Balanced env.graph 0 0 t)
      (fun e t => Balanced env.graph 0 0 t ∧ (e = .unbounded → ¬ env.graph.types.Ordered)) := by
  have hstart := start_balanced env.graph target
  have hpass : (balancing env.graph 0 0).Follows _ (env.graph.topLevelOps.forM fun id => do
      let _ ← op env .file id) :=
    .forM fun id _ => .close (op_balancing hacyclic .file id) fun _ => .pure _
  exact (hpass _).mono (fun _ _ h => h hstart) fun e t h => ⟨h.1 hstart, h.2⟩

theorem run_balanced (hform : env.graph.Formed) (hord : env.graph.types.Ordered) (target : Target) :
    Outcome (run env) (LiftState.start target)
      (fun _ t => (∃ finished, Balanced env.graph finished 0 t) ∧ t.queue.pending = [] ∧
        t.stats.deferredExecuted = t.queue.completed)
      (fun e t => (∃ finished running, Balanced env.graph finished running t) ∧ e ≠ .unbounded) := by
  refine Outcome.bind (P := fun _ t => Balanced env.graph 0 0 t) ?_ fun _ t ht => ?_
  · exact (topLevel_balanced hform.acyclic target).mono (fun _ _ h => h)
      fun e t h => ⟨⟨0, 0, h.1⟩, fun he => h.2 he hord⟩
  · exact (drain_balanced hform.acyclic hord ht).bind fun _ _ h => h

end Run

end Lift

/-- As many operations are counted as were lifted, and those exist. -/
theorem Balanced.opsLifted_le {g : Graph} {finished running : Nat} {s : LiftState}
    (h : Balanced g finished running s)
    (known : ∀ id r, s.opStmt.get? id = some r → ∃ o, g.op? id = some o) :
    s.stats.opsLifted ≤ g.operations.size := by
  have hsub : s.lifted g ⊆ ↑(Finset.range g.operations.size) := by
    intro id hid
    obtain ⟨r, hr⟩ := Option.isSome_iff_exists.mp hid.1
    obtain ⟨o, ho⟩ := known id r hr
    simpa using Graph.op?_lt ho
  have hcard := Set.encard_le_encard hsub
  rw [h.count, Set.encard_coe_eq_coe_finsetCard, Finset.card_range] at hcard
  exact_mod_cast hcard

/-- Lifting a well-built graph ends: no bound is reached, neither by the lift nor by the texts in its
messages. As many tasks were put off as functions and variables with something to fill them were
lifted, which is at most the number of all functions and variables. After a lift that succeeds no
task waits, all were carried out, and no more operations were lifted than there are. -/
theorem Graph.WellBuilt.lift_ends {g : Graph} (hg : g.WellBuilt) (naming : Naming) (c : LiftConfig) :
    ∃ r s, g.lift naming c = (r, s) ∧ r ≠ .error .unbounded ∧
      (∀ bound id, g.types.size ≤ bound → g.types.treeAux bound id = g.types.tree id) ∧
      (∀ bound id, g.operations.size < bound → g.opTextAux bound 0 id = g.opText id) ∧
      s.queue.enqueued = s.stats.deferredEnqueued ∧
      s.stats.deferredEnqueued = (s.deferred g).card ∧
      s.stats.deferredEnqueued ≤ g.declarers.card ∧
      (r = .ok () → s.queue.pending = [] ∧ s.stats.deferredEnqueued = s.stats.deferredExecuted ∧
        s.stats.opsLifted ≤ g.operations.size) := by
  have hform := hg.built.formed
  have htree : ∀ bound id, g.types.size ≤ bound → g.types.treeAux bound id = g.types.tree id :=
    fun bound id hb => hg.ordered.treeAux_eq bound _ id (fun h => Nat.lt_of_lt_of_le h hb)
      fun h => Nat.lt_succ_of_lt h
  have htext : ∀ bound id, g.operations.size < bound → g.opTextAux bound 0 id = g.opText id :=
    fun bound id hb => hform.opTextAux_eq bound _ 0 id (by omega) (by omega) (by omega) (by omega)
  have hrun : Outcome (Lift.run ⟨g, naming, c.showOps⟩) (LiftState.start c.target) _ _ :=
    Lift.run_balanced hform hg.ordered c.target
  cases hlift : g.lift naming c with
  | mk r s =>
      refine ⟨r, s, rfl, ?_⟩
      have hlift' := hlift
      unfold Graph.lift at hlift'
      unfold Outcome at hrun
      cases hres : Lift.run ⟨g, naming, c.showOps⟩ (LiftState.start c.target) with
      | ok _ t =>
          rw [hres] at hlift' hrun
          cases hlift'
          obtain ⟨⟨finished, hbal⟩, hnil, hexec⟩ := hrun
          have hserved := hbal.served
          rw [hnil, List.length_nil] at hserved
          have hknown := (Graph.lift_settled hg.built hlift).shown
          refine ⟨nofun, htree, htext, hbal.noted.symm, hbal.noted.trans hbal.enqueued,
            hbal.noted ▸ hbal.le_card, fun _ => ⟨hnil, ?_, hbal.opsLifted_le fun id r hr => ?_⟩⟩
          · rw [hexec, hbal.completed, hbal.noted, hserved, Nat.add_zero]
          · obtain ⟨o, ho, _⟩ := hknown id r hr
            exact ⟨o, ho⟩
      | error e t =>
          rw [hres] at hlift' hrun
          cases hlift'
          obtain ⟨⟨finished, running, hbal⟩, he⟩ := hrun
          exact ⟨fun h => he (Except.error.inj h), htree, htext, hbal.noted.symm,
            hbal.noted.trans hbal.enqueued, hbal.noted ▸ hbal.le_card, nofun⟩

/-- A function with a variable that has an initial value, so that a task puts off another one, and a
variable without an initial value. -/
def seeded : Graph :=
  .build .empty
    [.internType (.integer .int none), .internType (.function [] [0]), .asLvalue 0,
      .createOperation 0 ((OpSpec.ofKind .function).withAttr AttrName.symName (.text "seeded")
        |>.withAttr AttrName.functionType (.type 1)),
      .createRegion 0, .createBlock 1 [],
      .createOperation 1 ((OpSpec.ofKind .var).withResults [2]
        |>.withAttr AttrName.symName (.text "seed")),
      .createRegion 1, .createBlock 2 [],
      .createOperation 2 ((OpSpec.ofKind .constant).withResults [0]
        |>.withAttr AttrName.value (.integer 1)),
      .createOperation 2 ((OpSpec.ofKind .valueYield).withOperands [.result 2 0]),
      .createOperation 1 ((OpSpec.ofKind .returnStmt).withOperands [.result 1 0]),
      .createOperation 0 ((OpSpec.ofKind .var).withResults [2]
        |>.withAttr AttrName.symName (.text "bare"))]

/-- Two of the three declarations put off a task, one of them during the drain. -/
theorem Graph.WellBuilt.lift_ends_seeded :
    seeded.WellBuilt ∧ ∃ s, seeded.lift .standard (.forTarget .host) = (.ok (), s) ∧
      s.stats.deferredEnqueued = 2 ∧ (s.deferred seeded).card = 2 ∧ seeded.declarers.card = 3 ∧
      s.queue.pending = [] ∧ s.stats.deferredExecuted = 2 ∧
      s.stats.opsLifted ≤ seeded.operations.size := by
  have hbuilt : seeded.WellBuilt := wellBuilt_build (by decide +kernel)
  obtain ⟨r, s, hlift, _, _, _, _, hdeferred, _, hok⟩ :=
    Graph.WellBuilt.lift_ends hbuilt .standard (.forTarget .host)
  have hr : (seeded.lift .standard (.forTarget .host)).1 = .ok () := by decide +kernel
  have hcount : (seeded.lift .standard (.forTarget .host)).2.stats.deferredEnqueued = 2 := by
    decide +kernel
  rw [hlift] at hr hcount
  obtain rfl : r = .ok () := hr
  replace hcount : s.stats.deferredEnqueued = 2 := hcount
  obtain ⟨hnil, hexec, hlifted⟩ := hok rfl
  exact ⟨hbuilt, s, hlift, hcount, hdeferred ▸ hcount, by decide +kernel, hnil, hexec ▸ hcount, hlifted⟩

end Readback
