import Readback.Proofs.Lift.Termination

/-! # Sweeps over the queue

Lifting only puts tasks at the end of the queue (`Lift.task_appends`). So a drain first carries out the
tasks that wait, in their order, before it comes to those that these put off: it is a sweep over what
waits and then the drain of what came (`Lift.drainAux_eq_sweep`).

`Lift.sweep` carries out the given tasks and leaves the counting to the queue: a sweep over tasks that
wait completes as many (`Lift.sweep_balanced`). It is how a drain is cut into rounds where two drains
are compared whose tasks come in different orders. -/

namespace Readback

open Step LiftState

/-- The account of runs that put tasks at the end of the queue only. -/
def appending (g : Graph) : Account g where
  done _ s t := s.queue.pending <+: t.queue.pending
  failed _ _ _ := True
  idle {_ t} h := by
    have hqueue : t.queue = _ := congrArg Tables.queue (tables_of_records h)
    rw [hqueue]
    exact List.prefix_rfl
  append h h' := h.trans h'
  fails _ _ := trivial
  later _ _ := trivial

theorem appending_free (g : Graph) : (appending g).Free := fun {_ t} h => by
  have hqueue : t.queue = _ := congrArg Tables.queue h
  show _ <+: t.queue.pending
  rw [hqueue]
  exact List.prefix_rfl

namespace Lift

variable {env : LiftEnv}

theorem opAux_appends (bound : Nat) (scope : Scope) (id : OpId) :
    (appending env.graph).Follows [] (opAux env bound scope id) := by
  induction bound generalizing scope id with
  | zero =>
      unfold opAux
      refine .get_bind fun s => ?_
      split
      · exact List.prefix_rfl
      · trivial
  | succ bound ih =>
      intro s
      cases hs : s.opStmt.get? id with
      | some r =>
          rw [Outcome, opAux_hit hs]
          exact List.prefix_rfl
      | none =>
          refine opAux_outcome hs ?_
          cases ho : env.graph.op? id with
          | none =>
              rw [Outcome, rule_missing ho]
              trivial
          | some o =>
              by_cases hk : o.kind? = some .function ∨ o.kind? = some .var
              · refine (rule_declares ho hk s).mono ?_ fun _ _ _ => trivial
                rintro r t ⟨d, task, -, ht⟩
                have hqueue : t.queue = _ := congrArg Tables.queue ht
                show _ <+: t.queue.pending
                rw [hqueue]
                cases task with
                | none => exact List.prefix_rfl
                | some task => exact List.prefix_append _ _
              · rw [not_or] at hk
                have hrecord : (appending env.graph).Follows [] (record env scope o) :=
                  record_follows (appending_free _) (fun _ _ => List.prefix_rfl)
                    fun _ _ _ _ => List.prefix_rfl
                have hinner : o.isDeclaration = false →
                    [] = (env.graph.innerOps o).flatMap (fun _ => ([] : List OpId)) ∧
                      ∀ c ∈ env.graph.innerOps o,
                        (appending env.graph).Follows ((fun _ => []) c) (opAux env bound scope c) :=
                  fun _ => ⟨by simp, fun c _ => ih scope c⟩
                exact rule_follows ho (fun h => absurd h hk.1) (fun h => absurd h hk.2)
                  (fun _ => hrecord) hinner s

theorem task_appends (t : Task) : (appending env.graph).Follows [] (task env t) :=
  task_follows t fun id _ => opAux_appends _ _ id

/-! ### Sweeps -/

/-- Takes the first task from the queue and carries out the given one. -/
def carry (env : LiftEnv) (t : Task) : Lift PUnit := do
  modify (Queue.update fun q => { q with pending := q.pending.tail })
  task env t
  modify (Queue.update Queue.complete)

/-- Carries out tasks in their order. -/
def sweep (env : LiftEnv) : List Task → Lift PUnit
  | [] => return ⟨⟩
  | t :: ts => do
    carry env t
    sweep env ts

/-- The state without its first task. -/
def popped (s : LiftState) (rest : List Task) : LiftState :=
  { s with queue := { s.queue with pending := rest } }

theorem carry_eq {s : LiftState} {x : Task} {rest : List Task} (h : s.queue.pending = x :: rest)
    (t : Task) : carry env t s = match task env t (popped s rest) with
      | .ok _ u => .ok () { u with queue := u.queue.complete }
      | .error e u => .error e u := by
  have hpop : Queue.update (fun q => { q with pending := q.pending.tail }) s = popped s rest := by
    show { s with queue := { s.queue with pending := s.queue.pending.tail } } = _
    rw [h]
    rfl
  show EStateM.bind (task env t) _ (Queue.update _ s) = _
  rw [hpop]
  unfold EStateM.bind
  cases task env t (popped s rest) <;> rfl

variable (env) in
/-- Carrying out a task leaves those behind it in the queue, and puts others after them. -/
theorem carry_outcome {s : LiftState} {x : Task} {rest : List Task}
    (h : s.queue.pending = x :: rest) (t : Task) :
    Outcome (carry env t) s (fun _ u => ∃ came, u.queue.pending = rest ++ came) fun _ _ => True := by
  have htask : Outcome (task env t) (popped s rest) _ _ := task_appends t (popped s rest)
  unfold Outcome at htask ⊢
  rw [carry_eq h]
  cases hrun : task env t (popped s rest) with
  | ok _ u =>
      rw [hrun] at htask
      obtain ⟨came, hcame⟩ := htask
      exact ⟨came, hcame.symm⟩
  | error e u => trivial

/-- One round of a drain. -/
theorem drainAux_eq_carry {s : LiftState} {t : Task} {rest : List Task}
    (h : s.queue.pending = t :: rest) (n count : Nat) :
    Queue.drainAux (task env) LiftError.unbounded (n + 1) count s =
      (do carry env t; Queue.drainAux (task env) LiftError.unbounded n (count + 1)) s := by
  have hleft : Queue.drainAux (task env) LiftError.unbounded (n + 1) count s =
      (do
        task env t
        modify (Queue.update Queue.complete)
        Queue.drainAux (task env) LiftError.unbounded n (count + 1)) (popped s rest) := by
    rw [Queue.drainAux, get_bind, show (HasQueue.queue s).pending = t :: rest from h]
    rfl
  rw [hleft]
  show EStateM.bind (task env t) _ (popped s rest) = EStateM.bind (carry env t) _ s
  unfold EStateM.bind
  rw [carry_eq h]
  cases task env t (popped s rest) <;> rfl

theorem drainAux_nil {s : LiftState} (h : s.queue.pending = []) (n count : Nat) :
    Queue.drainAux (task env) LiftError.unbounded n count s = .ok count s := by
  rw [Queue.drainAux, get_bind, show (HasQueue.queue s).pending = [] from h]
  rfl

/-- A drain is a sweep over tasks that wait, followed by the drain of what is left. -/
theorem drainAux_eq_sweep (ts : List Task) {rest : List Task} (n count : Nat) {s : LiftState}
    (h : s.queue.pending = ts ++ rest) :
    Queue.drainAux (task env) LiftError.unbounded (n + ts.length) count s =
      (do
        sweep env ts
        Queue.drainAux (task env) LiftError.unbounded n (count + ts.length)) s := by
  induction ts generalizing s rest count with
  | nil => rfl
  | cons t ts ih =>
      rw [List.cons_append] at h
      have hcarry := carry_outcome env h t
      rw [List.length_cons, ← Nat.add_assoc, drainAux_eq_carry h, sweep, bind_assoc]
      show EStateM.bind (carry env t) _ s = EStateM.bind (carry env t) _ s
      unfold EStateM.bind
      unfold Outcome at hcarry
      cases hrun : carry env t s with
      | ok _ u =>
          rw [hrun] at hcarry
          obtain ⟨came, hcame⟩ := hcarry
          rw [List.append_assoc] at hcame
          have hnext := ih (count + 1) hcame
          rw [Nat.add_assoc, Nat.add_comm 1] at hnext
          exact hnext
      | error e u => rfl

/-- A sweep over tasks that wait completes as many. -/
theorem sweep_balanced (hacyclic : env.graph.Acyclic) (ts : List Task) {rest : List Task}
    {finished : Nat} {s : LiftState} (h : s.queue.pending = ts ++ rest)
    (hbal : Balanced env.graph finished 0 s) :
    Outcome (sweep env ts) s (fun _ t => Balanced env.graph (finished + ts.length) 0 t)
      fun _ _ => True := by
  induction ts generalizing s rest finished with
  | nil => exact hbal
  | cons t ts ih =>
      rw [List.cons_append] at h
      refine Outcome.bind (P := fun _ u => Balanced env.graph (finished + 1) 0 u ∧
        ∃ came, u.queue.pending = ts ++ rest ++ came) ?_ fun _ u ⟨hu, came, hcame⟩ => ?_
      · have hcarry := carry_outcome env h t
        have hbalancing : (balancing env.graph finished 1).Follows [] (task env t) :=
          task_balancing hacyclic t
        have htask := hbalancing (popped s (ts ++ rest))
        unfold Outcome at hcarry htask ⊢
        rw [carry_eq h] at hcarry ⊢
        cases hrun : task env t (popped s (ts ++ rest)) with
        | ok _ u =>
            rw [hrun] at hcarry htask
            exact ⟨(htask (hbal.pop h)).complete, hcarry⟩
        | error e u => trivial
      · rw [List.append_assoc] at hcame
        rw [List.length_cons, Nat.add_comm ts.length, ← Nat.add_assoc]
        exact ih hcame hu

end Lift

end Readback
