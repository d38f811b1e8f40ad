import Mathlib.Logic.Hydra
import Mathlib.Tactic.Abel
import Readback.Lift.Queue
import Readback.Proofs.Steps

/-! # Tasks are started in the order in which they came

A `Ledger` is a context with a queue, along with a record of what happened to the tasks of the queue. It
has the program's own queue in it, and `Ledger.drain` is the program's own drain of that queue. The
tasks can do anything to the context (`Conduct`, `Deed`); to the queue they only add.

* `Ledger.Reached` are the ledgers that come of any sequence of pushes and drains. In each of them the
  tasks started so far followed by those that wait are all the tasks that ever came, in their order, and
  each of them was carried out, failed or waits (`Ledger.Orderly`, `Ledger.Reached.orderly`).
* A drain ends with an empty queue or with the first task that fails, unless its bound stops it before
  (`Ledger.drain_outcome`, `Ledger.Finished`, `Ledger.Stopped`). `Ledger.Drained` says what has happened
  in between: which tasks were run and what was queued.
* Where no task leads to endless work, some bound never stops a drain (`Ledger.drain_ends`). One task
  may queue any number of others, so the measure is the multiset of the tasks that wait
  (`Relation.CutExpand`).

The main result is `Ledger.Reached.in_order`. `Ledger.Reached.in_order_jobs` applies it to tasks that
are finite trees of jobs, one of which fails. -/

namespace Readback

open Step

/-- What a task does: the context that it leaves, the tasks that it queues, and why it fails. -/
structure Deed (κ τ ε : Type) where
  context : κ
  queued : List τ
  failure : Option ε

/-- What each task does in a context with a queue. -/
abbrev Conduct (κ τ ε : Type) := τ → κ → Queue τ → Deed κ τ ε

/-- A context with a queue, and the tasks that came and those that were started, each in order. -/
structure Ledger (κ τ : Type) where
  context : κ
  queue : Queue τ
  arrived : List τ
  started : List τ
  failed : Nat

namespace Ledger

variable {κ τ ε : Type}

instance : HasQueue (Ledger κ τ) τ where
  queue := Ledger.queue
  setQueue q l := { l with queue := q }

/-- The ledger of a queue that nothing was ever put in. -/
def fresh (context : κ) : Ledger κ τ := ⟨context, .empty, [], [], 0⟩

/-- Puts a task at the end of the queue. -/
def push (l : Ledger κ τ) (t : τ) : Ledger κ τ :=
  { l with queue := l.queue.push t, arrived := l.arrived ++ [t] }

/-- Starts a task. -/
def run (act : Conduct κ τ ε) (t : τ) : EStateM ε (Ledger κ τ) Unit := do
  let l ← get
  let deed := act t l.context l.queue
  set (deed.queued.foldl push { l with context := deed.context, started := l.started ++ [t] })
  match deed.failure with
  | none => return ()
  | some e =>
    modify fun l => { l with failed := l.failed + 1 }
    throw e

/-- Carries out the tasks that wait, as many as the bound allows. -/
def drain (act : Conduct κ τ ε) (unbounded : ε) (bound : Nat) : EStateM ε (Ledger κ τ) Nat :=
  Queue.drain (run act) unbounded bound

/-- The ledgers that some sequence of pushes and drains leads to. -/
inductive Reached (act : Conduct κ τ ε) (unbounded : ε) : Ledger κ τ → Prop where
  | fresh (context : κ) : Reached act unbounded (fresh context)
  | push {l} (reached : Reached act unbounded l) (t : τ) : Reached act unbounded (l.push t)
  | drain {l} (reached : Reached act unbounded l) (bound : Nat) :
      Reached act unbounded (after (drain act unbounded bound) l)

/-- The tasks started so far and those that wait are all that came, and all are accounted for. -/
structure Orderly (l : Ledger κ τ) : Prop where
  order : l.arrived = l.started ++ l.queue.pending
  enqueued : l.queue.enqueued = l.arrived.length
  counted : l.queue.enqueued = l.queue.completed + l.failed + l.queue.size

/-- `Drained l ran failures m`: between `l` and `m` the tasks `ran` were started, of which all but the
given number were completed. They are the first of those that waited and of those that came. -/
structure Drained (l : Ledger κ τ) (ran : List τ) (failures : Nat) (m : Ledger κ τ) : Prop where
  started : m.started = l.started ++ ran
  arrived : ∃ came, m.arrived = l.arrived ++ came ∧
    l.queue.pending ++ came = ran ++ m.queue.pending
  completed : m.queue.completed + failures = l.queue.completed + ran.length
  failed : m.failed = l.failed + failures
  enqueued : m.queue.enqueued + l.arrived.length = l.queue.enqueued + m.arrived.length

/-! ### Steps of a ledger -/

theorem foldl_push (ts : List τ) (l : Ledger κ τ) :
    ts.foldl push l =
      { l with
        queue := ⟨l.queue.pending ++ ts, l.queue.enqueued + ts.length, l.queue.completed⟩
        arrived := l.arrived ++ ts } := by
  induction ts generalizing l with
  | nil => simp
  | cons t ts ih =>
      rw [List.foldl_cons, ih]
      simp [push, Queue.push, Nat.add_assoc, Nat.add_comm 1]

/-- The ledger without the first task that waits. -/
def popped (l : Ledger κ τ) (rest : List τ) : Ledger κ τ :=
  { l with queue := { l.queue with pending := rest } }

/-- The ledger when a task has done what it does. -/
def served (act : Conduct κ τ ε) (t : τ) (l : Ledger κ τ) : Ledger κ τ :=
  let deed := act t l.context l.queue
  deed.queued.foldl push { l with context := deed.context, started := l.started ++ [t] }

/-- The ledger with a task counted as carried out. -/
def completed (l : Ledger κ τ) : Ledger κ τ := { l with queue := l.queue.complete }

section Step

variable {act : Conduct κ τ ε} {unbounded : ε} {l : Ledger κ τ} {t : τ} {rest : List τ}

theorem run_eq (act : Conduct κ τ ε) (t : τ) (l : Ledger κ τ) :
    run act t l = match (act t l.context l.queue).failure with
      | none => .ok () (l.served act t)
      | some e => .error e { l.served act t with failed := (l.served act t).failed + 1 } := by
  unfold run
  rw [get_bind]
  dsimp only
  cases (act t l.context l.queue).failure <;> rfl

/-- One more task was carried out. -/
def counted : EStateM.Result ε (Ledger κ τ) Nat → EStateM.Result ε (Ledger κ τ) Nat
  | .ok n m => .ok (n + 1) m
  | .error e m => .error e m

theorem drainAux_nil (bound count : Nat) (h : l.queue.pending = []) :
    Queue.drainAux (run act) unbounded bound count l = .ok count l := by
  unfold Queue.drainAux
  rw [get_bind, show (HasQueue.queue l).pending = [] from h]
  rfl

theorem drainAux_zero (count : Nat) (h : l.queue.pending = t :: rest) :
    Queue.drainAux (run act) unbounded 0 count l = .error unbounded l := by
  unfold Queue.drainAux
  rw [get_bind, show (HasQueue.queue l).pending = t :: rest from h]
  rfl

theorem drainAux_succ (bound count : Nat) (h : l.queue.pending = t :: rest) :
    Queue.drainAux (run act) unbounded (bound + 1) count l =
      match run act t (l.popped rest) with
      | .ok _ m => Queue.drainAux (run act) unbounded bound (count + 1) m.completed
      | .error e m => .error e m := by
  rw [Queue.drainAux, get_bind, show (HasQueue.queue l).pending = t :: rest from h]
  show EStateM.bind (run act t) (fun _ => EStateM.bind (modify (Queue.update Queue.complete))
    fun _ => Queue.drainAux (run act) unbounded bound (count + 1)) (l.popped rest) = _
  unfold EStateM.bind
  cases run act t (l.popped rest) <;> rfl

/-- What was counted before has no influence on a drain. -/
theorem drainAux_count (bound count : Nat) (l : Ledger κ τ) :
    Queue.drainAux (run act) unbounded bound (count + 1) l =
      counted (Queue.drainAux (run act) unbounded bound count l) := by
  induction bound generalizing count l with
  | zero =>
      cases h : l.queue.pending with
      | nil => rw [drainAux_nil _ _ h, drainAux_nil _ _ h]; rfl
      | cons t rest => rw [drainAux_zero _ h, drainAux_zero _ h]; rfl
  | succ bound ih =>
      cases h : l.queue.pending with
      | nil => rw [drainAux_nil _ _ h, drainAux_nil _ _ h]; rfl
      | cons t rest =>
          rw [drainAux_succ _ _ h, drainAux_succ _ _ h]
          cases run act t (l.popped rest) with
          | ok _ m => exact ih (count + 1) m.completed
          | error e m => rfl

theorem drain_nil (bound : Nat) (h : l.queue.pending = []) :
    drain act unbounded bound l = .ok 0 l := drainAux_nil bound 0 h

theorem drain_zero (h : l.queue.pending = t :: rest) :
    drain act unbounded 0 l = .error unbounded l := drainAux_zero 0 h

theorem drain_succ (bound : Nat) (h : l.queue.pending = t :: rest) :
    drain act unbounded (bound + 1) l =
      match run act t (l.popped rest) with
      | .ok _ m => counted (drain act unbounded bound m.completed)
      | .error e m => .error e m := by
  unfold drain Queue.drain
  rw [drainAux_succ bound 0 h]
  cases run act t (l.popped rest) with
  | ok _ m => exact drainAux_count bound 0 m.completed
  | error e m => rfl

theorem run_ok {m : Ledger κ τ} {u : Unit} (h : run act t l = .ok u m) : m = l.served act t := by
  rw [run_eq] at h
  split at h <;> cases h
  rfl

/-! ### What a drain does -/

theorem Drained.refl (l : Ledger κ τ) : l.Drained [] 0 l :=
  ⟨by simp, ⟨[], by simp, by simp⟩, rfl, rfl, rfl⟩

theorem Drained.trans {m n : Ledger κ τ} {ran ran' : List τ} {f f' : Nat} (h : l.Drained ran f m)
    (h' : m.Drained ran' f' n) : l.Drained (ran ++ ran') (f + f') n := by
  obtain ⟨came, hcame, hpending⟩ := h.arrived
  obtain ⟨came', hcame', hpending'⟩ := h'.arrived
  have hc := h.completed
  have hc' := h'.completed
  have he := h.enqueued
  have he' := h'.enqueued
  refine ⟨?_, ⟨came ++ came', ?_, ?_⟩, ?_, ?_, ?_⟩
  · rw [h'.started, h.started, List.append_assoc]
  · rw [hcame', hcame, List.append_assoc]
  · rw [← List.append_assoc, hpending, List.append_assoc, hpending', List.append_assoc]
  · rw [List.length_append]
    omega
  · rw [h'.failed, h.failed, Nat.add_assoc]
  · omega

theorem Orderly.drained {m : Ledger κ τ} {ran : List τ} {f : Nat} (h : l.Orderly)
    (hd : l.Drained ran f m) : m.Orderly := by
  obtain ⟨came, hcame, hpending⟩ := hd.arrived
  have order : m.arrived = m.started ++ m.queue.pending := by
    rw [hcame, h.order, List.append_assoc, hpending, hd.started, List.append_assoc]
  have hl := congrArg List.length h.order
  have hm := congrArg List.length order
  have hs := congrArg List.length hd.started
  have hc := hd.completed
  have hf := hd.failed
  have he := hd.enqueued
  have hle := h.enqueued
  have hlc := h.counted
  simp only [Queue.size, List.length_append] at hl hm hs hlc
  refine ⟨order, by omega, ?_⟩
  rw [Queue.size]
  omega

/-- A task that has done what it does was the first that waited. -/
theorem served_drained (act : Conduct κ τ ε) (h : l.queue.pending = t :: rest) :
    l.Drained [t] 0 ((l.popped rest).served act t).completed := by
  refine ⟨?_, ⟨(act t l.context (l.popped rest).queue).queued, ?_, ?_⟩, ?_, ?_, ?_⟩ <;>
    simp [completed, served, popped, foldl_push, Queue.complete, h]
  omega

theorem failed_drained (act : Conduct κ τ ε) (h : l.queue.pending = t :: rest) :
    l.Drained [t] 1 { (l.popped rest).served act t with
      failed := ((l.popped rest).served act t).failed + 1 } := by
  refine ⟨?_, ⟨(act t l.context (l.popped rest).queue).queued, ?_, ?_⟩, ?_, ?_, ?_⟩ <;>
    simp [served, popped, foldl_push, h]
  omega

/-- The first task that waits in `l` is `t`, and it fails with `e`, which leaves `m`. -/
def Fails (act : Conduct κ τ ε) (l : Ledger κ τ) (t : τ) (e : ε) (m : Ledger κ τ) : Prop :=
  ∃ rest, l.queue.pending = t :: rest ∧ run act t (l.popped rest) = .error e m

theorem Fails.drained {m : Ledger κ τ} {e : ε} (h : Fails act l t e m) : l.Drained [t] 1 m := by
  obtain ⟨rest, hpending, hrun⟩ := h
  rw [run_eq] at hrun
  split at hrun
  · cases hrun
  · cases hrun
    exact failed_drained act hpending

/-- A drain that its bound did not stop: it ended with an empty queue or with the first task that
fails. -/
def Finished (act : Conduct κ τ ε) (l : Ledger κ τ) : EStateM.Result ε (Ledger κ τ) Nat → Prop
  | .ok n m => ∃ ran, ran.length = n ∧ l.Drained ran 0 m ∧ m.queue.pending = []
  | .error e m => ∃ ran k t, l.Drained ran 0 k ∧ Fails act k t e m

/-- A drain that its bound stopped while tasks waited. -/
def Stopped (unbounded : ε) (bound : Nat) (l : Ledger κ τ)
    (res : EStateM.Result ε (Ledger κ τ) Nat) : Prop :=
  ∃ ran m, res = .error unbounded m ∧ ran.length = bound ∧ l.Drained ran 0 m ∧ m.queue.pending ≠ []

theorem Finished.counted {m : Ledger κ τ} {res : EStateM.Result ε (Ledger κ τ) Nat}
    (first : l.Drained [t] 0 m) (h : Finished act m res) : Finished act l (counted res) := by
  cases res with
  | ok n u =>
      obtain ⟨ran, hn, hd, hnil⟩ := h
      exact ⟨t :: ran, by rw [List.length_cons, hn], first.trans hd, hnil⟩
  | error e u =>
      obtain ⟨ran, k, v, hd, hfail⟩ := h
      exact ⟨t :: ran, k, v, first.trans hd, hfail⟩

theorem drain_outcome (act : Conduct κ τ ε) (unbounded : ε) (bound : Nat) (l : Ledger κ τ) :
    Finished act l (drain act unbounded bound l) ∨
      Stopped unbounded bound l (drain act unbounded bound l) := by
  induction bound generalizing l with
  | zero =>
      cases h : l.queue.pending with
      | nil =>
          rw [drain_nil 0 h]
          exact .inl ⟨[], rfl, .refl l, h⟩
      | cons t rest =>
          rw [drain_zero h]
          exact .inr ⟨[], l, rfl, rfl, .refl l, by simp [h]⟩
  | succ bound ih =>
      cases h : l.queue.pending with
      | nil =>
          rw [drain_nil _ h]
          exact .inl ⟨[], rfl, .refl l, h⟩
      | cons t rest =>
          rw [drain_succ bound h]
          cases hrun : run act t (l.popped rest) with
          | error e m => exact .inl ⟨[], l, t, .refl l, rest, h, hrun⟩
          | ok _ m =>
              have first : l.Drained [t] 0 m.completed := run_ok hrun ▸ served_drained act h
              obtain hfin | ⟨ran, u, hres, hlen, hd, hne⟩ := ih m.completed
              · exact .inl (hfin.counted first)
              · refine .inr ⟨t :: ran, u, ?_, by rw [List.length_cons, hlen], first.trans hd, hne⟩
                show counted _ = _
                rw [hres]
                rfl

theorem Orderly.drain (h : l.Orderly) (bound : Nat) :
    (after (drain act unbounded bound) l).Orderly := by
  have hout := drain_outcome act unbounded bound l
  unfold after
  cases hres : Ledger.drain act unbounded bound l with
  | ok n m =>
      rw [hres] at hout
      obtain ⟨ran, _, hd, _⟩ | ⟨_, _, heq, _⟩ := hout
      · exact h.drained hd
      · cases heq
  | error e m =>
      rw [hres] at hout
      obtain ⟨ran, k, t, hd, hfail⟩ | ⟨ran, _, heq, _, hd, _⟩ := hout
      · exact (h.drained hd).drained hfail.drained
      · cases heq
        exact h.drained hd

/-! ### Whole histories -/

theorem orderly_fresh (context : κ) : (fresh context : Ledger κ τ).Orderly := ⟨rfl, rfl, rfl⟩

theorem Orderly.push (h : l.Orderly) (t : τ) : (l.push t).Orderly := by
  have hc := h.counted
  refine ⟨?_, ?_, ?_⟩
  · simp [Ledger.push, Queue.push, h.order]
  · simp [Ledger.push, Queue.push, h.enqueued]
  · simp only [Ledger.push, Queue.push, Queue.size, List.length_append, List.length_singleton] at hc ⊢
    omega

theorem Reached.orderly (h : l.Reached act unbounded) : l.Orderly := by
  induction h with
  | fresh context => exact orderly_fresh context
  | push _ t ih => exact ih.push t
  | drain _ bound ih => exact ih.drain bound

/-! ### Drains that end -/

/-- Carrying out `t` may queue `u`. -/
def Spawns (act : Conduct κ τ ε) (u t : τ) : Prop :=
  ∃ context queue, u ∈ (act t context queue).queued

/-- `Spawns` between tasks that do not lead to endless work. -/
def SpawnsFinitely (act : Conduct κ τ ε) (u t : τ) : Prop := Spawns act u t ∧ Acc (Spawns act) t

instance (act : Conduct κ τ ε) : Std.Irrefl (SpawnsFinitely act) where
  irrefl t h := by
    obtain ⟨hself, hacc⟩ := h
    induction hacc with
    | intro t _ ih => exact ih t hself hself

/-- The tasks that wait are cut down one at a time, each to finitely many that follow from it. -/
theorem acc_pending (h : ∀ t ∈ l.queue.pending, Acc (Spawns act) t) :
    Acc (Relation.CutExpand (SpawnsFinitely act)) (l.queue.pending : Multiset τ) := by
  refine Relation.acc_of_singleton fun t ht => Acc.cutExpand ?_
  exact Subrelation.accessible (fun hr => hr.1) (h t (Multiset.mem_coe.mp ht))

/-- The bound does not matter from some number on, and does not stop the drain. -/
theorem drain_ends (unbounded : ε) (h : ∀ t ∈ l.queue.pending, Acc (Spawns act) t) :
    ∃ enough, Finished act l (drain act unbounded enough l) ∧
      ∀ bound, enough ≤ bound → drain act unbounded bound l = drain act unbounded enough l := by
  generalize hw : (l.queue.pending : Multiset τ) = w
  have hacc : Acc (Relation.CutExpand (SpawnsFinitely act)) w := hw ▸ acc_pending h
  induction hacc generalizing l with
  | intro w _ ih =>
      subst hw
      cases hp : l.queue.pending with
      | nil =>
          refine ⟨0, ?_, fun bound _ => by rw [drain_nil _ hp, drain_nil _ hp]⟩
          rw [drain_nil 0 hp]
          exact ⟨[], rfl, .refl l, hp⟩
      | cons t rest =>
          cases hrun : run act t (l.popped rest) with
          | error e m =>
              refine ⟨1, ?_, fun bound hb => ?_⟩
              · rw [drain_succ 0 hp, hrun]
                exact ⟨[], l, t, .refl l, rest, hp, hrun⟩
              · obtain ⟨bound, rfl⟩ : ∃ k, bound = k + 1 := ⟨bound - 1, by omega⟩
                rw [drain_succ _ hp, drain_succ _ hp, hrun]
          | ok _ m =>
              have first : l.Drained [t] 0 m.completed := run_ok hrun ▸ served_drained act hp
              have hm : m.completed.queue.pending =
                  rest ++ (act t l.context (l.popped rest).queue).queued := by
                rw [run_ok hrun]
                simp [completed, served, popped, foldl_push, Queue.complete]
              rw [hp] at h
              have ht := h t List.mem_cons_self
              have hrest : ∀ u ∈ m.completed.queue.pending, Acc (Spawns act) u := by
                intro u hu
                rw [hm] at hu
                obtain hu | hu := List.mem_append.mp hu
                · exact h u (List.mem_cons_of_mem t hu)
                · exact ht.inv ⟨_, _, hu⟩
              have hcut : Relation.CutExpand (SpawnsFinitely act)
                  (m.completed.queue.pending : Multiset τ) (l.queue.pending : Multiset τ) := by
                refine ⟨((act t l.context (l.popped rest).queue).queued : Multiset τ), t, ?_, ?_⟩
                · exact fun u hu => ⟨⟨_, _, Multiset.mem_coe.mp hu⟩, ht⟩
                · rw [hm, hp, ← Multiset.coe_add, ← Multiset.cons_coe, ← Multiset.singleton_add]
                  abel
              obtain ⟨enough, hfin, hsame⟩ := ih _ hcut hrest rfl
              refine ⟨enough + 1, ?_, fun bound hb => ?_⟩
              · rw [drain_succ _ hp, hrun]
                exact hfin.counted first
              · obtain ⟨bound, rfl⟩ : ∃ k, bound = k + 1 := ⟨bound - 1, by omega⟩
                rw [drain_succ _ hp, drain_succ _ hp, hrun]
                simp only [hsame bound (by omega)]

end Step

/-- Whatever happened before, the tasks started so far are the first of all that came, in the order in
which they came, and every task is completed, failed or waits. A further drain that succeeds ran as
many tasks as it says and leaves none. One that fails completed some tasks and failed with the next
one, which is gone while those behind it wait, unless its bound stopped it; and no drain needs more
than some bound if no task that waits leads to endless work. -/
theorem Reached.in_order {act : Conduct κ τ ε} {unbounded : ε} {l : Ledger κ τ}
    (h : l.Reached act unbounded) :
    l.arrived = l.started ++ l.queue.pending ∧
      l.queue.enqueued = l.arrived.length ∧
      l.queue.enqueued = l.queue.completed + l.failed + l.queue.size ∧
      (∀ bound n m, Ledger.drain act unbounded bound l = .ok n m →
        ∃ ran, ran.length = n ∧ l.Drained ran 0 m ∧ m.queue.pending = []) ∧
      (∀ bound e m, Ledger.drain act unbounded bound l = .error e m →
        (∃ ran k t, l.Drained ran 0 k ∧ Fails act k t e m ∧ k.Drained [t] 1 m) ∨
          e = unbounded ∧ ∃ ran, ran.length = bound ∧ l.Drained ran 0 m) ∧
      ((∀ t ∈ l.queue.pending, Acc (Spawns act) t) → ∃ enough,
        Finished act l (Ledger.drain act unbounded enough l) ∧
        ∀ bound, enough ≤ bound →
          Ledger.drain act unbounded bound l = Ledger.drain act unbounded enough l) := by
  have ho := h.orderly
  refine ⟨ho.order, ho.enqueued, ho.counted, fun bound n m hres => ?_, fun bound e m hres => ?_,
    drain_ends unbounded⟩
  · obtain hfin | ⟨_, _, heq, _⟩ := drain_outcome act unbounded bound l
    · rw [hres] at hfin
      exact hfin
    · cases hres.symm.trans heq
  · obtain hfin | ⟨ran, _, heq, hlen, hd, _⟩ :=
      drain_outcome act unbounded bound l
    · rw [hres] at hfin
      obtain ⟨ran, k, t, hd, hfail⟩ := hfin
      exact .inl ⟨ran, k, t, hd, hfail, hfail.drained⟩
    · cases hres.symm.trans heq
      exact .inr ⟨rfl, ran, hlen, hd⟩

end Ledger

/-! ### Jobs -/

namespace Job

variable {α ε : Type}

/-- What a job does where the context is the journal. -/
def conduct : Conduct (List α) (Job α ε) ε
  | .mk label spawned failure, journal, _ => ⟨journal ++ [label], spawned, failure⟩

/-- A job is a finite tree, so that no job leads to endless work. -/
theorem acc_spawns : (j : Job α ε) → Acc (Ledger.Spawns conduct) j
  | .mk _ spawned _ => ⟨_, fun u hu => by
      obtain ⟨_, _, hu⟩ := hu
      have hmem : u ∈ spawned := hu
      have := List.sizeOf_lt_of_mem hmem
      exact acc_spawns u⟩
termination_by j => sizeOf j

end Job

/-- Two jobs, of which the first queues a third one and the second fails: the drain stops there, and
the third is left for the next one. -/
theorem Ledger.Reached.in_order_jobs :
    let first : Job Nat Unit := .mk 1 [.mk 3 [] none] none
    let second : Job Nat Unit := .mk 2 [] (some ())
    let l := after (Ledger.drain Job.conduct () 5) (((Ledger.fresh []).push first).push second)
    l.context = [1, 2] ∧ l.queue.completed = 1 ∧ l.failed = 1 ∧ l.queue.size = 1 ∧
      l.arrived = l.started ++ l.queue.pending ∧
      ∃ enough, Ledger.Finished Job.conduct l (Ledger.drain Job.conduct () enough l) := by
  intro first second l
  have hl : l.Reached Job.conduct () := (((Reached.fresh []).push first).push second).drain 5
  obtain ⟨horder, _, _, _, _, hends⟩ := Reached.in_order hl
  obtain ⟨enough, hfin, _⟩ := hends fun t _ => t.acc_spawns
  exact ⟨by decide +kernel, by decide +kernel, by decide +kernel, by decide +kernel, horder, enough,
    hfin⟩

end Readback
