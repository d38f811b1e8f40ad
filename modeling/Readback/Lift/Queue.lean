/-! # Deferred work

A queue of tasks that are carried out first in, first out. Carrying out a task may put further tasks
at the end of the very queue that is being drained. A task that fails is gone, the tasks behind it
stay queued, and a later drain goes on with them.

`Queue` works with any state that holds a queue. `Job` is a task that is known in full beforehand:
it writes its label into a journal, queues other jobs and then succeeds or fails. -/

namespace Readback

/-- Tasks that wait, with the number of tasks that ever came and that were carried out. -/
structure Queue (τ : Type) where
  pending : List τ
  enqueued : Nat
  completed : Nat
deriving DecidableEq

namespace Queue

variable {τ : Type}

/-- The queue that nothing was ever put in. -/
def empty : Queue τ := ⟨[], 0, 0⟩

instance : Inhabited (Queue τ) := ⟨empty⟩

/-- The number of tasks that wait. -/
def size (q : Queue τ) : Nat := q.pending.length

/-- Whether no task waits. -/
def isEmpty (q : Queue τ) : Bool := q.pending.isEmpty

/-- Puts a task at the end. -/
def push (q : Queue τ) (t : τ) : Queue τ :=
  { q with pending := q.pending ++ [t], enqueued := q.enqueued + 1 }

/-- Counts a task as carried out. -/
def complete (q : Queue τ) : Queue τ := { q with completed := q.completed + 1 }

end Queue

/-- States that hold a queue of tasks. -/
class HasQueue (σ : Type) (τ : outParam Type) where
  queue : σ → Queue τ
  setQueue : Queue τ → σ → σ

namespace Queue

variable {σ τ ε : Type} [HasQueue σ τ]

/-- Changes the queue of a state. -/
def update (f : Queue τ → Queue τ) (s : σ) : σ :=
  HasQueue.setQueue (f (HasQueue.queue s)) s

/-- Carries out waiting tasks from the front until none is left or one fails, and counts them. The
number bounds how many there are; a queue that outlasts it fails with `unbounded`. -/
def drainAux (run : τ → EStateM ε σ Unit) (unbounded : ε) : Nat → Nat → EStateM ε σ Nat
  | bound, count => do
    match (HasQueue.queue (← get)).pending with
    | [] => return count
    | t :: rest =>
      match bound with
      | 0 => throw unbounded
      | bound + 1 =>
        modify (update fun q => { q with pending := rest })
        run t
        modify (update Queue.complete)
        drainAux run unbounded bound (count + 1)

/-- Drains the queue of the state. -/
def drain (run : τ → EStateM ε σ Unit) (unbounded : ε) (bound : Nat) : EStateM ε σ Nat :=
  drainAux run unbounded bound 0

end Queue

/-! ### Jobs -/

/-- A task that notes its label, queues further jobs, and fails if it has a failure. -/
inductive Job (α ε : Type) where
  | mk (label : α) (spawned : List (Job α ε)) (failure : Option ε)
deriving Inhabited

namespace Job

variable {α ε : Type}

mutual

/-- The number of jobs that a job stands for: itself and all that it will queue. -/
def total : Job α ε → Nat
  | .mk _ spawned _ => totals spawned + 1

/-- The number of jobs that several jobs stand for. -/
def totals : List (Job α ε) → Nat
  | [] => 0
  | j :: rest => j.total + totals rest

end

end Job

/-- A queue of jobs and the labels of the jobs that were started, latest last. -/
structure Workshop (α ε : Type) where
  queue : Queue (Job α ε)
  journal : List α

namespace Workshop

variable {α ε : Type}

/-- A workshop where nothing has happened yet. -/
def empty : Workshop α ε := ⟨.empty, []⟩

instance : HasQueue (Workshop α ε) (Job α ε) where
  queue := Workshop.queue
  setQueue q s := { s with queue := q }

/-- Starts a job. -/
def run : Job α ε → EStateM ε (Workshop α ε) Unit
  | .mk label spawned failure => do
    modify fun s => { s with journal := s.journal ++ [label] }
    modify (Queue.update fun q => spawned.foldl Queue.push q)
    match failure with
    | some e => throw e
    | none => return ()

/-- Carries out all jobs that wait. There are no more of them than they stand for. -/
def drain (unbounded : ε) : EStateM ε (Workshop α ε) Nat := do
  Queue.drain run unbounded (Job.totals (← get).queue.pending)

end Workshop

end Readback
