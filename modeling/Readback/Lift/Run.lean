import Readback.Lift.Decl

/-! # Lifting a graph

A lift has two phases. The first walks the operations of the body and declares all functions,
variables and records. The second carries out the tasks that the first put off, so that a body may
refer to any declaration, wherever it stands.

Each operation is lifted at most once: lifting it again gives what it became the first time. -/

namespace Readback

namespace Lift

/-- Lifts an operation by the rule for its kind; `lift` lifts the operations in its regions. -/
def rule (env : LiftEnv) (lift : OpLifter) (scope : Scope) (id : OpId) : Lift (Option StmtId) := do
  let o ← operation env id
  match o.kind? with
  | none =>
    if o.name.text = Registry.scopeName then some <$> innerScope env lift scope o
    else throw (env.noRule o)
  | some kind =>
    match kind with
    | .translationUnit =>
      (o.regions.flatMap env.graph.regionOps).forM fun op => do
        let _ ← lift scope op
      return none
    | .function =>
      function env scope o
      return none
    | .var => var env scope o
    | .record => record env scope o
    | .typeAlias =>
      let _ ← chooseName env .typeAlias o 0
      return none
    | .enumeration =>
      let _ ← chooseName env .enumeration o 0
      return none
    | .enumerator =>
      let _ ← chooseName env .enumerator o 0
      return none
    | .ifStmt => some <$> ifElse env lift scope o
    | .whileStmt => some <$> whileLoop env lift scope o
    | .doStmt => some <$> doLoop env lift scope o
    | .forStmt => some <$> forLoop env lift scope o
    | .returnStmt => some <$> returns env scope o
    | .breakStmt => some <$> typed (Check.pushStmt .breaks)
    | .continueStmt => some <$> typed (Check.pushStmt .continues)
    | .skip => some <$> typed (Check.pushStmt .empty)
    | .expression =>
      let e ← wrapper env lift scope o
      return some ((← program).expr e).stmt
    | _ =>
      let e ← simpleExpr env o kind
      return some ((← program).expr e).stmt

/-- Lifts an operation unless it has been lifted before. The number bounds the depth of the nesting.
-/
def opAux (env : LiftEnv) : Nat → OpLifter
  | bound, scope, id => do
    match (← get).opStmt.get? id with
    | some lifted =>
      modify fun s => { s with stats := { s.stats with memoHits := s.stats.memoHits + 1 } }
      return lifted
    | none =>
      match bound with
      | 0 => throw .unbounded
      | bound + 1 =>
        let lifted ← rule env (opAux env bound) scope id
        modify fun s =>
          { s with
            opStmt := s.opStmt.insert id lifted
            stats := { s.stats with opsLifted := s.stats.opsLifted + 1 } }
        return lifted

/-- Lifts an operation. Operations that do not contain themselves are nested no deeper than there
are operations. -/
def op (env : LiftEnv) : OpLifter := opAux env (env.graph.operations.size + 1)

/-- Carries out a task. -/
def task (env : LiftEnv) : Task → Lift Unit
  | .body function region => do
    let body ← compound env (op env) (.function function) region
    typed (Check.setBody function body)
  | .init scope var region => do
    let init ← yielded env (op env) scope region
    typed (Check.setInit var init)

/-- Carries out all tasks that wait. Each operation puts off at most one. -/
def drain (env : LiftEnv) : Lift Nat := fun s =>
  let note := fun (s : LiftState) =>
    { s with stats := { s.stats with deferredExecuted := s.queue.completed } }
  match Queue.drain (task env) LiftError.unbounded (env.graph.operations.size + s.queue.size) s with
  | .ok count s => .ok count (note s)
  | .error e s => .error e (note s)

/-- Lifts the whole graph. -/
def run (env : LiftEnv) : Lift Unit := do
  env.graph.topLevelOps.forM fun id => do
    let _ ← op env .file id
  let _ ← drain env

end Lift

/-- Settings of a lift. -/
structure LiftConfig where
  target : Target
  /-- Whether messages show the operation that they are about. -/
  showOps : Bool
deriving DecidableEq, Inhabited

/-- The settings for a target, with operations shown in messages. -/
def LiftConfig.forTarget (target : Target) : LiftConfig := ⟨target, true⟩

/-- Lifts a graph. Gives the final state along with the failure, if there is one. -/
def Graph.lift (g : Graph) (naming : Naming) (c : LiftConfig) :
    Except LiftError Unit × LiftState :=
  match Lift.run ⟨g, naming, c.showOps⟩ (LiftState.start c.target) with
  | .ok _ s => (.ok (), s)
  | .error e s => (.error e, s)

end Readback
