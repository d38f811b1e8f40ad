import Readback.Graph.Listing
import Readback.Lift.Queue
import Readback.Typing.Decl
import Readback.Typing.Stmt

/-! # The state of a lift

A lift reads a graph and builds a program. Its state ties the two together: which statement or
declaration each operation became, which parameter each block argument is, and which type each type
of the graph became. Bodies of functions and initial values of variables are put off until all
declarations exist; until then they wait as tasks. -/

namespace Readback

/-! ### Failures -/

/-- Why a lift fails. -/
inductive LiftError where
  | unsupportedType (type : String)
  | unsupportedCast (conversion : String) (op : String)
  | unsupportedAttribute (name : String) (op : String)
  | unresolved (value : String)
  | noRule (kind : Option Kind) (name : String) (dump : String)
  | malformed (message : String)
  | typing (fault : Fault)
  | unbounded
deriving DecidableEq, Inhabited

/-- The message of a failure. -/
def LiftError.message : LiftError → String
  | .unsupportedType type => "Unsupported type: " ++ type
  | .unsupportedCast conversion op => "Unsupported cast kind " ++ conversion ++ " in " ++ op
  | .unsupportedAttribute name op => "Unsupported attribute " ++ name ++ " on " ++ op
  | .unresolved value => "Unresolved value: " ++ value
  | .noRule kind name dump =>
    "No lifter for " ++ Kind.titleOf kind ++ " operation '" ++ name ++ "'" ++ dump
  | .malformed message => "Malformed module: " ++ message
  | .typing fault => "AST construction failed: " ++ fault.message
  | .unbounded => "Malformed module: an operation contains itself"

/-! ### Names -/

/-- What a name is chosen for. -/
inductive NameRole where
  | function
  | parameter
  | var
  | field
  | record
  | enumeration
  | enumerator
  | typeAlias
deriving DecidableEq, Inhabited

/-- A way to choose names: from the role, the operation and, for parameters and fields, the index.
-/
abbrev Naming := NameRole → Operation → Nat → String

namespace Naming

/-- The symbol of an operation if it is not empty, else a word with the id of the operation. -/
def symbolOr (o : Operation) (word : String) : String :=
  match o.symbol? with
  | some s => if s.isEmpty then word ++ "_" ++ toString o.id else s
  | none => word ++ "_" ++ toString o.id

/-- The recorded name of a parameter if it is not empty, else one made from its index. -/
def parameterName (o : Operation) (index : Nat) : String :=
  let recorded :=
    ((o.attr? AttrName.argNames).bind Attribute.texts?).bind fun names => names[index]?
  (recorded.filter fun s => !s.isEmpty).getD ("arg_" ++ toString index)

/-- Names as the graph has them; what has no name there gets one from its id or index. -/
def standard : Naming
  | .function, o, _ => symbolOr o "func"
  | .parameter, o, i => parameterName o i
  | .var, o, _ => symbolOr o "var"
  | .field, o, i => o.symbol?.getD ("field_" ++ toString i)
  | .record, o, _ => symbolOr o "struct"
  | .enumeration, o, _ => symbolOr o "enum"
  | .enumerator, o, _ => symbolOr o "enumerator"
  | .typeAlias, o, _ => symbolOr o "typedef"

/-- The standard names with a mark in front. -/
def marked (mark : String) : Naming := fun role o i => mark ++ standard role o i

end Naming

/-! ### State -/

/-- Work that is put off until all declarations exist. -/
inductive Task where
  | body (function : DeclId) (region : RegionId)
  | init (scope : Scope) (var : DeclId) (region : RegionId)
deriving DecidableEq, Inhabited

/-- What a lift counts. -/
structure Stats where
  opsLifted : Nat
  memoHits : Nat
  typesLifted : Nat
  deferredEnqueued : Nat
  deferredExecuted : Nat
deriving DecidableEq, Inhabited

/-- What stays the same during a lift. -/
structure LiftEnv where
  graph : Graph
  naming : Naming
  /-- Whether messages show the operation that they are about. -/
  showOps : Bool

/-- What a lift has built so far. -/
structure LiftState where
  program : Program
  /-- What each lifted operation became; `none` for operations that leave no statement. -/
  opStmt : Dict OpId (Option StmtId)
  /-- The declaration that an operation introduced. -/
  opDecl : Dict OpId DeclId
  /-- The parameter that a block argument is. -/
  argDecl : Dict Value DeclId
  /-- The types lifted so far. -/
  typeOf : Dict TypeId QualType
  /-- The declarations at file level by their symbols. -/
  symbols : Dict String DeclId
  queue : Queue Task
  stats : Stats
  /-- The names chosen so far, in order. -/
  names : List (NameRole × String)
deriving Inhabited

instance : HasQueue LiftState Task where
  queue := LiftState.queue
  setQueue q s := { s with queue := q }

/-- The state before anything is lifted. -/
def LiftState.start (target : Target) : LiftState :=
  ⟨.empty target, .empty, .empty, .empty, .empty, .empty, .empty, ⟨0, 0, 0, 0, 0⟩, []⟩

/-- Steps of a lift. What was built before a failure stays. -/
abbrev Lift := EStateM LiftError LiftState

namespace Lift

/-- Runs a construction step on the program of the lift. -/
def typed {α : Type} (step : Check α) : Lift α := fun s =>
  match step s.program with
  | .ok a program => .ok a { s with program }
  | .error fault program => .error (.typing fault) { s with program }

/-- The program so far. -/
def program : Lift Program := return (← get).program

/-- Chooses a name and notes it. -/
def chooseName (env : LiftEnv) (role : NameRole) (o : Operation) (index : Nat) : Lift String := do
  let name := env.naming role o index
  modify fun s => { s with names := s.names ++ [(role, name)] }
  return name

/-- Puts a task off. -/
def defer (task : Task) : Lift Unit :=
  modify fun s =>
    { s with
      queue := s.queue.push task
      stats := { s.stats with deferredEnqueued := s.stats.deferredEnqueued + 1 } }

end Lift

/-! ### The operation that a message is about -/

namespace LiftEnv

/-- The listing of an operation on a line of its own, or nothing if operations are not shown. -/
def dump (env : LiftEnv) (o : Operation) : String :=
  if env.showOps then "\n" ++ env.graph.opText o.id else ""

/-- The name of an operation with its listing. -/
def shown (env : LiftEnv) (o : Operation) : String := o.name.text ++ env.dump o

/-- An operation that is not as it should be. -/
def malformed (env : LiftEnv) (o : Operation) (message : String) : LiftError :=
  .malformed (o.name.text ++ ": " ++ message ++ env.dump o)

/-- An operation that cannot be lifted. -/
def noRule (env : LiftEnv) (o : Operation) : LiftError :=
  .noRule o.kind? o.name.text (env.dump o)

end LiftEnv

namespace Lift

/-- The operation at a position. -/
def operation (env : LiftEnv) (id : OpId) : Lift Operation :=
  match env.graph.op? id with
  | some o => return o
  | none => throw (.malformed ("no operation " ++ OpId.text id))

/-- The operand at an index. -/
def operand (env : LiftEnv) (o : Operation) (index : Nat) : Lift Value :=
  match o.operands[index]? with
  | some v => return v
  | none => throw (env.malformed o ("missing operand " ++ toString index))

/-- The type of the first result. -/
def resultType (env : LiftEnv) (o : Operation) : Lift TypeId :=
  match o.resultTypes.head? with
  | some id => return id
  | none => throw (env.malformed o "operation produces no value")

/-- The region at an index; `what` names it if it is missing. -/
def region (env : LiftEnv) (o : Operation) (index : Nat) (what : String) : Lift RegionId :=
  match o.regions[index]? with
  | some r => return r
  | none => throw (env.malformed o ("missing " ++ what ++ " region"))

end Lift

end Readback
