import Readback.Lift.Run
import Readback.Program.Outline

/-! # Reports on lifts

What a lift counted, which names it chose and why it failed, as JSON. -/

namespace Readback

namespace Fault

/-- The code of a fault in reports. -/
def code : Fault → String
  | .operand _ _ => "InvalidOperand"
  | .operands _ _ _ => "InvalidOperands"
  | .notAssignable => "NotAssignable"
  | .constAssignment _ => "ConstAssignment"
  | .condition _ => "InvalidCondition"
  | .notAFunction _ => "NotAFunction"
  | .params _ _ => "ParameterMismatch"
  | .notCallable _ => "NotCallable"
  | .argumentCount _ _ => "ArgumentCountMismatch"
  | .incompatible _ _ => "IncompatibleTypes"
  | .literal _ => "InvalidLiteral"
  | .cast _ => "InvalidCast"
  | .incompleteField _ _ => "IncompleteField"
  | .notAValue _ => "NotAValue"
  | .returnMismatch _ _ => "ReturnMismatch"
  | .decl _ => "InvalidDecl"

end Fault

namespace LiftError

/-- The code of a failure in reports. -/
def code : LiftError → String
  | .unsupportedType _ => "UnsupportedType"
  | .unsupportedCast _ _ => "UnsupportedCastKind"
  | .unsupportedAttribute _ _ => "UnsupportedAttribute"
  | .unresolved _ => "UnresolvedValue"
  | .noRule _ _ _ => "NoLifterForKind"
  | .malformed _ => "MalformedModule"
  | .typing _ => "AstConstructionFailed"
  | .unbounded => "MalformedModule"

/-- The code of the fault below a failure. -/
def innerCode? : LiftError → Option String
  | .typing fault => some fault.code
  | _ => none

end LiftError

/-- The counts of a lift. -/
def Stats.toJson (s : Stats) : Json :=
  .object [("ops_lifted", Json.ofNat s.opsLifted), ("memo_hits", Json.ofNat s.memoHits),
    ("types_lifted", Json.ofNat s.typesLifted),
    ("deferred_enqueued", Json.ofNat s.deferredEnqueued),
    ("deferred_executed", Json.ofNat s.deferredExecuted)]

/-- The tag of a role in reports. -/
def NameRole.tag : NameRole → String
  | .function => "function_name"
  | .parameter => "parameter_name"
  | .var => "variable_name"
  | .field => "field_name"
  | .record => "struct_name"
  | .enumeration => "enum_name"
  | .enumerator => "enum_constant_name"
  | .typeAlias => "typedef_name"

/-- The names that a lift chose, in order. -/
def LiftState.namesJson (s : LiftState) : Json :=
  .list (s.names.map fun n => .list [.text n.1.tag, .text n.2])

end Readback
