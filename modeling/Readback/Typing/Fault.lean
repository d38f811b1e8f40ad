import Readback.Program.Basic

/-! # Typing faults

Why a node cannot be added to a program, and the monad of typed construction steps. -/

namespace Readback

/-- Why a construction step fails. Types are given by their text. -/
inductive Fault where
  | operand (op : String) (type : String)
  | operands (op : String) (lhs rhs : String)
  | notAssignable
  | constAssignment (type : String)
  | condition (type : String)
  | notAFunction (name : String)
  | params (name : String) (reason : String)
  | notCallable (type : String)
  | argumentCount (expected found : Nat)
  | incompatible (target source : String)
  | literal (reason : String)
  | cast (type : String)
  | incompleteField (name : String) (type : String)
  | notAValue (name : String)
  | returnMismatch (function : String) (reason : String)
  | decl (reason : String)
deriving DecidableEq, Inhabited

namespace Fault

/-- A text in single quotes. -/
def quoted (s : String) : String := "'" ++ s ++ "'"

/-- The message of a fault. -/
def message : Fault → String
  | .operand op type => "Invalid operand of type " ++ quoted type ++ " to " ++ quoted op
  | .operands op lhs rhs =>
    "Invalid operands to binary expression (" ++ quoted lhs ++ " and " ++ quoted rhs ++ ") for "
      ++ quoted op
  | .notAssignable => "Expression is not assignable"
  | .constAssignment type =>
    "Cannot assign to expression with const-qualified type " ++ quoted type
  | .condition type =>
    "Statement requires expression of scalar type (" ++ quoted type ++ " invalid)"
  | .notAFunction name => "Declaration " ++ quoted name ++ " does not have function type"
  | .params name reason =>
    "Parameters of " ++ quoted name ++ " do not match its type: " ++ reason
  | .notCallable type =>
    "Called object type " ++ quoted type ++ " is not a function or function pointer"
  | .argumentCount expected found =>
    "Call expects " ++ toString expected ++ " arguments, " ++ toString found ++ " given"
  | .incompatible target source =>
    "Incompatible types: " ++ quoted target ++ " from " ++ quoted source
  | .literal reason => "Invalid literal: " ++ reason
  | .cast type => "Invalid cast to " ++ quoted type
  | .incompleteField name type =>
    "Field " ++ quoted name ++ " has incomplete type " ++ quoted type
  | .notAValue name => quoted name ++ " does not name a value"
  | .returnMismatch function reason => "Return mismatch in " ++ quoted function ++ ": " ++ reason
  | .decl reason => "Invalid declaration: " ++ reason

end Fault

/-- Construction steps on a program, which may fail. Types interned before a failure stay. -/
abbrev Check := EStateM Fault Program

namespace Check

/-- Appends an expression. -/
def pushExpr (kind : ExprKind) (type : QualType) (category : ValueCategory) : Check ExprId :=
  modifyGet fun p => p.pushExpr kind type category

/-- Appends a statement. -/
def pushStmt (kind : StmtKind) : Check StmtId := modifyGet fun p => p.pushStmt kind

/-- Appends a declaration. -/
def pushDecl (name : String) (scope : Scope) (kind : DeclKind) : Check DeclId :=
  modifyGet fun p => p.pushDecl name scope kind

/-! ### Types -/

/-- Interns a type node. -/
def internNode (node : TypeNode) : Check QualType := modifyGet fun p => p.internNode node

/-- A builtin type. -/
def builtin (kind : Builtin) : Check QualType := internNode (.builtin kind)

/-- A pointer type. -/
def pointerTo (pointee : QualType) : Check QualType := internNode (.pointer pointee)

/-- An array type; without a size it is incomplete. -/
def arrayOf (element : QualType) (size : Option Nat) : Check QualType :=
  internNode (.array element size)

/-- A function type. -/
def functionType (result : QualType) (params : List QualType) (isVariadic : Bool) :
    Check QualType :=
  internNode (.function result params isVariadic)

/-- The type of a declared record. -/
def recordType (decl : DeclId) : Check QualType := do
  let d := (← get).decl decl
  match d.kind with
  | .record _ => internNode (.record decl)
  | _ => throw (.decl (Fault.quoted d.name ++ " is not a struct"))

end Check

end Readback
