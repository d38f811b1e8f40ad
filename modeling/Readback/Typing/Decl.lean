import Readback.Typing.Conversion

/-! # Typed construction of declarations

Declarations are created first and completed later: creating one does not list it anywhere, save for
the fields of a record. -/

namespace Readback

namespace Check

/-- Lists a declaration in its scope. -/
def addDecl (scope : Scope) (decl : DeclId) : Check Unit := do
  match scope with
  | .file => modify fun p => { p with topLevel := p.topLevel ++ [decl] }
  | .function f =>
    match ((← get).decl f).kind with
    | .function type params body locals =>
      modify fun p => p.setDeclKind f (.function type params body (locals ++ [decl]))
    | _ => throw (.decl (DeclId.text f ++ " is not a function"))
  | .record r =>
    match ((← get).decl r).kind with
    | .record fields => modify fun p => p.setDeclKind r (.record (fields ++ [decl]))
    | _ => throw (.decl (DeclId.text r ++ " is not a struct"))

/-! ### Functions -/

/-- A function without parameters and body so far. -/
def functionDecl (scope : Scope) (name : String) (type : QualType) : Check DeclId := do
  if !(← get).isFunction type then throw (.notAFunction name)
  pushDecl name scope (.function type [] none [])

/-- A parameter of a function. -/
def param (function : DeclId) (name : String) (type : QualType) (index : Nat) : Check DeclId := do
  let p ← get
  if p.isVoid type || p.isFunction type then
    throw (.params (p.decl function).name
      ("parameter " ++ Fault.quoted name ++ " has invalid type " ++ Fault.quoted (p.typeText type)))
  pushDecl name (.function function) (.param type index)

/-- Why a declaration cannot be the parameter at an index, where the signature has `expected`. -/
def paramFault? (p : Program) (index : Nat) (param : DeclId) (expected : QualType) :
    Option String :=
  match (p.decl param).kind with
  | .param type _ =>
    if type.ref = expected.ref then none
    else some ("parameter " ++ toString index ++ " has type " ++ Fault.quoted (p.typeText type)
      ++ " but the signature says " ++ Fault.quoted (p.typeText expected))
  | _ => some (DeclId.text param ++ " is not a parameter")

/-- Why declarations cannot be the parameters of a function with the expected types. -/
def paramsFault? (p : Program) (params : List DeclId) (expected : List QualType) : Option String :=
  if expected.length ≠ params.length then
    some ("expected " ++ toString expected.length ++ " parameters, got " ++ toString params.length)
  else (params.zip expected).zipIdx.findSome? fun x => paramFault? p x.2 x.1.1 x.1.2

/-- Gives a function its parameters, which have to agree with its type up to qualifiers. -/
def setParams (function : DeclId) (params : List DeclId) : Check Unit := do
  let p ← get
  let d := p.decl function
  match d.kind with
  | .function type _ body locals =>
    match p.functionParts? type with
    | some (_, expected, _) =>
      match paramsFault? p params expected with
      | some reason => throw (.params d.name reason)
      | none => modify fun p => p.setDeclKind function (.function type params body locals)
    | none => throw (.notAFunction d.name)
  | _ => throw (.notAFunction d.name)

/-- Gives a function its body. -/
def setBody (function : DeclId) (body : StmtId) : Check Unit := do
  let d := (← get).decl function
  match d.kind with
  | .function type params _ locals =>
    modify fun p => p.setDeclKind function (.function type params (some body) locals)
  | _ => throw (.notAFunction d.name)

/-! ### Variables and records -/

/-- A variable without an initial value so far. -/
def varDecl (scope : Scope) (name : String) (type : QualType) (storage : Storage) :
    Check DeclId := do
  let p ← get
  if p.isVoid type || p.isFunction type then
    throw (.decl ("variable " ++ Fault.quoted name ++ " has invalid type "
      ++ Fault.quoted (p.typeText type)))
  pushDecl name scope (.var type none storage)

/-- Gives a variable its initial value. -/
def setInit (var : DeclId) (init : ExprId) : Check Unit := do
  let d := (← get).decl var
  match d.kind with
  | .var type _ storage =>
    initializable type init
    modify fun p => p.setDeclKind var (.var type (some init) storage)
  | _ => throw (.decl (Fault.quoted d.name ++ " is not a variable"))

/-- A record without fields so far. -/
def recordDecl (scope : Scope) (name : String) : Check DeclId := pushDecl name scope (.record [])

/-- Whether a field of a record cannot have the type: `void`, functions, arrays of unknown size and
the record itself have no size yet. -/
def isIncompleteField (p : Program) (record : DeclId) (type : QualType) : Bool :=
  match p.node type with
  | .builtin kind => kind == .void
  | .function _ _ _ => true
  | .array _ size => size.isNone
  | .record r => r == record
  | .pointer _ => false

/-- The next field of a record, which is listed there at once. -/
def fieldDecl (record : DeclId) (name : String) (type : QualType) : Check DeclId := do
  let p ← get
  let d := p.decl record
  match d.kind with
  | .record fields =>
    if isIncompleteField p record type then throw (.incompleteField name (p.typeText type))
    let field ← pushDecl name (.record record) (.field type fields.length)
    addDecl (.record record) field
    return field
  | _ => throw (.decl (Fault.quoted d.name ++ " is not a struct"))

end Check

end Readback
