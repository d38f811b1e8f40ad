import Readback.Graph.Basic

/-! # Building blocks of operations

Short names for common types, and shorthands that append operations of known kinds to a block.
Operations with regions take a function for each region, which is run on the entry block of the new
region; it may run in any monad that the building steps lift to. -/

namespace Readback

namespace Shape

/-- The types that have a short name: those without qualifiers, the unsigned ones, and `const int`.
-/
def shortNames : List (String × Shape) :=
  [("void", .plain .void none), ("bool", .plain .bool none), ("char", .char),
    ("uchar", .integer .char (some ⟨true, false, false⟩)), ("short", .integer .short none),
    ("int", .integer .int none), ("uint", .integer .int (some ⟨true, false, false⟩)),
    ("cint", .integer .int (some ⟨false, true, false⟩)), ("long", .integer .long none),
    ("ulong", .integer .long (some ⟨true, false, false⟩)), ("longlong", .integer .longLong none),
    ("float", .plain .float none), ("double", .plain .double none)]

/-- The type with the given short name. -/
def ofShortName? (name : String) : Option Shape := shortNames.lookup name

end Shape

namespace OpSpec

/-- An operation with the given name and nothing else. -/
def named (name : String) : OpSpec := ⟨name, [], [], .empty, false⟩

/-- An operation of the given kind and nothing else. -/
def ofKind (kind : Kind) : OpSpec := named kind.name

/-- With further operands. -/
def withOperands (s : OpSpec) (values : List Value) : OpSpec :=
  { s with operands := s.operands ++ values }

/-- With further results. -/
def withResults (s : OpSpec) (types : List TypeId) : OpSpec :=
  { s with resultTypes := s.resultTypes ++ types }

/-- With an attribute. -/
def withAttr (s : OpSpec) (name : String) (value : Attribute) : OpSpec :=
  { s with attributes := s.attributes.insert name value }

end OpSpec

namespace Build

/-! ### Values -/

/-- The argument of a block at an index. -/
def argument (block : BlockId) (index : Nat) : Build Value := do
  let v := Value.argument block index
  if ((← get).valueType? v).isNone then throw (.noArgument block index)
  return v

/-- The type of an existing value. -/
def typeOf (v : Value) : Build TypeId := do
  match (← get).valueType? v with
  | some id => return id
  | none => throw (.unknownValue v)

/-- The first result of an operation; `what` names the operation if there is none. -/
def firstResult (op : OpId) (what : String) : Build Value := do
  match ((← get).op? op).bind Operation.firstResult? with
  | some v => return v
  | none => throw (.noResult what)

/-- Adds an operation and gives its first result. -/
def createValue (block : BlockId) (spec : OpSpec) : Build Value := do
  let op ← createOperation block spec
  firstResult op spec.name

/-- The type of a value without a location around it. -/
def objectType (v : Value) : Build TypeId := do
  let type ← typeOf v
  return (← get).types.stripLvalue type

/-! ### Expressions -/

/-- A constant of the given type. -/
def constant (block : BlockId) (value : Attribute) (type : TypeId) : Build Value :=
  createValue block ((OpSpec.ofKind .constant).withResults [type] |>.withAttr AttrName.value value)

/-- A text constant, an array of as many `char` as the text has bytes. -/
def constantText (block : BlockId) (s : String) : Build Value := do
  let char ← internType .char
  let type ← internType (.arrayOf char s.utf8ByteSize)
  constant block (.text s) type

/-- A reference to the declaration that a value stands for, as a location. -/
def declRef (block : BlockId) (decl : Value) : Build Value := do
  let type ← asLvalue (← typeOf decl)
  createValue block ((OpSpec.ofKind .declRef).withOperands [decl] |>.withResults [type])

/-- A reference to a function by its symbol. -/
def functionRef (block : BlockId) (symbol : String) (type : TypeId) : Build Value :=
  createValue block
    ((OpSpec.ofKind .functionRef).withResults [type] |>.withAttr AttrName.callee (.symbol symbol))

/-- A reference to a global by its symbol, as a location. -/
def globalRef (block : BlockId) (symbol : String) (type : TypeId) : Build Value := do
  let type ← asLvalue type
  createValue block
    ((OpSpec.ofKind .globalRef).withResults [type] |>.withAttr AttrName.name (.symbol symbol))

/-- An operation of two operands. -/
def binary (block : BlockId) (name : String) (lhs rhs : Value) (type : TypeId) : Build Value :=
  createValue block ((OpSpec.named name).withOperands [lhs, rhs] |>.withResults [type])

/-- An operation of one operand. -/
def unary (block : BlockId) (name : String) (arg : Value) (type : TypeId) : Build Value :=
  createValue block ((OpSpec.named name).withOperands [arg] |>.withResults [type])

/-- The address of a location. -/
def addressOf (block : BlockId) (arg : Value) : Build Value := do
  let type ← internType (.pointerTo (← objectType arg))
  unary block Kind.addressOf.name arg type

/-- The location that a pointer points to. -/
def deref (block : BlockId) (arg : Value) : Build Value := do
  let type ← typeOf arg
  let types := (← get).types
  match types.get? (types.stripLvalue type) with
  | some (.pointer element _) =>
    let type ← internType (.lvalue element)
    unary block Kind.deref.name arg type
  | _ => throw (.notPointer (types.text type))

/-- An increment or decrement, typed like the object that it changes. -/
def step (block : BlockId) (kind : Kind) (arg : Value) : Build Value := do
  let type ← objectType arg
  unary block kind.name arg type

/-- An integer comparison. -/
def compare (block : BlockId) (predicate : Predicate) (lhs rhs : Value) (type : TypeId) :
    Build Value :=
  createValue block
    ((OpSpec.ofKind .compare).withOperands [lhs, rhs] |>.withResults [type]
      |>.withAttr AttrName.predicate (.predicate predicate))

/-- A cast of the given kind. -/
def cast (block : BlockId) (kind : Kind) (arg : Value) (conversion : Conversion) (type : TypeId) :
    Build Value :=
  createValue block
    ((OpSpec.ofKind kind).withOperands [arg] |>.withResults [type]
      |>.withAttr AttrName.kind (.conversion conversion))

/-- An assignment, typed like the object that it changes. -/
def assign (block : BlockId) (name : String) (target source : Value) : Build Value := do
  let type ← objectType target
  createValue block ((OpSpec.named name).withOperands [target, source] |>.withResults [type])

/-- A list of initial values. -/
def initList (block : BlockId) (elements : List Value) (type : TypeId) : Build Value :=
  createValue block ((OpSpec.ofKind .initList).withOperands elements |>.withResults [type])

/-- A call of a function by its symbol. -/
def call (block : BlockId) (callee : String) (args : List Value) (results : List TypeId) :
    Build OpId :=
  createOperation block
    ((OpSpec.ofKind .call).withOperands args |>.withResults results
      |>.withAttr AttrName.callee (.symbol callee))

/-- A call with one result. -/
def callValue (block : BlockId) (callee : String) (args : List Value) (result : TypeId) :
    Build Value := do
  let op ← call block callee args [result]
  firstResult op ("call to " ++ callee)

/-! ### Statements without regions -/

/-- An operation of the given kind that takes operands and gives no result. -/
def statement (block : BlockId) (kind : Kind) (operands : List Value) : Build OpId :=
  createOperation block ((OpSpec.ofKind kind).withOperands operands)

/-! ### Operations with regions -/

section Nested

variable {m : Type → Type} [Monad m] [MonadLiftT Build m]

/-- Adds a region with one block to an operation and fills it. -/
def fillRegion (op : OpId) (arguments : List TypeId) (fill : BlockId → m Unit) : m Unit := do
  let region ← (createRegion op : Build RegionId)
  let block ← (createBlock region arguments : Build BlockId)
  fill block

/-- Adds one region after the other to an operation. -/
def fillRegions (op : OpId) (fills : List (BlockId → m Unit)) : m Unit :=
  fills.forM (fillRegion op [])

/-- An operation without operands and results that has the given regions. -/
def structured (block : BlockId) (name : String) (fills : List (BlockId → m Unit)) : m OpId := do
  let op ← (createOperation block (OpSpec.named name) : Build OpId)
  fillRegions op fills
  return op

/-- An expression whose region yields its value. -/
def expression (block : BlockId) (type : TypeId) (fill : BlockId → m Unit) : m Value := do
  let op ← (createOperation block ((OpSpec.ofKind .expression).withResults [type]) : Build OpId)
  fillRegion op [] fill
  (firstResult op "expression" : Build Value)

/-- A variable operation without its region; the result is the location of the variable. -/
def createVariable (block : BlockId) (name : String) (type : TypeId) : Build OpId := do
  let type ← asLvalue type
  createOperation block
    ((OpSpec.ofKind .var).withResults [type] |>.withAttr AttrName.symName (.text name))

/-- A variable without an initial value. Its region has no block. -/
def uninitialized (block : BlockId) (name : String) (type : TypeId) : Build Value := do
  let op ← createVariable block name type
  let _ ← createRegion op
  firstResult op ("variable " ++ name)

/-- A variable whose region yields its initial value. The variable itself is in scope there. -/
def initialized (block : BlockId) (name : String) (type : TypeId)
    (fill : BlockId → Value → m Unit) : m Value := do
  let op ← (createVariable block name type : Build OpId)
  let v ← (firstResult op ("variable " ++ name) : Build Value)
  fillRegion op [] fun inner => fill inner v
  return v

/-- A function operation without its region, and the types of its parameters. -/
def createFunction (block : BlockId) (name : String) (type : TypeId) :
    Build (OpId × List TypeId) := do
  let types := (← get).types
  match types.signature? type with
  | none => throw (.notFunction name (types.text type))
  | some (inputs, _) =>
    let op ← createOperation block
      ((OpSpec.ofKind .function).withAttr AttrName.symName (.text name)
        |>.withAttr AttrName.functionType (.type type))
    return (op, inputs)

/-- A function with a body, whose block has an argument per parameter. -/
def function (block : BlockId) (name : String) (type : TypeId) (fill : BlockId → m Unit) :
    m OpId := do
  let (op, inputs) ← (createFunction block name type : Build (OpId × List TypeId))
  fillRegion op inputs fill
  return op

/-- A function with a body and names for its parameters, given after the body is built. -/
def functionWithNames (block : BlockId) (name : String) (type : TypeId) (argNames : List String)
    (fill : BlockId → m Unit) : m OpId := do
  let op ← function block name type fill
  (setAttribute op AttrName.argNames (.texts argNames) : Build Unit)
  return op

/-- A function without a body. Its region has no block. -/
def functionDecl (block : BlockId) (name : String) (type : TypeId) : Build OpId := do
  let (op, _) ← createFunction block name type
  let _ ← createRegion op
  return op

end Nested

/-- A record with its fields. -/
def record (block : BlockId) (name : String) (fields : List (String × TypeId)) : Build OpId := do
  let op ← createOperation block ((OpSpec.ofKind .record).withAttr AttrName.symName (.text name))
  fillRegion op [] fun inner => fields.forM fun f => do
    let _ ← createOperation inner
      ((OpSpec.ofKind .field).withAttr AttrName.symName (.text f.1)
        |>.withAttr AttrName.type (.type f.2))
  return op

/-- A name for a type. -/
def typeAlias (block : BlockId) (name : String) (type : TypeId) : Build OpId :=
  createOperation block
    ((OpSpec.ofKind .typeAlias).withAttr AttrName.symName (.text name)
      |>.withAttr AttrName.type (.type type))

/-- An enumeration with its constants. -/
def enumeration (block : BlockId) (name : String) (constants : List (String × Int)) :
    Build OpId := do
  let op ← createOperation block
    ((OpSpec.ofKind .enumeration).withAttr AttrName.symName (.text name))
  fillRegion op [] fun inner => constants.forM fun c => do
    let _ ← createOperation inner
      ((OpSpec.ofKind .enumerator).withAttr AttrName.symName (.text c.1)
        |>.withAttr AttrName.value (.integer c.2))
  return op

end Build

end Readback
