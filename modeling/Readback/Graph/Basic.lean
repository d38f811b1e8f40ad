import Readback.Graph.Attribute
import Readback.Graph.Registry

/-! # The operation graph

A graph is made of operations, which consume and produce values and own regions; of regions, which
are lists of blocks; and of blocks, which list operations and may have arguments. All three live in
tables and refer to each other by position. Nodes are only ever appended.

Four steps build a graph: `createOperation`, `createRegion`, `createBlock` and `setAttribute`. A
step that fails leaves the graph as it was. Along with the operations the graph records the uses of
each value, one entry per operand, in the order in which the operations came.

A graph that was read from its interchange form may hold ids that lead nowhere; every query answers
for those too. -/

namespace Readback

/-- The position of an operation. -/
abbrev OpId := Nat

/-- The position of a region. -/
abbrev RegionId := Nat

/-- The position of a block. -/
abbrev BlockId := Nat

/-- The text of an operation id. -/
def OpId.text (id : OpId) : String := "op" ++ toString id

/-- The text of a region id. -/
def RegionId.text (id : RegionId) : String := "region" ++ toString id

/-- The text of a block id. -/
def BlockId.text (id : BlockId) : String := "^bb" ++ toString id

/-! ### Values -/

/-- A value: a result of an operation or an argument of a block. -/
inductive Value where
  | result (op : OpId) (index : Nat)
  | argument (block : BlockId) (index : Nat)
deriving DecidableEq, Inhabited

namespace Value

/-- The operation that a result comes from. -/
def definingOp? : Value → Option OpId
  | .result op _ => some op
  | .argument _ _ => none

/-- Whether the value is an argument of a block. -/
def isArgument : Value → Bool
  | .argument _ _ => true
  | .result _ _ => false

/-- A number that tells values apart, for indices below `2 ^ 32`. -/
def key : Value → Nat
  | .result op index => op * Nat.pow 2 32 + index
  | .argument block index => Nat.pow 2 64 + block * Nat.pow 2 32 + index

/-- The text of a value; the first result of an operation goes without its index. -/
def text : Value → String
  | .result op 0 => "%" ++ toString op
  | .result op index => "%" ++ toString op ++ "#" ++ toString index
  | .argument block index => "%arg" ++ toString block ++ "_" ++ toString index

end Value

/-! ### Operations, regions and blocks -/

/-- The name of an operation and the identity that a registry gave it. -/
structure OpName where
  text : String
  identity : Option OpIdentity
deriving DecidableEq, Inhabited

namespace OpName

/-- The part of the name before its first point. -/
def dialect (n : OpName) : String := String.ofList (n.text.toList.takeWhile (· != '.'))

/-- The part of the name after its first point. -/
def mnemonic (n : OpName) : String := String.ofList ((n.text.toList.dropWhile (· != '.')).drop 1)

/-- The kind of an operation. A registered one is known by its identity, another one by its name if
it claims the high-level dialect. -/
def kind? (n : OpName) : Option Kind :=
  match n.identity with
  | some i => Kind.ofIdentity? i
  | none => if n.dialect = Kind.dialect then Kind.ofName? n.text else none

end OpName

/-- An operation in its place. -/
structure Operation where
  id : OpId
  name : OpName
  operands : List Value
  resultTypes : List TypeId
  regions : List RegionId
  attributes : Dict String Attribute
  parent : Option BlockId
deriving DecidableEq, Inhabited

/-- A list of blocks owned by an operation; the body of a graph has no owner. -/
structure Region where
  id : RegionId
  parent : Option OpId
  blocks : List BlockId
deriving DecidableEq, Inhabited

/-- A list of operations with the types of the block's arguments. -/
structure Block where
  id : BlockId
  region : RegionId
  arguments : List TypeId
  operations : List OpId
deriving DecidableEq, Inhabited

namespace Operation

/-- The results of an operation. -/
def results (o : Operation) : List Value :=
  (List.range o.resultTypes.length).map (Value.result o.id)

/-- The first result. -/
def firstResult? (o : Operation) : Option Value := o.results.head?

/-- The attribute under a name. -/
def attr? (o : Operation) (name : String) : Option Attribute := o.attributes.get? name

/-- The text or symbol under a name. -/
def textAttr? (o : Operation) (name : String) : Option String := (o.attr? name).bind Attribute.text?

/-- The type under a name. -/
def typeAttr? (o : Operation) (name : String) : Option TypeId := (o.attr? name).bind Attribute.type?

/-- The symbol that the operation defines. -/
def symbol? (o : Operation) : Option String := o.textAttr? AttrName.symName

/-- The kind of the operation. -/
def kind? (o : Operation) : Option Kind := o.name.kind?

end Operation

/-- What an operation is made from, before it has a place. -/
structure OpSpec where
  name : String
  operands : List Value
  resultTypes : List TypeId
  attributes : Dict String Attribute
  /-- Leave the operation without an identity, whatever the registry knows. -/
  isUnregistered : Bool
deriving DecidableEq, Inhabited

/-- An operation graph. -/
structure Graph where
  operations : Array Operation
  regions : Array Region
  blocks : Array Block
  types : TypeTable
  registry : Registry
  body : RegionId
  /-- The recorded uses of each value. -/
  useLists : Dict Value (List OpId)
deriving DecidableEq, Inhabited

/-- Why a building step fails. -/
inductive BuildError where
  | noOperation (op : OpId)
  | noRegion (region : RegionId)
  | noBlock (block : BlockId)
  | missingOperand (value : Value) (name : String)
  | noArgument (block : BlockId) (index : Nat)
  | unknownValue (value : Value)
  | noResult (what : String)
  | notPointer (type : String)
  | notFunction (name : String) (type : String)
deriving DecidableEq, Inhabited

namespace BuildError

/-- What a building error is about. -/
inductive Category where
  | type
  | operation
  | value
deriving DecidableEq, Inhabited

/-- What the error is about. -/
def category : BuildError → Category
  | .noOperation _ | .noRegion _ | .noBlock _ | .noResult _ => .operation
  | .missingOperand _ _ | .noArgument _ _ | .unknownValue _ => .value
  | .notPointer _ | .notFunction _ _ => .type

/-- The words in front of a message. -/
def Category.heading : Category → String
  | .type => "Type error: "
  | .operation => "Invalid operation: "
  | .value => "Invalid value: "

/-- What went wrong. -/
def reason : BuildError → String
  | .noOperation op => "no operation " ++ OpId.text op
  | .noRegion region => "no region " ++ RegionId.text region
  | .noBlock block => "no block " ++ BlockId.text block
  | .missingOperand value name => "operand " ++ value.text ++ " of " ++ name ++ " does not exist"
  | .noArgument block index =>
    "block " ++ BlockId.text block ++ " has no argument " ++ toString index
  | .unknownValue value => "unknown value " ++ value.text
  | .noResult what => what ++ " produces no value"
  | .notPointer type => "cannot dereference " ++ type
  | .notFunction name type => "function " ++ name ++ " needs a function type, got " ++ type

/-- The whole message. -/
def message (e : BuildError) : String := e.category.heading ++ e.reason

end BuildError

namespace Graph

/-! ### Queries -/

/-- The operation at a position. -/
def op? (g : Graph) (id : OpId) : Option Operation := g.operations[id]?

/-- The region at a position. -/
def region? (g : Graph) (id : RegionId) : Option Region := g.regions[id]?

/-- The block at a position. -/
def block? (g : Graph) (id : BlockId) : Option Block := g.blocks[id]?

/-- The operations of all blocks of a region, in order. -/
def regionOps (g : Graph) (id : RegionId) : List OpId :=
  match g.region? id with
  | some r => (r.blocks.filterMap g.block?).flatMap Block.operations
  | none => []

/-- The operations of the body. -/
def topLevelOps (g : Graph) : List OpId := g.regionOps g.body

/-- The first block of the body. -/
def bodyBlock? (g : Graph) : Option BlockId := (g.region? g.body).bind fun r => r.blocks.head?

/-- The type of a value, if the value exists. -/
def valueType? (g : Graph) : Value → Option TypeId
  | .result op index => (g.op? op).bind fun o => o.resultTypes[index]?
  | .argument block index => (g.block? block).bind fun b => b.arguments[index]?

/-- The operations that have the value as an operand, one entry per operand. -/
def uses (g : Graph) (v : Value) : List OpId := (g.useLists.get? v).getD []

/-- Whether some result of the operation is used. -/
def hasUses (g : Graph) (id : OpId) : Bool :=
  match g.op? id with
  | some o => o.results.any fun v => !(g.uses v).isEmpty
  | none => false

/-- The operation whose region the given operation stands in. -/
def parentOp? (g : Graph) (o : Operation) : Option Operation := do
  let block ← g.block? (← o.parent)
  let region ← g.region? block.region
  g.op? (← region.parent)

/-- The kind of the operation at a position. -/
def kind? (g : Graph) (id : OpId) : Option Kind := (g.op? id).bind Operation.kind?

/-! ### Recording uses -/

/-- Records that `op` has the value as an operand. -/
def recordUse (op : OpId) (uses : Dict Value (List OpId)) (v : Value) : Dict Value (List OpId) :=
  uses.insert v ((uses.get? v).getD [] ++ [op])

/-- The graph with its uses recorded afresh from the operands of all operations. -/
def rebuildUses (g : Graph) : Graph :=
  { g with
    useLists := g.operations.toList.foldl (fun u o => o.operands.foldl (recordUse o.id) u) .empty }

/-! ### Appending nodes -/

/-- Appends a region without listing it anywhere. -/
def pushRegion (g : Graph) (parent : Option OpId) : RegionId × Graph :=
  let id := g.regions.size
  (id, { g with regions := g.regions.push ⟨id, parent, []⟩ })

/-- Appends a block and lists it last in its region. -/
def pushBlock (g : Graph) (region : RegionId) (arguments : List TypeId) : BlockId × Graph :=
  let id := g.blocks.size
  (id, { g with
    blocks := g.blocks.push ⟨id, region, arguments, []⟩
    regions := g.regions.modify region fun r => { r with blocks := r.blocks ++ [id] } })

/-- Appends an operation, lists it last in its block and records its uses. -/
def pushOperation (g : Graph) (block : BlockId) (spec : OpSpec) : OpId × Graph :=
  let id := g.operations.size
  let identity := if spec.isUnregistered then none else g.registry.lookup? spec.name
  let op : Operation :=
    { id
      name := ⟨spec.name, identity⟩
      operands := spec.operands
      resultTypes := spec.resultTypes
      regions := []
      attributes := spec.attributes
      parent := some block }
  (id, { g with
    operations := g.operations.push op
    blocks := g.blocks.modify block fun b => { b with operations := b.operations ++ [id] }
    useLists := spec.operands.foldl (recordUse id) g.useLists })

/-- The graph over a registry, with an empty body. -/
def ofRegistry (registry : Registry) : Graph :=
  let g : Graph := ⟨#[], #[], #[], .empty, registry, 0, .empty⟩
  ((g.pushRegion none).2.pushBlock 0 []).2

/-- The graph over the standard registry, with an empty body. -/
def empty : Graph := ofRegistry .standard

end Graph

/-! ### Building steps -/

/-- Steps that build a graph and may fail. What was built before a failure stays. -/
abbrev Build := EStateM BuildError Graph

namespace Build

/-- Interns a type. -/
def internType (shape : Shape) : Build TypeId :=
  modifyGet fun g =>
    let (id, types) := g.types.intern shape
    (id, { g with types })

/-- Interns the location type for a type. -/
def asLvalue (id : TypeId) : Build TypeId :=
  modifyGet fun g =>
    let (id, types) := g.types.asLvalue id
    (id, { g with types })

/-- Gives an attribute of an existing operation a value. -/
def setAttribute (op : OpId) (name : String) (value : Attribute) : Build Unit := do
  if ((← get).op? op).isNone then throw (.noOperation op)
  modify fun g =>
    { g with
      operations := g.operations.modify op fun o =>
        { o with attributes := o.attributes.insert name value } }

/-- Adds a region to an existing operation. -/
def createRegion (parent : OpId) : Build RegionId := do
  if ((← get).op? parent).isNone then throw (.noOperation parent)
  modifyGet fun g =>
    let (id, g) := g.pushRegion (some parent)
    (id, { g with
      operations := g.operations.modify parent fun o => { o with regions := o.regions ++ [id] } })

/-- Adds a block to an existing region. -/
def createBlock (region : RegionId) (arguments : List TypeId) : Build BlockId := do
  if ((← get).region? region).isNone then throw (.noRegion region)
  modifyGet fun g => g.pushBlock region arguments

/-- Adds an operation at the end of an existing block. All its operands have to exist. -/
def createOperation (block : BlockId) (spec : OpSpec) : Build OpId := do
  let g ← get
  if (g.block? block).isNone then throw (.noBlock block)
  match spec.operands.find? fun v => (g.valueType? v).isNone with
  | some v => throw (.missingOperand v spec.name)
  | none => modifyGet fun g => g.pushOperation block spec

end Build

end Readback
