import Readback.Graph.Basic
import Readback.Json.Quals

/-! # Interchange form of graphs

`Graph.toJson` writes a graph as JSON and `Graph.ofJson?` reads one back. The recorded uses are not
written; reading records them afresh. Reading checks the form alone: ids may lead nowhere. Types
that come twice collapse to the first, as interning would have it. -/

namespace Readback

/-! ### Types -/

/-- The tag of a plain type. -/
def PlainShape.tag : PlainShape → String
  | .void => "Void"
  | .bool => "Bool"
  | .half => "Half"
  | .bfloat16 => "BFloat16"
  | .float => "Float"
  | .double => "Double"
  | .longDouble => "LongDouble"
  | .float128 => "Float128"

/-- The plain type with the given tag. -/
def PlainShape.ofTag? (tag : String) : Option PlainShape :=
  [.void, .bool, .half, .bfloat16, .float, .double, .longDouble, .float128].find? fun k =>
    PlainShape.tag k == tag

/-- The tag of an integer type. -/
def IntegerShape.tag : IntegerShape → String
  | .char => "Char"
  | .short => "Short"
  | .int => "Int"
  | .long => "Long"
  | .longLong => "LongLong"
  | .int128 => "Int128"

/-- The integer type with the given tag. -/
def IntegerShape.ofTag? (tag : String) : Option IntegerShape :=
  [.char, .short, .int, .long, .longLong, .int128].find? fun k => IntegerShape.tag k == tag

/-- The tag of a named type. -/
def NamedShape.tag : NamedShape → String
  | .record => "Record"
  | .enum => "Enum"
  | .typedef => "Typedef"

/-- The sort of named type with the given tag. -/
def NamedShape.ofTag? (tag : String) : Option NamedShape :=
  [.record, .enum, .typedef].find? fun k => NamedShape.tag k == tag

namespace Shape

/-- Writes one level of a type. -/
def toJson : Shape → Json
  | .plain kind quals => Json.tagged kind.tag (Json.ofOption Cv.toJson quals)
  | .integer kind quals => Json.tagged kind.tag (Json.ofOption Ucv.toJson quals)
  | .pointer element quals =>
    Json.tagged "Pointer"
      (.object [("element", Json.ofNat element), ("quals", Json.ofOption Quals.toJson quals)])
  | .array element size quals =>
    Json.tagged "Array"
      (.object [("element", Json.ofNat element), ("size", Json.ofOption Json.ofNat size),
        ("quals", Json.ofOption Quals.toJson quals)])
  | .lvalue element => Json.tagged "LValue" (.object [("element", Json.ofNat element)])
  | .function inputs results =>
    Json.tagged "Function"
      (.object [("inputs", Json.ofNats inputs), ("results", Json.ofNats results)])
  | .named kind name => Json.tagged kind.tag (.object [("name", .text name)])

/-- Reads a type that refers to others. -/
def derivedOfJson? (tag : String) (content : Json) : Option Shape := do
  if tag = "Pointer" then
    match ← Json.objectFields? ["element", "quals"] content with
    | [e, q] => return .pointer (← Json.required Json.index? e) (← Json.optional Quals.ofJson? q)
    | _ => none
  else if tag = "Array" then
    match ← Json.objectFields? ["element", "size", "quals"] content with
    | [e, n, q] =>
      return .array (← Json.required Json.index? e) (← Json.optional Json.size? n)
        (← Json.optional Quals.ofJson? q)
    | _ => none
  else if tag = "LValue" then
    match ← Json.objectFields? ["element"] content with
    | [e] => return .lvalue (← Json.required Json.index? e)
    | _ => none
  else if tag = "Function" then
    match ← Json.objectFields? ["inputs", "results"] content with
    | [i, r] =>
      return .function (← Json.required (Json.listOf? Json.index?) i)
        (← Json.required (Json.listOf? Json.index?) r)
    | _ => none
  else none

/-- The level of a type that a choice stands for. -/
def ofChoice? (tag : String) (content : Json) : Option Shape := do
  match PlainShape.ofTag? tag, IntegerShape.ofTag? tag, NamedShape.ofTag? tag with
  | some kind, _, _ => return .plain kind (← Json.optional Cv.ofJson? (some content))
  | none, some kind, _ => return .integer kind (← Json.optional Ucv.ofJson? (some content))
  | none, none, some kind =>
    match ← Json.objectFields? ["name"] content with
    | [n] => return .named kind (← Json.required Json.text? n)
    | _ => none
  | none, none, none => derivedOfJson? tag content

/-- Reads one level of a type. -/
def ofJson? (j : Json) : Option Shape := do
  let (tag, content) ← j.choice?
  ofChoice? tag (← content)

end Shape

/-! ### Attributes and values -/

namespace Attribute

/-- Writes an attribute. -/
def toJson : Attribute → Json
  | .integer value => Json.tagged "Integer" (Json.ofInteger value)
  | .float value => Json.tagged "Float" (Json.ofFloat value)
  | .text value => Json.tagged "String" (.text value)
  | .bool value => Json.tagged "Bool" (.bool value)
  | .type value => Json.tagged "Type" (Json.ofNat value)
  | .symbol value => Json.tagged "Symbol" (.text value)
  | .conversion value => Json.tagged "CastKind" (.text value.name)
  | .predicate value => Json.tagged "Predicate" (.text value.tag)
  | .texts value => Json.tagged "Strings" (Json.ofTexts value)
  | .unit => .text "Unit"

/-- The attribute that a choice stands for. -/
def ofChoice? (tag : String) (content : Option Json) : Option Attribute :=
  match tag with
  | "Unit" => (Json.bare? content).map fun _ => .unit
  | "Integer" => (content.bind Json.integer?).map .integer
  | "Float" => (content.bind Json.float?).map .float
  | "String" => (content.bind Json.text?).map .text
  | "Bool" => (content.bind Json.bool?).map .bool
  | "Type" => (content.bind Json.index?).map .type
  | "Symbol" => (content.bind Json.text?).map .symbol
  | "CastKind" => (content.bind (Json.tag? Conversion.ofName?)).map .conversion
  | "Predicate" => (content.bind (Json.tag? Predicate.ofTag?)).map .predicate
  | "Strings" => (content.bind (Json.listOf? Json.text?)).map .texts
  | _ => none

/-- Reads an attribute. -/
def ofJson? (j : Json) : Option Attribute := do
  let (tag, content) ← j.choice?
  ofChoice? tag content

end Attribute

namespace Value

/-- Writes a value. -/
def toJson : Value → Json
  | .result op index =>
    Json.tagged "Result" (.object [("op", Json.ofNat op), ("index", Json.ofNat index)])
  | .argument block index =>
    Json.tagged "Argument" (.object [("block", Json.ofNat block), ("index", Json.ofNat index)])

/-- The value that a choice stands for. -/
def ofChoice? (tag : String) (content : Json) : Option Value := do
  if tag = "Result" then
    match ← Json.objectFields? ["op", "index"] content with
    | [o, i] => return .result (← Json.required Json.index? o) (← Json.required Json.index? i)
    | _ => none
  else if tag = "Argument" then
    match ← Json.objectFields? ["block", "index"] content with
    | [b, i] => return .argument (← Json.required Json.index? b) (← Json.required Json.index? i)
    | _ => none
  else none

/-- Reads a value. -/
def ofJson? (j : Json) : Option Value := do
  let (tag, content) ← j.choice?
  ofChoice? tag (← content)

end Value

/-! ### Nodes -/

/-- Writes an identity. -/
def OpIdentity.toJson (i : OpIdentity) : Json := .object [("type_id", Json.ofNat i.toNat)]

/-- Reads an identity. -/
def OpIdentity.ofJson? (j : Json) : Option OpIdentity := do
  match ← j.fields? ["type_id"] with
  | [i] => return UInt64.ofNat (← Json.required Json.size? i)
  | _ => none

namespace OpName

/-- Writes a name. -/
def toJson (n : OpName) : Json :=
  .object [("name", .text n.text), ("info", Json.ofOption OpIdentity.toJson n.identity)]

/-- Reads a name. -/
def ofJson? (j : Json) : Option OpName := do
  match ← j.fields? ["name", "info"] with
  | [n, i] => return ⟨← Json.required Json.text? n, ← Json.optional OpIdentity.ofJson? i⟩
  | _ => none

end OpName

namespace Operation

/-- Writes an operation. -/
def toJson (o : Operation) : Json :=
  .object [("id", Json.ofNat o.id), ("name", o.name.toJson),
    ("operands", .list (o.operands.map Value.toJson)),
    ("result_types", Json.ofNats o.resultTypes), ("regions", Json.ofNats o.regions),
    ("attributes", .object (o.attributes.entries.map fun e => (e.1, e.2.toJson))),
    ("parent", Json.ofOption Json.ofNat o.parent)]

/-- Reads the attributes of an operation, in the order in which they are written. -/
def attributesOfJson? (j : Json) : Option (Dict String Attribute) := do
  let entries ← (← j.members?).mapM fun m => do return (m.1, ← Attribute.ofJson? m.2)
  return Dict.ofList entries

/-- Reads an operation. -/
def ofJson? (j : Json) : Option Operation := do
  match ← j.fields?
    ["id", "name", "operands", "result_types", "regions", "attributes", "parent"] with
  | [id, name, operands, resultTypes, regions, attributes, parent] =>
    return {
      id := ← Json.required Json.index? id
      name := ← Json.required OpName.ofJson? name
      operands := ← Json.required (Json.listOf? Value.ofJson?) operands
      resultTypes := ← Json.required (Json.listOf? Json.index?) resultTypes
      regions := ← Json.required (Json.listOf? Json.index?) regions
      attributes := ← Json.required attributesOfJson? attributes
      parent := ← Json.optional Json.index? parent }
  | _ => none

end Operation

namespace Region

/-- Writes a region. -/
def toJson (r : Region) : Json :=
  .object [("id", Json.ofNat r.id), ("parent", Json.ofOption Json.ofNat r.parent),
    ("blocks", Json.ofNats r.blocks)]

/-- Reads a region. -/
def ofJson? (j : Json) : Option Region := do
  match ← j.fields? ["id", "parent", "blocks"] with
  | [id, parent, blocks] =>
    return ⟨← Json.required Json.index? id, ← Json.optional Json.index? parent,
      ← Json.required (Json.listOf? Json.index?) blocks⟩
  | _ => none

end Region

namespace Block

/-- Writes a block. -/
def toJson (b : Block) : Json :=
  .object [("id", Json.ofNat b.id), ("region", Json.ofNat b.region),
    ("arguments", Json.ofNats b.arguments), ("operations", Json.ofNats b.operations)]

/-- Reads a block. -/
def ofJson? (j : Json) : Option Block := do
  match ← j.fields? ["id", "region", "arguments", "operations"] with
  | [id, region, arguments, operations] =>
    return ⟨← Json.required Json.index? id, ← Json.required Json.index? region,
      ← Json.required (Json.listOf? Json.index?) arguments,
      ← Json.required (Json.listOf? Json.index?) operations⟩
  | _ => none

end Block

namespace Registry

/-- Writes a registry. -/
def toJson (r : Registry) : Json :=
  .object [("operations", .object (r.operations.entries.map fun e => (e.1, OpIdentity.toJson e.2)))]

/-- Reads a registry. -/
def ofJson? (j : Json) : Option Registry := do
  match ← j.fields? ["operations"] with
  | [operations] =>
    let entries ← (← Json.required Json.members? operations).mapM fun m => do
      return (m.1, ← OpIdentity.ofJson? m.2)
    return ⟨Dict.ofList entries⟩
  | _ => none

end Registry

namespace TypeTable

/-- Writes a table of types. -/
def toJson (t : TypeTable) : Json :=
  .object [("types", .list (t.entries.toList.map Shape.toJson))]

/-- Reads a table of types. -/
def ofJson? (j : Json) : Option TypeTable := do
  match ← j.fields? ["types"] with
  | [types] => return Interned.ofList (← Json.required (Json.listOf? Shape.ofJson?) types)
  | _ => none

end TypeTable

namespace Graph

/-- Writes a graph. -/
def toJson (g : Graph) : Json :=
  .object [("operations", .list (g.operations.toList.map Operation.toJson)),
    ("regions", .list (g.regions.toList.map Region.toJson)),
    ("blocks", .list (g.blocks.toList.map Block.toJson)), ("types", TypeTable.toJson g.types),
    ("registry", g.registry.toJson), ("body", Json.ofNat g.body)]

/-- Reads a graph. -/
def ofJson? (j : Json) : Option Graph := do
  match ← j.fields? ["operations", "regions", "blocks", "types", "registry", "body"] with
  | [operations, regions, blocks, types, registry, body] =>
    let g : Graph := {
      operations := (← Json.required (Json.listOf? Operation.ofJson?) operations).toArray
      regions := (← Json.required (Json.listOf? Region.ofJson?) regions).toArray
      blocks := (← Json.required (Json.listOf? Block.ofJson?) blocks).toArray
      types := ← Json.required TypeTable.ofJson? types
      registry := ← Json.required Registry.ofJson? registry
      body := ← Json.required Json.index? body
      useLists := .empty }
    return g.rebuildUses
  | _ => none

end Graph

end Readback
