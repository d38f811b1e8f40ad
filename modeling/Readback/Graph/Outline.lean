import Readback.Graph.Interchange
import Readback.Graph.Listing

/-! # Outlines of graphs

Short JSON descriptions of a graph and of single types, regions and operations, meant to be looked
at and never read back. -/

namespace Readback

/-- What is known about a type of a table. -/
def TypeTable.outline (t : TypeTable) (id : TypeId) : Json :=
  let signature := (t.signature? id).map fun (inputs, results) =>
    Json.ofNats [inputs.length, results.length]
  let flags := (t.get? id).map fun s =>
    Json.ofBools [s.isInteger, s.isFloat, s.isUnsigned, s.isLvalue]
  .object [("type", Json.ofNat id), ("text", .text (t.text id)), ("len", Json.ofNat t.size),
    ("sig", signature.getD .null), ("flags", flags.getD .null)]

/-- The outline of a value by itself: its text, its key and where it comes from. -/
def Value.outline (v : Value) : Json :=
  .object [("text", .text v.text), ("opaque", .text (toString v.key)),
    ("op", Json.ofText? OpId.text v.definingOp?), ("argument", .bool v.isArgument)]

namespace Graph

/-- The outline of a graph: its operations at top level, its body and its types. -/
def outline (g : Graph) : Json :=
  .object [("ops", Json.ofNat g.operations.size), ("top", Json.ofNats g.topLevelOps),
    ("body", .text (RegionId.text g.body)), ("block", Json.ofText? BlockId.text g.bodyBlock?),
    ("registry", Json.ofNat g.registry.size), ("no_types", .bool (g.types.size == 0)),
    ("types", .list ((List.range g.types.size).map fun id =>
      .list [.text (TypeId.text id), .text (g.types.text id)]))]

/-- The outline of a value of the graph: its type and its uses. -/
def valueOutline (g : Graph) (v : Value) : Json :=
  .object [("text", .text v.text), ("ty", Json.ofText? g.types.text (g.valueType? v)),
    ("uses", Json.ofNats (g.uses v))]

/-- The outline of a region: its id, the number of its blocks and the first of them. -/
def regionOutline (g : Graph) (id : RegionId) : Json :=
  match g.region? id with
  | none => .null
  | some r =>
    .list [.text (RegionId.text r.id), Json.ofNat r.blocks.length,
      Json.ofText? BlockId.text r.blocks.head?, .bool r.blocks.isEmpty]

/-- The outline of an operation. It ends with the listing of the operation. -/
def opOutline (g : Graph) (id : OpId) : Json :=
  match g.op? id with
  | none => .null
  | some o =>
    .object [("name", .text o.name.text), ("dialect", .text o.name.dialect),
      ("mnemonic", .text o.name.mnemonic), ("info", Json.ofText? OpIdentity.text o.name.identity),
      ("kind", .text (Kind.titleOf o.kind?)),
      ("operands", Json.ofTexts (o.operands.map Value.text)),
      ("results", Json.ofTexts (o.results.map Value.text)),
      ("result_types", Json.ofTexts (o.resultTypes.map g.types.text)),
      ("regions", .list (o.regions.map g.regionOutline)),
      ("attrs", .list (o.attributes.entries.map fun a => .list [.text a.1, .text a.2.display])),
      ("symbol", Json.ofOption .text o.symbol?),
      ("parent", Json.ofText? (OpId.text ·.id) (g.parentOp? o)),
      ("uses", .bool (g.hasUses o.id)),
      ("past_end", Json.ofBools [o.results[o.results.length]?.isNone,
        o.operands[o.operands.length]?.isNone, o.regions[o.regions.length]?.isNone]),
      ("dump", .text (g.opText o.id))]

end Graph

end Readback
