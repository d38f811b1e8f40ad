import Readback.Graph.Basic

/-! # Listings

The text of an operation with everything nested in it, and of a whole graph: one operation a line,
nested operations two blanks further in. -/

namespace Readback

namespace Graph

/-- The blanks in front of a line at a depth. -/
def margin (depth : Nat) : String := "".pushn ' ' (2 * depth)

/-- An attribute, types shown in full. -/
def attributeText (g : Graph) : Attribute → String
  | .type id => g.types.text id
  | a => a.display

/-- The attributes of an operation in braces, if it has any. -/
def attributesText (g : Graph) (o : Operation) : String :=
  if o.attributes.isEmpty then ""
  else
    let items := o.attributes.entries.map fun e => e.1 ++ " = " ++ g.attributeText e.2
    " \x7b" ++ ", ".intercalate items ++ "\x7d"

/-- An operation up to its regions. -/
def headText (g : Graph) (o : Operation) : String :=
  let results :=
    if o.resultTypes.isEmpty then "" else ", ".intercalate (o.results.map Value.text) ++ " = "
  let operands :=
    if o.operands.isEmpty then "" else " " ++ ", ".intercalate (o.operands.map Value.text)
  let types :=
    if o.resultTypes.isEmpty then ""
    else " : " ++ ", ".intercalate (o.resultTypes.map g.types.text)
  results ++ o.name.text ++ operands ++ g.attributesText o ++ types

/-- The line that opens a block. It is left out for the only block of a region when that block has
no arguments. -/
def blockHead (g : Graph) (depth : Nat) (b : Block) (isOnly : Bool) : String :=
  if b.arguments.isEmpty ∧ isOnly then ""
  else
    let arguments := b.arguments.zipIdx.map fun a =>
      (Value.argument b.id a.2).text ++ ": " ++ g.types.text a.1
    margin depth ++ BlockId.text b.id ++ "(" ++ ", ".intercalate arguments ++ "):\n"

/-- A region in braces; `inner` gives the text of an operation one level further in. -/
def regionText (g : Graph) (depth : Nat) (inner : OpId → String) (id : RegionId) : String :=
  match g.region? id with
  | none => "<invalid " ++ RegionId.text id ++ ">"
  | some r =>
    if r.blocks.isEmpty then "\x7b\x7d"
    else
      let blocks := (r.blocks.filterMap g.block?).map fun b =>
        g.blockHead depth b (r.blocks.length ≤ 1) ++ String.join (b.operations.map inner)
      "\x7b\n" ++ String.join blocks ++ margin depth ++ "\x7d"

/-- The text of an operation. The first argument bounds the depth of the nesting. -/
def opTextAux (g : Graph) : Nat → Nat → OpId → String
  | 0, _, _ => ""
  | n + 1, depth, id =>
    match g.op? id with
    | none => margin depth ++ "<invalid " ++ OpId.text id ++ ">\n"
    | some o =>
      let regions := o.regions.map fun r =>
        " " ++ g.regionText depth (g.opTextAux n (depth + 1)) r
      margin depth ++ g.headText o ++ String.join regions ++ "\n"

/-- The text of an operation and everything nested in it. Operations that do not contain themselves
are nested no deeper than there are operations. -/
def opText (g : Graph) (id : OpId) : String := g.opTextAux (g.operations.size + 1) 0 id

/-- The text of all operations of the body. -/
def text (g : Graph) : String := String.join (g.topLevelOps.map g.opText)

end Graph

end Readback
