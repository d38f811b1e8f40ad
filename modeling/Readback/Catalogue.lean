import Readback.Program.Outline

/-! # Catalogues

Tables of the builtin types, the operators and the conversions as JSON, in their fixed orders. -/

namespace Readback

/-- The widths of the builtin types on a target, and its pointer differences. -/
def Target.catalogue (t : Target) : Json :=
  .object [("target", t.toJson),
    ("widths", .list (Builtin.all.map fun k => Json.ofNat? (t.integerWidth? k))),
    ("ptrdiff", .text t.pointerDifference.tag)]

/-- The properties of a builtin type; signedness is given for signed and for unsigned `char`. -/
def Builtin.catalogue (k : Builtin) : Json :=
  .object [("name", .text k.name), ("integer", .bool k.isInteger), ("floating", .bool k.isFloating),
    ("arithmetic", .bool k.isArithmetic), ("integer_rank", Json.ofNat? k.integerRank?),
    ("floating_rank", Json.ofNat? k.floatingRank?),
    ("unsigned", Json.ofBools [k.isUnsigned false, k.isUnsigned true]),
    ("to_unsigned", .text k.toUnsigned.tag)]

namespace Catalogue

/-- All operators, predicates and storage classes. -/
def operators : Json :=
  .object [
    ("binary", .list (BinaryOp.all.map fun o =>
      .list [.text o.tag, .text o.spelling, .text o.precedence.tag, .bool o.isAssignment,
        .bool o.isComparison, Json.ofText? BinaryOp.tag o.compoundBase?])),
    ("unary", .list (UnaryOp.all.map fun o =>
      .list [.text o.tag, .text o.spelling, .text o.precedence.tag, .bool o.isSuffix,
        .bool o.isStep])),
    ("predicates", .list (Predicate.all.map fun p => .list [.text p.name, .text p.operator.tag])),
    ("storage", .list (Storage.all.map fun s => Json.ofOption .text s.keyword?))]

/-- All conversions, each with the one that a lifted program holds for it. -/
def conversions : Json :=
  .list (Conversion.all.map fun c =>
    .list [.text c.name, if c.isLiftable then .text c.name else .null])

end Catalogue

end Readback
