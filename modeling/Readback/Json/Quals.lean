import Readback.Json.Basic
import Readback.Quals

/-! # Interchange form of qualifiers

Sets of qualifiers are records of truth values, one per qualifier. -/

namespace Readback

namespace Cv

/-- Writes the qualifiers. -/
def toJson (q : Cv) : Json :=
  .object [("is_const", .bool q.isConst), ("is_volatile", .bool q.isVolatile)]

/-- Reads the qualifiers. -/
def ofJson? (j : Json) : Option Cv := do
  match ← j.fields? ["is_const", "is_volatile"] with
  | [c, v] => return ⟨← Json.required Json.bool? c, ← Json.required Json.bool? v⟩
  | _ => none

end Cv

namespace Ucv

/-- Writes the qualifiers. -/
def toJson (q : Ucv) : Json :=
  .object [("is_unsigned", .bool q.isUnsigned), ("is_const", .bool q.isConst),
    ("is_volatile", .bool q.isVolatile)]

/-- Reads the qualifiers. -/
def ofJson? (j : Json) : Option Ucv := do
  match ← j.fields? ["is_unsigned", "is_const", "is_volatile"] with
  | [u, c, v] =>
    return ⟨← Json.required Json.bool? u, ← Json.required Json.bool? c,
      ← Json.required Json.bool? v⟩
  | _ => none

end Ucv

namespace Quals

/-- Writes the qualifiers. -/
def toJson (q : Quals) : Json :=
  .object [("is_const", .bool q.isConst), ("is_volatile", .bool q.isVolatile),
    ("is_restrict", .bool q.isRestrict)]

/-- Reads the qualifiers. -/
def ofJson? (j : Json) : Option Quals := do
  match ← j.fields? ["is_const", "is_volatile", "is_restrict"] with
  | [c, v, r] =>
    return ⟨← Json.required Json.bool? c, ← Json.required Json.bool? v,
      ← Json.required Json.bool? r⟩
  | _ => .none

end Quals

end Readback
