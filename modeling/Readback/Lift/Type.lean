import Readback.Lift.State

/-! # Lifting types

Each type of the graph becomes a C type, once. Locations become the type that they hold. Types that
are known by name only cannot be lifted. -/

namespace Readback

/-- The builtin type of a plain type. -/
def PlainShape.builtin : PlainShape → Builtin
  | .void => .void
  | .bool => .bool
  | .half => .half
  | .bfloat16 => .bfloat16
  | .float => .float
  | .double => .double
  | .longDouble => .longDouble
  | .float128 => .float128

/-- The builtin type of an integer type. A `char` is spelled plain exactly when its signedness is
that of the target. -/
def IntegerShape.builtin (target : Target) (isUnsigned : Bool) : IntegerShape → Builtin
  | .char =>
    if isUnsigned = target.charIsUnsigned then .char
    else if isUnsigned then .unsignedChar else .signedChar
  | .short => if isUnsigned then .unsignedShort else .short
  | .int => if isUnsigned then .unsignedInt else .int
  | .long => if isUnsigned then .unsignedLong else .long
  | .longLong => if isUnsigned then .unsignedLongLong else .longLong
  | .int128 => if isUnsigned then .unsignedInt128 else .int128

namespace Lift

/-- A builtin type with qualifiers. -/
def qualified (kind : Builtin) (quals : Quals) : Lift QualType := do
  return (← typed (Check.builtin kind)).withQuals quals

/-- Lifts one level of a type; `lift` lifts the types that it refers to. -/
def shape (env : LiftEnv) (lift : TypeId → Lift QualType) (id : TypeId) (s : Shape) :
    Lift QualType := do
  match s with
  | .plain kind quals => qualified kind.builtin (quals.elim .none Cv.quals)
  | .integer kind quals =>
    let target := (← program).target
    qualified (kind.builtin target (quals.any Ucv.isUnsigned)) (quals.elim .none Ucv.quals)
  | .pointer element quals =>
    let pointee ← lift element
    return (← typed (Check.pointerTo pointee)).withQuals (quals.getD .none)
  | .array element size quals =>
    let element ← lift element
    return (← typed (Check.arrayOf element size)).withQuals (quals.getD .none)
  | .lvalue element => lift element
  | .function inputs results =>
    let result ← match results with
      | [] => typed (Check.builtin .void)
      | [single] => lift single
      | _ => throw (.malformed ("function type with " ++ toString results.length ++ " results"))
    let params ← inputs.mapM lift
    typed (Check.functionType result params false)
  | .named _ _ => throw (.unsupportedType (env.graph.types.text id))

/-- Lifts a type unless it has been lifted before. The number bounds the depth of the type. -/
def typeAux (env : LiftEnv) : Nat → TypeId → Lift QualType
  | bound, id => do
    match (← get).typeOf.get? id with
    | some t => return t
    | none =>
      match env.graph.types.get? id, bound with
      | none, _ => throw (.unsupportedType (TypeId.text id))
      | some _, 0 => throw .unbounded
      | some s, bound + 1 =>
        let t ← shape env (typeAux env bound) id s
        modify fun s =>
          { s with
            typeOf := s.typeOf.insert id t
            stats := { s.stats with typesLifted := s.stats.typesLifted + 1 } }
        return t

/-- Lifts a type. A type that does not contain itself is no deeper than there are types. -/
def type (env : LiftEnv) (id : TypeId) : Lift QualType := typeAux env env.graph.types.size id

end Lift

end Readback
