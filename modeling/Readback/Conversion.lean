/-! # Conversions

The kinds of cast that an operation may ask for. A graph may name any of them; only some have a
counterpart among the casts that a lifted program can hold. -/

namespace Readback

/-- What a cast does to its operand. -/
inductive Conversion where
  | dependent
  | bitCast
  | lvalueBitCast
  | lvalueToRValueBitCast
  | lvalueToRValue
  | noOp
  | baseToDerived
  | derivedToBase
  | toUnion
  | arrayToPointerDecay
  | functionToPointerDecay
  | nullToPointer
  | integralToPointer
  | pointerToIntegral
  | pointerToBoolean
  | toVoid
  | vectorSplat
  | integralCast
  | integralToBoolean
  | integralToFloating
  | floatingToFixedPoint
  | fixedPointToFloating
  | fixedPointCast
  | fixedPointToIntegral
  | integralToFixedPoint
  | fixedPointToBoolean
  | floatingToIntegral
  | floatingToBoolean
  | booleanToSignedIntegral
  | floatingCast
  | floatingRealToComplex
  | floatingComplexToReal
  | integralRealToComplex
  | integralComplexToReal
  | atomicToNonAtomic
  | nonAtomicToAtomic
  | addressSpaceConversion
deriving DecidableEq, Inhabited

namespace Conversion

/-- All conversions, in their fixed order. -/
def all : List Conversion :=
  [.dependent, .bitCast, .lvalueBitCast, .lvalueToRValueBitCast, .lvalueToRValue, .noOp,
    .baseToDerived, .derivedToBase, .toUnion, .arrayToPointerDecay, .functionToPointerDecay,
    .nullToPointer, .integralToPointer, .pointerToIntegral, .pointerToBoolean, .toVoid,
    .vectorSplat, .integralCast, .integralToBoolean, .integralToFloating, .floatingToFixedPoint,
    .fixedPointToFloating, .fixedPointCast, .fixedPointToIntegral, .integralToFixedPoint,
    .fixedPointToBoolean, .floatingToIntegral, .floatingToBoolean, .booleanToSignedIntegral,
    .floatingCast, .floatingRealToComplex, .floatingComplexToReal, .integralRealToComplex,
    .integralComplexToReal, .atomicToNonAtomic, .nonAtomicToAtomic, .addressSpaceConversion]

/-- The name of the conversion. -/
def name : Conversion → String
  | .dependent => "Dependent"
  | .bitCast => "BitCast"
  | .lvalueBitCast => "LValueBitCast"
  | .lvalueToRValueBitCast => "LValueToRValueBitCast"
  | .lvalueToRValue => "LValueToRValue"
  | .noOp => "NoOp"
  | .baseToDerived => "BaseToDerived"
  | .derivedToBase => "DerivedToBase"
  | .toUnion => "ToUnion"
  | .arrayToPointerDecay => "ArrayToPointerDecay"
  | .functionToPointerDecay => "FunctionToPointerDecay"
  | .nullToPointer => "NullToPointer"
  | .integralToPointer => "IntegralToPointer"
  | .pointerToIntegral => "PointerToIntegral"
  | .pointerToBoolean => "PointerToBoolean"
  | .toVoid => "ToVoid"
  | .vectorSplat => "VectorSplat"
  | .integralCast => "IntegralCast"
  | .integralToBoolean => "IntegralToBoolean"
  | .integralToFloating => "IntegralToFloating"
  | .floatingToFixedPoint => "FloatingToFixedPoint"
  | .fixedPointToFloating => "FixedPointToFloating"
  | .fixedPointCast => "FixedPointCast"
  | .fixedPointToIntegral => "FixedPointToIntegral"
  | .integralToFixedPoint => "IntegralToFixedPoint"
  | .fixedPointToBoolean => "FixedPointToBoolean"
  | .floatingToIntegral => "FloatingToIntegral"
  | .floatingToBoolean => "FloatingToBoolean"
  | .booleanToSignedIntegral => "BooleanToSignedIntegral"
  | .floatingCast => "FloatingCast"
  | .floatingRealToComplex => "FloatingRealToComplex"
  | .floatingComplexToReal => "FloatingComplexToReal"
  | .integralRealToComplex => "IntegralRealToComplex"
  | .integralComplexToReal => "IntegralComplexToReal"
  | .atomicToNonAtomic => "AtomicToNonAtomic"
  | .nonAtomicToAtomic => "NonAtomicToAtomic"
  | .addressSpaceConversion => "AddressSpaceConversion"

/-- The conversion with the given name. -/
def ofName? (name : String) : Option Conversion := all.find? fun k => k.name == name

/-- Whether a lifted program can hold casts of this kind. -/
def isLiftable : Conversion → Bool
  | .noOp | .integralCast | .floatingCast | .integralToFloating | .integralToBoolean
  | .floatingToFixedPoint | .floatingToIntegral | .floatingToBoolean | .fixedPointToFloating
  | .fixedPointToIntegral | .fixedPointToBoolean | .lvalueToRValue | .lvalueToRValueBitCast
  | .pointerToIntegral | .pointerToBoolean => true
  | _ => false

end Conversion

end Readback
