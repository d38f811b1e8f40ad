/-! # Builtin types

The arithmetic types of C and `void`, with their names, conversion ranks and signedness. -/

namespace Readback

/-- A builtin type. -/
inductive Builtin where
  | void
  | bool
  | char
  | signedChar
  | unsignedChar
  | short
  | unsignedShort
  | int
  | unsignedInt
  | long
  | unsignedLong
  | longLong
  | unsignedLongLong
  | int128
  | unsignedInt128
  | half
  | bfloat16
  | float
  | double
  | longDouble
  | float128
deriving DecidableEq, Inhabited

namespace Builtin

/-- All builtin types, in their fixed order. -/
def all : List Builtin :=
  [.void, .bool, .char, .signedChar, .unsignedChar, .short, .unsignedShort, .int, .unsignedInt,
    .long, .unsignedLong, .longLong, .unsignedLongLong, .int128, .unsignedInt128, .half, .bfloat16,
    .float, .double, .longDouble, .float128]

/-- The tag of the type in interchange forms. -/
def tag : Builtin → String
  | .void => "Void"
  | .bool => "Bool"
  | .char => "Char"
  | .signedChar => "SignedChar"
  | .unsignedChar => "UnsignedChar"
  | .short => "Short"
  | .unsignedShort => "UnsignedShort"
  | .int => "Int"
  | .unsignedInt => "UnsignedInt"
  | .long => "Long"
  | .unsignedLong => "UnsignedLong"
  | .longLong => "LongLong"
  | .unsignedLongLong => "UnsignedLongLong"
  | .int128 => "Int128"
  | .unsignedInt128 => "UnsignedInt128"
  | .half => "Half"
  | .bfloat16 => "BFloat16"
  | .float => "Float"
  | .double => "Double"
  | .longDouble => "LongDouble"
  | .float128 => "Float128"

/-- The type with the given tag. -/
def ofTag? (tag : String) : Option Builtin := all.find? fun k => k.tag == tag

/-- The name of the type in C. -/
def name : Builtin → String
  | .void => "void"
  | .bool => "_Bool"
  | .char => "char"
  | .signedChar => "signed char"
  | .unsignedChar => "unsigned char"
  | .short => "short"
  | .unsignedShort => "unsigned short"
  | .int => "int"
  | .unsignedInt => "unsigned int"
  | .long => "long"
  | .unsignedLong => "unsigned long"
  | .longLong => "long long"
  | .unsignedLongLong => "unsigned long long"
  | .int128 => "__int128"
  | .unsignedInt128 => "unsigned __int128"
  | .half => "__fp16"
  | .bfloat16 => "__bf16"
  | .float => "float"
  | .double => "double"
  | .longDouble => "long double"
  | .float128 => "__float128"

/-- The conversion rank of an integer type. -/
def integerRank? : Builtin → Option Nat
  | .bool => some 1
  | .char | .signedChar | .unsignedChar => some 2
  | .short | .unsignedShort => some 3
  | .int | .unsignedInt => some 4
  | .long | .unsignedLong => some 5
  | .longLong | .unsignedLongLong => some 6
  | .int128 | .unsignedInt128 => some 7
  | _ => none

/-- The conversion rank of a floating type. -/
def floatingRank? : Builtin → Option Nat
  | .half | .bfloat16 => some 1
  | .float => some 2
  | .double => some 3
  | .longDouble => some 4
  | .float128 => some 5
  | _ => none

/-- Whether the type is an integer type. -/
def isInteger (k : Builtin) : Bool := k.integerRank?.isSome

/-- Whether the type is a floating type. -/
def isFloating (k : Builtin) : Bool := k.floatingRank?.isSome

/-- Whether the type is an integer or floating type. -/
def isArithmetic (k : Builtin) : Bool := k.isInteger || k.isFloating

/-- Whether an integer type is unsigned; plain `char` is what the target says. -/
def isUnsigned (charIsUnsigned : Bool) : Builtin → Bool
  | .bool | .unsignedChar | .unsignedShort | .unsignedInt | .unsignedLong | .unsignedLongLong
  | .unsignedInt128 => true
  | .char => charIsUnsigned
  | _ => false

/-- The unsigned type of the same rank; types without one stay as they are. -/
def toUnsigned : Builtin → Builtin
  | .char | .signedChar => .unsignedChar
  | .short => .unsignedShort
  | .int => .unsignedInt
  | .long => .unsignedLong
  | .longLong => .unsignedLongLong
  | .int128 => .unsignedInt128
  | k => k

end Builtin

end Readback
