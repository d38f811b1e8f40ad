/-! # Operators of C

The unary and binary operators, how they are spelled, and how tightly they bind. -/

namespace Readback

/-- How tightly an expression binds, loosest first. -/
inductive Precedence where
  | comma
  | assignment
  | conditional
  | logicalOr
  | logicalAnd
  | inclusiveOr
  | exclusiveOr
  | bitAnd
  | equality
  | relational
  | shift
  | additive
  | multiplicative
  | unary
  | suffixed
  | primary
deriving DecidableEq, Inhabited

namespace Precedence

/-- The place in the order, from loose to tight. -/
def level : Precedence → Nat
  | .comma => 0
  | .assignment => 1
  | .conditional => 2
  | .logicalOr => 3
  | .logicalAnd => 4
  | .inclusiveOr => 5
  | .exclusiveOr => 6
  | .bitAnd => 7
  | .equality => 8
  | .relational => 9
  | .shift => 10
  | .additive => 11
  | .multiplicative => 12
  | .unary => 13
  | .suffixed => 14
  | .primary => 15

/-- The tag of the level in interchange forms. -/
def tag : Precedence → String
  | .comma => "Comma"
  | .assignment => "Assignment"
  | .conditional => "Conditional"
  | .logicalOr => "LogicalOr"
  | .logicalAnd => "LogicalAnd"
  | .inclusiveOr => "InclusiveOr"
  | .exclusiveOr => "ExclusiveOr"
  | .bitAnd => "And"
  | .equality => "Equality"
  | .relational => "Relational"
  | .shift => "Shift"
  | .additive => "Additive"
  | .multiplicative => "Multiplicative"
  | .unary => "Unary"
  | .suffixed => "Postfix"
  | .primary => "Primary"

instance : LT Precedence := ⟨fun a b => a.level < b.level⟩

instance : LE Precedence := ⟨fun a b => a.level ≤ b.level⟩

instance (a b : Precedence) : Decidable (a < b) := inferInstanceAs (Decidable (a.level < b.level))

instance (a b : Precedence) : Decidable (a ≤ b) := inferInstanceAs (Decidable (a.level ≤ b.level))

end Precedence

/-- A unary operator. -/
inductive UnaryOp where
  | postInc
  | postDec
  | preInc
  | preDec
  | addressOf
  | deref
  | plus
  | minus
  | bitNot
  | logicalNot
deriving DecidableEq, Inhabited

namespace UnaryOp

/-- All unary operators, in their fixed order. -/
def all : List UnaryOp :=
  [.postInc, .postDec, .preInc, .preDec, .addressOf, .deref, .plus, .minus, .bitNot, .logicalNot]

/-- The tag of the operator in interchange forms. -/
def tag : UnaryOp → String
  | .postInc => "PostInc"
  | .postDec => "PostDec"
  | .preInc => "PreInc"
  | .preDec => "PreDec"
  | .addressOf => "AddrOf"
  | .deref => "Deref"
  | .plus => "Plus"
  | .minus => "Minus"
  | .bitNot => "Not"
  | .logicalNot => "LNot"

/-- The operator with the given tag. -/
def ofTag? (tag : String) : Option UnaryOp := all.find? fun o => o.tag == tag

/-- The operator as it is written. -/
def spelling : UnaryOp → String
  | .postInc | .preInc => "++"
  | .postDec | .preDec => "--"
  | .addressOf => "&"
  | .deref => "*"
  | .plus => "+"
  | .minus => "-"
  | .bitNot => "~"
  | .logicalNot => "!"

/-- Whether the operator follows its operand. -/
def isSuffix : UnaryOp → Bool
  | .postInc | .postDec => true
  | _ => false

/-- Whether the operator changes its operand by one. -/
def isStep : UnaryOp → Bool
  | .postInc | .postDec | .preInc | .preDec => true
  | _ => false

/-- How tightly an application of the operator binds. -/
def precedence (o : UnaryOp) : Precedence := if o.isSuffix then .suffixed else .unary

end UnaryOp

/-- A binary operator. -/
inductive BinaryOp where
  | mul
  | div
  | rem
  | add
  | sub
  | shl
  | shr
  | lt
  | gt
  | le
  | ge
  | eq
  | ne
  | bitAnd
  | bitXor
  | bitOr
  | logicalAnd
  | logicalOr
  | assign
  | mulAssign
  | divAssign
  | remAssign
  | addAssign
  | subAssign
  | shlAssign
  | shrAssign
  | andAssign
  | xorAssign
  | orAssign
  | comma
deriving DecidableEq, Inhabited

namespace BinaryOp

/-- All binary operators, in their fixed order. -/
def all : List BinaryOp :=
  [.mul, .div, .rem, .add, .sub, .shl, .shr, .lt, .gt, .le, .ge, .eq, .ne, .bitAnd, .bitXor,
    .bitOr, .logicalAnd, .logicalOr, .assign, .mulAssign, .divAssign, .remAssign, .addAssign,
    .subAssign, .shlAssign, .shrAssign, .andAssign, .xorAssign, .orAssign, .comma]

/-- The tag of the operator in interchange forms. -/
def tag : BinaryOp → String
  | .mul => "Mul"
  | .div => "Div"
  | .rem => "Rem"
  | .add => "Add"
  | .sub => "Sub"
  | .shl => "Shl"
  | .shr => "Shr"
  | .lt => "Lt"
  | .gt => "Gt"
  | .le => "Le"
  | .ge => "Ge"
  | .eq => "Eq"
  | .ne => "Ne"
  | .bitAnd => "And"
  | .bitXor => "Xor"
  | .bitOr => "Or"
  | .logicalAnd => "LAnd"
  | .logicalOr => "LOr"
  | .assign => "Assign"
  | .mulAssign => "MulAssign"
  | .divAssign => "DivAssign"
  | .remAssign => "RemAssign"
  | .addAssign => "AddAssign"
  | .subAssign => "SubAssign"
  | .shlAssign => "ShlAssign"
  | .shrAssign => "ShrAssign"
  | .andAssign => "AndAssign"
  | .xorAssign => "XorAssign"
  | .orAssign => "OrAssign"
  | .comma => "Comma"

/-- The operator with the given tag. -/
def ofTag? (tag : String) : Option BinaryOp := all.find? fun o => o.tag == tag

/-- The operator as it is written. -/
def spelling : BinaryOp → String
  | .mul => "*"
  | .div => "/"
  | .rem => "%"
  | .add => "+"
  | .sub => "-"
  | .shl => "<<"
  | .shr => ">>"
  | .lt => "<"
  | .gt => ">"
  | .le => "<="
  | .ge => ">="
  | .eq => "=="
  | .ne => "!="
  | .bitAnd => "&"
  | .bitXor => "^"
  | .bitOr => "|"
  | .logicalAnd => "&&"
  | .logicalOr => "||"
  | .assign => "="
  | .mulAssign => "*="
  | .divAssign => "/="
  | .remAssign => "%="
  | .addAssign => "+="
  | .subAssign => "-="
  | .shlAssign => "<<="
  | .shrAssign => ">>="
  | .andAssign => "&="
  | .xorAssign => "^="
  | .orAssign => "|="
  | .comma => ","

/-- How tightly an application of the operator binds. -/
def precedence : BinaryOp → Precedence
  | .mul | .div | .rem => .multiplicative
  | .add | .sub => .additive
  | .shl | .shr => .shift
  | .lt | .gt | .le | .ge => .relational
  | .eq | .ne => .equality
  | .bitAnd => .bitAnd
  | .bitXor => .exclusiveOr
  | .bitOr => .inclusiveOr
  | .logicalAnd => .logicalAnd
  | .logicalOr => .logicalOr
  | .comma => .comma
  | _ => .assignment

/-- Whether the operator stores into its left operand. -/
def isAssignment (o : BinaryOp) : Bool := o.precedence == .assignment

/-- Whether the operator compares. -/
def isComparison (o : BinaryOp) : Bool :=
  o.precedence == .relational || o.precedence == .equality

/-- The operator that a compound assignment applies before it stores. -/
def compoundBase? : BinaryOp → Option BinaryOp
  | .mulAssign => some .mul
  | .divAssign => some .div
  | .remAssign => some .rem
  | .addAssign => some .add
  | .subAssign => some .sub
  | .shlAssign => some .shl
  | .shrAssign => some .shr
  | .andAssign => some .bitAnd
  | .xorAssign => some .bitXor
  | .orAssign => some .bitOr
  | _ => none

end BinaryOp

/-- The predicate of an integer comparison. -/
inductive Predicate where
  | eq
  | ne
  | slt
  | sle
  | sgt
  | sge
  | ult
  | ule
  | ugt
  | uge
deriving DecidableEq, Inhabited

namespace Predicate

/-- All predicates, in their fixed order. -/
def all : List Predicate := [.eq, .ne, .slt, .sle, .sgt, .sge, .ult, .ule, .ugt, .uge]

/-- The name of the predicate in listings. -/
def name : Predicate → String
  | .eq => "eq"
  | .ne => "ne"
  | .slt => "slt"
  | .sle => "sle"
  | .sgt => "sgt"
  | .sge => "sge"
  | .ult => "ult"
  | .ule => "ule"
  | .ugt => "ugt"
  | .uge => "uge"

/-- The tag of the predicate in interchange forms: its name with a capital. -/
def tag (p : Predicate) : String := p.name.capitalize

/-- The predicate with the given tag. -/
def ofTag? (tag : String) : Option Predicate := all.find? fun p => p.tag == tag

/-- The operator of C. Signed and unsigned comparisons share one; the operand types tell them
apart. -/
def operator : Predicate → BinaryOp
  | .eq => .eq
  | .ne => .ne
  | .slt | .ult => .lt
  | .sgt | .ugt => .gt
  | .sle | .ule => .le
  | .sge | .uge => .ge

end Predicate

end Readback
