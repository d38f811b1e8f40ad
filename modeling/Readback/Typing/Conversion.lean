import Readback.Typing.Fault

/-! # Conversions between types

Promotion, the usual arithmetic conversions, decay of arrays and functions to pointers, and what may
be stored where. -/

namespace Readback

namespace Check

/-- Decays arrays to pointers to their elements and functions to pointers to themselves. -/
def decay (t : QualType) : Check QualType := do
  match (← get).node t with
  | .array element _ => pointerTo element
  | .function _ _ _ => pointerTo t
  | _ => return t

/-- Integer promotion: types ranked below `int` become `int`; others lose their qualifiers. -/
def promote (t : QualType) : Check QualType := do
  match ((← get).builtin? t).bind Builtin.integerRank? with
  | some rank => if rank < 4 then builtin .int else return t.unqualified
  | none => return t.unqualified

/-- The common type of two integer types that are already promoted: the higher rank when both are
signed or both unsigned; else the unsigned one unless the signed one ranks higher; then the signed
one if it is wider, and its unsigned counterpart otherwise. -/
def commonInteger (lhs rhs : QualType) : Check QualType := do
  let p ← get
  match p.builtin? lhs, p.builtin? rhs with
  | some l, some r =>
    if l = r then return lhs
    let lRank := l.integerRank?.getD 0
    let rRank := r.integerRank?.getD 0
    let lUnsigned := l.isUnsigned p.target.charIsUnsigned
    let rUnsigned := r.isUnsigned p.target.charIsUnsigned
    if lUnsigned = rUnsigned then return if rRank ≤ lRank then lhs else rhs
    let (unsigned, unsignedRank, signed, signedRank) :=
      if lUnsigned then (l, lRank, r, rRank) else (r, rRank, l, lRank)
    if signedRank ≤ unsignedRank then builtin unsigned
    else if (p.target.integerWidth? unsigned).getD 0 < (p.target.integerWidth? signed).getD 0 then
      builtin signed
    else builtin signed.toUnsigned
  | _, _ => return lhs

/-- The usual arithmetic conversions: the floating type of higher rank if there is one, else the
common type of the promoted operands. -/
def usualConversions (lhs rhs : QualType) : Check QualType := do
  let p ← get
  match p.builtin? lhs, p.builtin? rhs with
  | some l, some r =>
    match l.floatingRank?, r.floatingRank? with
    | some a, some b => return if b ≤ a then lhs.unqualified else rhs.unqualified
    | some _, none => return lhs.unqualified
    | none, some _ => return rhs.unqualified
    | none, none =>
      let lhs ← promote lhs
      let rhs ← promote rhs
      commonInteger lhs rhs
  | _, _ => return lhs.unqualified

end Check

namespace Program

/-- Whether an expression is a zero literal, seen through implicit casts and then parentheses. -/
def isNullPointer (p : Program) (e : ExprId) : Bool :=
  match (p.expr (p.skipParens (p.skipCasts e))).kind with
  | .integer value => value == 0
  | _ => false

/-- Why an expression cannot be stored to, if it cannot. -/
def storeFault? (p : Program) (e : ExprId) : Option Fault :=
  let x := p.expr e
  if !x.isLvalue || p.isArray x.type || p.isFunction x.type then some .notAssignable
  else if x.type.isConst then some (.constAssignment (p.typeText x.type))
  else none

/-- Whether a value of the decayed type `source` may be stored in an object of type `target`;
`e` is the expression for the value. -/
def isStorable (p : Program) (target source : QualType) (e : ExprId) : Bool :=
  if p.isArithmetic target then
    p.isArithmetic source || (p.builtin? target == some .bool && p.isPointer source)
  else if p.isPointer target then p.isPointer source || p.isNullPointer e
  else if p.isRecord target then source.ref == target.ref
  else false

end Program

namespace Check

/-- Checks that an expression can be stored to. -/
def storable (e : ExprId) : Check Unit := do
  match (← get).storeFault? e with
  | some fault => throw fault
  | none => return ()

/-- Checks that the value of an expression may be stored in an object of a type. -/
def assignable (target : QualType) (e : ExprId) : Check Unit := do
  let source ← decay ((← get).expr e).type
  let p ← get
  if !p.isStorable target source e then
    throw (.incompatible (p.typeText target) (p.typeText source))

/-- Checks that an expression may be the initial value of an object of a type. Lists of initial
values are not looked into, and a text may fill any array. -/
def initializable (target : QualType) (e : ExprId) : Check Unit := do
  let p ← get
  match (p.expr e).kind with
  | .initList _ => return ()
  | .text _ => if p.isArray target then return () else assignable target.unqualified e
  | _ => assignable target.unqualified e

end Check

end Readback
