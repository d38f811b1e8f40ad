import Readback.Typing.Conversion

/-! # Typed construction of expressions

Each step adds one expression to a program from expressions that are already there. It checks the
operand types as C does, gives the new expression its type, and puts parentheses around operands
that would otherwise be read differently. -/

namespace Readback

namespace Check

/-! ### References and parentheses -/

/-- A reference to a function, parameter or variable. It always stands for a location. -/
def declRef (decl : DeclId) : Check ExprId := do
  let d := (← get).decl decl
  match d.kind with
  | .function type _ _ _ => pushExpr (.ref decl) type .lvalue
  | .param type _ => pushExpr (.ref decl) type .lvalue
  | .var type _ _ => pushExpr (.ref decl) type .lvalue
  | .record _ => throw (.notAValue d.name)
  | .field _ _ => throw (.notAValue d.name)

/-- An expression in parentheses. -/
def paren (e : ExprId) : Check ExprId := do
  let x := (← get).expr e
  pushExpr (.paren e) x.type x.category

/-- Puts parentheses around an expression that binds looser than `least`. -/
def parenBelow (e : ExprId) (least : Precedence) : Check ExprId := do
  if (← get).precedence e < least then paren e else return e

/-- Puts parentheses around an expression that does not bind tighter than `most`. -/
def parenUpTo (e : ExprId) (most : Precedence) : Check ExprId := do
  if (← get).precedence e ≤ most then paren e else return e

/-- Puts parentheses around the expressions of a list separated by commas, where needed. -/
def listed (es : List ExprId) : Check (List ExprId) := es.mapM fun e => parenUpTo e .comma

/-! ### Literals -/

/-- The number congruent to `value` modulo `2 ^ width` in the range of the signedness. -/
def wrap (width : Nat) (isUnsigned : Bool) (value : Int) : Int :=
  let wrapped := value % Nat.pow 2 width
  if !isUnsigned ∧ Nat.pow 2 (width - 1) ≤ wrapped then wrapped - Nat.pow 2 width else wrapped

/-- An integer literal. The value wraps to the width of its type. -/
def integer (value : Int) (type : QualType) : Check ExprId := do
  let p ← get
  match (p.builtin? type).filter Builtin.isInteger with
  | none => throw (.literal ("integer literal of type " ++ Fault.quoted (p.typeText type)))
  | some kind =>
    let width := (p.target.integerWidth? kind).getD 64
    pushExpr (.integer (wrap width (kind.isUnsigned p.target.charIsUnsigned) value)) type .rvalue

/-- A floating literal. A `float` literal is rounded to single precision. -/
def floating (value : Binary64) (type : QualType) : Check ExprId := do
  let p ← get
  match (p.builtin? type).filter Builtin.isFloating with
  | none => throw (.literal ("floating literal of type " ++ Fault.quoted (p.typeText type)))
  | some kind =>
    pushExpr (.floating (if kind = .float then value.toSingle else value)) type .rvalue

/-- A text literal, an array of its bytes and a final zero. -/
def text (value : String) : Check ExprId := do
  let char ← builtin .char
  let type ← arrayOf char (some (value.utf8ByteSize + 1))
  pushExpr (.text value) type .lvalue

/-! ### Casts and operators -/

/-- A cast. A written cast has to lead to `void` or a scalar type. -/
def cast (style : CastStyle) (conversion : Conversion) (type : QualType) (operand : ExprId)
    (category : ValueCategory) : Check ExprId := do
  match style with
  | .implicit => pushExpr (.cast style conversion operand) type category
  | .explicit =>
    let p ← get
    if !(p.isVoid type || p.isScalar type) then throw (.cast (p.typeText type))
    let operand ← parenBelow operand .unary
    pushExpr (.cast style conversion operand) type category

/-- The fault of a unary operator that does not take an operand of the type. -/
def operandFault (p : Program) (op : UnaryOp) (type : QualType) : Fault :=
  .operand op.spelling (p.typeText type)

/-- The type and category of an application of a unary operator. -/
def unaryType (op : UnaryOp) (operand : ExprId) : Check (QualType × ValueCategory) := do
  let p ← get
  let type := (p.expr operand).type
  match op with
  | .postInc | .postDec | .preInc | .preDec =>
    storable operand
    if !p.isScalar type then throw (operandFault p op type)
    return (type.unqualified, .rvalue)
  | .addressOf =>
    if !(p.expr operand).isLvalue && !p.isFunction type then throw (operandFault p op type)
    return (← pointerTo type, .rvalue)
  | .deref =>
    let decayed ← decay type
    match (← get).pointee? decayed with
    | some pointee => return (pointee, .lvalue)
    | none => throw (operandFault p op type)
  | .plus | .minus =>
    if !p.isArithmetic type then throw (operandFault p op type)
    return (← promote type, .rvalue)
  | .bitNot =>
    if !p.isInteger type then throw (operandFault p op type)
    return (← promote type, .rvalue)
  | .logicalNot =>
    let decayed ← decay type
    if !(← get).isScalar decayed then throw (operandFault p op type)
    return (← builtin .int, .rvalue)

/-- An application of a unary operator. -/
def unary (op : UnaryOp) (operand : ExprId) : Check ExprId := do
  let (type, category) ← unaryType op operand
  let operand ← parenBelow operand op.precedence
  pushExpr (.unary op operand) type category

/-- The type of a binary operator that does not store, for decayed operand types `l` and `r`; `none`
if the operator does not take them. -/
def operatorType? (op : BinaryOp) (l r : QualType) (lhs rhs : ExprId) :
    Check (Option QualType) := do
  let p ← get
  let arithmetic := p.isArithmetic l && p.isArithmetic r
  let integer := p.isInteger l && p.isInteger r
  let pointers := p.isPointer l && p.isPointer r
  match op with
  | .mul | .div => if arithmetic then some <$> usualConversions l r else return none
  | .rem | .bitAnd | .bitXor | .bitOr =>
    if integer then some <$> usualConversions l r else return none
  | .shl | .shr => if integer then some <$> promote l else return none
  | .add =>
    if arithmetic then some <$> usualConversions l r
    else if p.isPointer l && p.isInteger r then return some l.unqualified
    else if p.isInteger l && p.isPointer r then return some r.unqualified
    else return none
  | .sub =>
    if arithmetic then some <$> usualConversions l r
    else if p.isPointer l && p.isInteger r then return some l.unqualified
    else if pointers then some <$> builtin p.target.pointerDifference
    else return none
  | .lt | .gt | .le | .ge =>
    if arithmetic || pointers then some <$> builtin .int else return none
  | .eq | .ne =>
    if arithmetic || pointers || (p.isPointer l && p.isNullPointer rhs)
        || (p.isPointer r && p.isNullPointer lhs) then
      some <$> builtin .int
    else return none
  | .logicalAnd | .logicalOr =>
    if p.isScalar l && p.isScalar r then some <$> builtin .int else return none
  | .comma => return some (p.expr rhs).type.unqualified
  | _ => return none

/-- The type of an application of a binary operator that does not store. -/
def operatorType (op : BinaryOp) (lhs rhs : ExprId) : Check QualType := do
  let p ← get
  let lhsType := (p.expr lhs).type
  let rhsType := (p.expr rhs).type
  let l ← decay lhsType
  let r ← decay rhsType
  match ← operatorType? op l r lhs rhs with
  | some type => return type
  | none =>
    let p ← get
    throw (.operands op.spelling (p.typeText lhsType) (p.typeText rhsType))

/-- The type of an application of any binary operator. -/
def binaryType (op : BinaryOp) (lhs rhs : ExprId) : Check QualType := do
  let target := ((← get).expr lhs).type.unqualified
  if op = .assign then
    storable lhs
    assignable target rhs
    return target
  else
    match op.compoundBase? with
    | some base =>
      storable lhs
      let _ ← operatorType base lhs rhs
      return target
    | none => operatorType op lhs rhs

/-- An application of a binary operator. Assignments group to the right and all others to the left.
-/
def binary (op : BinaryOp) (lhs rhs : ExprId) : Check ExprId := do
  let type ← binaryType op lhs rhs
  if op.isAssignment then
    let lhs ← parenUpTo lhs op.precedence
    let rhs ← parenBelow rhs op.precedence
    pushExpr (.binary op lhs rhs) type .rvalue
  else
    let lhs ← parenBelow lhs op.precedence
    let rhs ← parenUpTo rhs op.precedence
    pushExpr (.binary op lhs rhs) type .rvalue

/-! ### Lists and calls -/

/-- A list of initial values for an object of a type. -/
def initList (type : QualType) (elements : List ExprId) : Check ExprId := do
  let elements ← listed elements
  pushExpr (.initList elements) type .rvalue

/-- The function type behind a function or a pointer to one. -/
def calleeParts? (p : Program) (type : QualType) : Option (QualType × List QualType × Bool) :=
  if p.isFunction type then p.functionParts? type
  else (p.pointee? type).bind p.functionParts?

/-- A call. A variadic function takes further arguments. -/
def call (callee : ExprId) (args : List ExprId) : Check ExprId := do
  let p ← get
  let type := (p.expr callee).type
  match calleeParts? p type with
  | none => throw (.notCallable (p.typeText type))
  | some (result, params, isVariadic) =>
    if args.length < params.length || (!isVariadic && params.length < args.length) then
      throw (.argumentCount params.length args.length)
    let callee ← parenBelow callee .suffixed
    let args ← listed args
    pushExpr (.call callee args) result.unqualified .rvalue

/-- Checks that an expression may control a statement. -/
def condition (e : ExprId) : Check ExprId := do
  let type := ((← get).expr e).type
  let decayed ← decay type
  let p ← get
  if p.isScalar decayed then return e else throw (.condition (p.typeText type))

end Check

end Readback
