import Readback.Lift.Type

/-! # Lifting values and expressions

A value is referred to where it is used: a declaration by a fresh reference, an expression by the
very node that its operation became, a block argument by a reference to the parameter. -/

namespace Readback

/-- The binary operator of an operation. -/
def Kind.binaryOp? : Kind → Option BinaryOp
  | .add | .addFloats => some .add
  | .sub | .subFloats => some .sub
  | .mul | .mulFloats => some .mul
  | .divSigned | .divUnsigned | .divFloats => some .div
  | .remSigned | .remUnsigned => some .rem
  | .shl => some .shl
  | .shrSigned | .shrUnsigned => some .shr
  | .bitAnd => some .bitAnd
  | .bitOr => some .bitOr
  | .bitXor => some .bitXor
  | .logicalAnd => some .logicalAnd
  | .logicalOr => some .logicalOr
  | .comma => some .comma
  | .assign => some .assign
  | .addAssign => some .addAssign
  | .subAssign => some .subAssign
  | .mulAssign => some .mulAssign
  | .divSignedAssign | .divUnsignedAssign => some .divAssign
  | .remSignedAssign | .remUnsignedAssign => some .remAssign
  | .shlAssign => some .shlAssign
  | .shrSignedAssign | .shrUnsignedAssign => some .shrAssign
  | .bitAndAssign => some .andAssign
  | .bitOrAssign => some .orAssign
  | .bitXorAssign => some .xorAssign
  | _ => none

/-- The unary operator of an operation. -/
def Kind.unaryOp? : Kind → Option UnaryOp
  | .bitNot => some .bitNot
  | .logicalNot => some .logicalNot
  | .minus => some .minus
  | .plus => some .plus
  | .addressOf => some .addressOf
  | .deref => some .deref
  | .preInc => some .preInc
  | .preDec => some .preDec
  | .postInc => some .postInc
  | .postDec => some .postDec
  | _ => none

namespace LiftState

/-- The expression that the operation of a value became. -/
def exprOf? (s : LiftState) (op : OpId) : Option ExprId := do
  let stmt ← (← s.opStmt.get? op)
  s.program.asExpr? stmt

end LiftState

namespace Lift

/-! ### Values -/

/-- The expression for a value at a place where it is used. -/
def value (v : Value) : Lift ExprId := do
  let s ← get
  match v.definingOp?.bind s.opDecl.get?, v.definingOp?.bind s.exprOf?, s.argDecl.get? v with
  | some decl, _, _ => typed (Check.declRef decl)
  | none, some e, _ => return e
  | none, none, some decl => typed (Check.declRef decl)
  | none, none, none => throw (.unresolved v.text)

/-- The expression for the operand at an index. -/
def operandValue (env : LiftEnv) (o : Operation) (index : Nat) : Lift ExprId := do
  let v ← operand env o index
  value v

/-- The declaration whose symbol stands in the attribute `name`. -/
def symbol (env : LiftEnv) (o : Operation) (name : String) : Lift DeclId := do
  match o.textAttr? name with
  | none => throw (env.malformed o ("missing symbol attribute '" ++ name ++ "'"))
  | some s =>
    match (← get).symbols.get? s with
    | some decl => return decl
    | none => throw (.unresolved ("@" ++ s))

/-! ### Expressions -/

/-- An application of a binary operator. -/
def binary (env : LiftEnv) (o : Operation) (op : BinaryOp) : Lift ExprId := do
  let lhs ← operand env o 0
  let rhs ← operand env o 1
  let lhs ← value lhs
  let rhs ← value rhs
  typed (Check.binary op lhs rhs)

/-- An application of a unary operator. -/
def unary (env : LiftEnv) (o : Operation) (op : UnaryOp) : Lift ExprId := do
  let arg ← operandValue env o 0
  typed (Check.unary op arg)

/-- A comparison. -/
def compare (env : LiftEnv) (o : Operation) : Lift ExprId :=
  match o.attr? AttrName.predicate with
  | some (.predicate p) => binary env o p.operator
  | _ => throw (env.malformed o "comparison without a predicate")

/-- A literal. -/
def constant (env : LiftEnv) (o : Operation) : Lift ExprId := do
  match o.attr? AttrName.value with
  | none => throw (env.malformed o "constant without a value")
  | some (.integer i) =>
    let type ← type env (← resultType env o)
    typed (Check.integer i type)
  | some (.float x) =>
    let type ← type env (← resultType env o)
    typed (Check.floating x type)
  | some (.text s) => typed (Check.text s)
  | some a => throw (.unsupportedAttribute a.display (env.shown o))

/-- A cast. It stands for a location exactly when its type in the graph is that of one. -/
def cast (env : LiftEnv) (o : Operation) (style : CastStyle) : Lift ExprId := do
  match o.attr? AttrName.kind with
  | some (.conversion c) =>
    if !c.isLiftable then throw (.unsupportedCast c.name (env.shown o))
    let id ← resultType env o
    let category : ValueCategory :=
      if (env.graph.types.get? id).any Shape.isLvalue then .lvalue else .rvalue
    let type ← type env id
    let arg ← operandValue env o 0
    typed (Check.cast style c type arg category)
  | _ => throw (env.malformed o "cast without a kind")

/-- A reference to a declaration by its symbol. -/
def symbolRef (env : LiftEnv) (o : Operation) (name : String) : Lift ExprId := do
  let decl ← symbol env o name
  typed (Check.declRef decl)

/-- A call. -/
def call (env : LiftEnv) (o : Operation) : Lift ExprId := do
  if 1 < o.resultTypes.length then throw (env.malformed o "call with more than one result")
  let callee ← symbolRef env o AttrName.callee
  let args ← o.operands.mapM value
  typed (Check.call callee args)

/-- A list of initial values. -/
def initList (env : LiftEnv) (o : Operation) : Lift ExprId := do
  let type ← type env (← resultType env o)
  let elements ← o.operands.mapM value
  typed (Check.initList type elements)

/-- An operation of the given kind that has no regions and becomes an expression. -/
def simpleExpr (env : LiftEnv) (o : Operation) (kind : Kind) : Lift ExprId :=
  match kind with
  | .valueYield | .condYield | .declRef => operandValue env o 0
  | .functionRef => symbolRef env o AttrName.callee
  | .globalRef => symbolRef env o AttrName.name
  | .call => call env o
  | .constant => constant env o
  | .initList => initList env o
  | .implicitCast => cast env o .implicit
  | .explicitCast => cast env o .explicit
  | .compare => compare env o
  | _ =>
    match kind.binaryOp?, kind.unaryOp? with
    | some op, _ => binary env o op
    | none, some op => unary env o op
    | none, none => throw (env.noRule o)

end Lift

end Readback
