import Readback.Lift.Expr

/-! # Lifting regions

Regions become sequences of statements or single expressions. All rules here take the function
`lift` that lifts the operations of a region one by one. -/

namespace Readback

/-- Lifts an operation in a scope to the statement that it leaves, if it leaves one. -/
abbrev OpLifter := Scope → OpId → Lift (Option StmtId)

/-- Whether an operation leaves no statement of its own: its value is used, and it is an expression
wrapper or became an expression. It is then part of the expressions that use it. -/
def isElided (g : Graph) (p : Program) (op : OpId) (stmt : StmtId) : Bool :=
  g.hasUses op && (g.kind? op == some .expression || (p.asExpr? stmt).isSome)

namespace Lift

/-! ### Sequences -/

/-- The statements that operations leave, in order. -/
def stmts (env : LiftEnv) (lift : OpLifter) (scope : Scope) : List OpId → Lift (List StmtId)
  | [] => return []
  | op :: rest => do
    match ← lift scope op with
    | none => stmts env lift scope rest
    | some stmt =>
      let elided := isElided env.graph (← program) op stmt
      let others ← stmts env lift scope rest
      return if elided then others else stmt :: others

/-- A region as a compound statement. -/
def compound (env : LiftEnv) (lift : OpLifter) (scope : Scope) (region : RegionId) :
    Lift StmtId := do
  let body ← stmts env lift scope (env.graph.regionOps region)
  typed (Check.compound body)

/-! ### Yields -/

/-- Whether an operation yields a value to the operation around its region. -/
def isYield (g : Graph) (op : OpId) : Bool :=
  match g.kind? op with
  | some .valueYield => true
  | some .condYield => true
  | _ => false

/-- Lifts operations of a region from left to right. Gives the yielded expression, if there is one,
and the other expressions whose value nothing uses. -/
def yieldsAux (env : LiftEnv) (lift : OpLifter) (scope : Scope) (region : RegionId) :
    List OpId → Option ExprId → List ExprId → Lift (Option ExprId × List ExprId)
  | [], yielded, unused => return (yielded, unused.reverse)
  | op :: rest, yielded, unused => do
    let stmt ← lift scope op
    let expr := stmt.bind (← program).asExpr?
    if isYield env.graph op then
      if yielded.isSome then
        throw (.malformed (RegionId.text region ++ " yields more than once"))
      match expr with
      | none => throw (.malformed (RegionId.text region ++ " yields a non-expression"))
      | some e => yieldsAux env lift scope region rest (some e) unused
    else
      match expr with
      | some e =>
        yieldsAux env lift scope region rest yielded
          (if env.graph.hasUses op then unused else e :: unused)
      | none => yieldsAux env lift scope region rest yielded unused

/-- Lifts all operations of a region. -/
def yields (env : LiftEnv) (lift : OpLifter) (scope : Scope) (region : RegionId) :
    Lift (Option ExprId × List ExprId) :=
  yieldsAux env lift scope region (env.graph.regionOps region) none []

/-- The expression that a region yields; it has to yield one. -/
def yielded (env : LiftEnv) (lift : OpLifter) (scope : Scope) (region : RegionId) :
    Lift ExprId := do
  match ← yields env lift scope region with
  | (some e, _) => return e
  | (none, _) => throw (.malformed (RegionId.text region ++ " yields no value"))

/-- The expression of a wrapper, whose region has to hold exactly one value yield. -/
def wrapper (env : LiftEnv) (lift : OpLifter) (scope : Scope) (o : Operation) : Lift ExprId := do
  match o.regions.head? with
  | none => throw (env.malformed o "expression without a body")
  | some region =>
    let count :=
      ((env.graph.regionOps region).filter fun op => env.graph.kind? op == some .valueYield).length
    if count ≠ 1 then
      throw (env.malformed o ("expected one value yield, found " ++ toString count))
    yielded env lift scope region

/-! ### Structured statements -/

/-- A branch. It has an else part exactly when there is a third region with a block. -/
def ifElse (env : LiftEnv) (lift : OpLifter) (scope : Scope) (o : Operation) : Lift StmtId := do
  let cond ← region env o 0 "condition"
  let yes ← region env o 1 "then"
  let cond ← yielded env lift scope cond
  let yes ← compound env lift scope yes
  let no := o.regions[2]?.filter fun r =>
    (env.graph.region? r).any fun r => !r.blocks.isEmpty
  let no ← no.mapM (compound env lift scope)
  typed (Check.ifElse cond yes no)

/-- A loop that tests before its body. -/
def whileLoop (env : LiftEnv) (lift : OpLifter) (scope : Scope) (o : Operation) :
    Lift StmtId := do
  let cond ← region env o 0 "condition"
  let body ← region env o 1 "body"
  let cond ← yielded env lift scope cond
  let body ← compound env lift scope body
  typed (Check.whileLoop cond body)

/-- A loop that tests after its body. -/
def doLoop (env : LiftEnv) (lift : OpLifter) (scope : Scope) (o : Operation) : Lift StmtId := do
  let body ← region env o 0 "body"
  let cond ← region env o 1 "condition"
  let body ← compound env lift scope body
  let cond ← yielded env lift scope cond
  typed (Check.doLoop body cond)

/-- A counting loop without an initial part. Its increment is the yielded expression, else the
single expression that its region leaves unused; any other unused expression would be lost. -/
def forLoop (env : LiftEnv) (lift : OpLifter) (scope : Scope) (o : Operation) : Lift StmtId := do
  let cond ← region env o 0 "condition"
  let inc ← region env o 1 "increment"
  let body ← region env o 2 "body"
  let cond ←
    if (env.graph.regionOps cond).isEmpty then pure none
    else some <$> yielded env lift scope cond
  let inc ← match ← yields env lift scope inc with
    | (some e, []) => pure (some e)
    | (none, []) => pure none
    | (none, [e]) => pure (some e)
    | (_, unused) =>
      throw (env.malformed o
        ("increment leaves " ++ toString unused.length ++ " expressions unused"))
  let body ← compound env lift scope body
  typed (Check.forLoop none cond inc body)

/-- A scope of its own. -/
def innerScope (env : LiftEnv) (lift : OpLifter) (scope : Scope) (o : Operation) : Lift StmtId := do
  let body ← region env o 0 "scope"
  compound env lift scope body

/-- A return from the function around it. -/
def returns (env : LiftEnv) (scope : Scope) (o : Operation) : Lift StmtId := do
  match scope with
  | .function function =>
    let value ← match o.operands with
      | [] => pure none
      | [v] => some <$> value v
      | _ => throw (env.malformed o "return with more than one operand")
    typed (Check.returns function value)
  | _ => throw (env.malformed o "return outside of a function")

end Lift

end Readback
