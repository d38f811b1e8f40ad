import Readback.Typing.Expr

/-! # Typed construction of statements -/

namespace Readback

namespace Check

/-- A sequence of statements. -/
def compound (body : List StmtId) : Check StmtId := pushStmt (.compound body)

/-- Checks the value that a function with the given result type returns. -/
def returnable (name : String) (result : QualType) (value : Option ExprId) : Check Unit := do
  let p ← get
  match value with
  | some e =>
    if p.isVoid result then
      if !p.isVoid (p.expr e).type then
        throw (.returnMismatch name "void function should not return a value")
    else assignable result.unqualified e
  | none =>
    if !p.isVoid result then
      throw (.returnMismatch name "non-void function should return a value")

/-- A return from a function. -/
def returns (function : DeclId) (value : Option ExprId) : Check StmtId := do
  let p ← get
  let d := p.decl function
  match d.kind with
  | .function type _ _ _ =>
    match p.functionParts? type with
    | some (result, _, _) =>
      returnable d.name result value
      pushStmt (.returns value)
    | none => throw (.notAFunction d.name)
  | _ => throw (.notAFunction d.name)

/-- A branch. -/
def ifElse (cond : ExprId) (yes : StmtId) (no : Option StmtId) : Check StmtId := do
  let cond ← condition cond
  pushStmt (.ifElse cond yes no)

/-- A loop that tests before its body. -/
def whileLoop (cond : ExprId) (body : StmtId) : Check StmtId := do
  let cond ← condition cond
  pushStmt (.whileLoop cond body)

/-- A loop that tests after its body. -/
def doLoop (body : StmtId) (cond : ExprId) : Check StmtId := do
  let cond ← condition cond
  pushStmt (.doLoop body cond)

/-- A counting loop, of which each part may be left out. -/
def forLoop (init : Option StmtId) (cond inc : Option ExprId) (body : StmtId) : Check StmtId := do
  let cond ← cond.mapM condition
  pushStmt (.forLoop init cond inc body)

end Check

end Readback
