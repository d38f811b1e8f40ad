import Readback.Layout.Expr

/-! # Programs as text

Declarations and statements are written line by line on a page. A body is a compound statement and
is written without braces of its own, as the braces of its header serve.

A function may be declared inside a body, and then its body is written there, so writing does not
follow the order of the tables. `emit` bounds the depth by the number of nodes: only a node that
contains itself goes deeper. -/

namespace Readback

/-- A declaration or statement to be written. -/
inductive UnitNode where
  | decl (id : DeclId)
  | stmt (id : StmtId)
deriving DecidableEq, Inhabited

namespace Program

/-- The head of a function: its result type around its name and parameters. Parameters have their
names if the declaration has as many as its type. -/
def functionHeader (p : Program) (id : DeclId) : Except LayoutError String :=
  let d := p.decl id
  match d.kind with
  | .function type params _ _ =>
    match p.functionParts? type with
    | none => .error (.notFunctionTyped d.name)
    | some (result, paramTypes, isVariadic) =>
      let list :=
        if params.length = paramTypes.length then
          (params.zip paramTypes).map fun x =>
            let param := p.decl x.1
            p.declarator (param.type?.getD x.2) param.name
        else paramTypes.map p.typeText
      let list := list ++ if isVariadic then ["..."] else []
      let list := if list.isEmpty then ["void"] else list
      .ok (p.declarator result (d.name ++ "(" ++ ", ".intercalate list ++ ")"))
  | _ => .error (.notAFunction d.name)

/-- A variable with its storage class and initial value, without the final semicolon. -/
def varText (p : Program) (showCasts useColors : Bool) (id : DeclId) : Except LayoutError String :=
  let d := p.decl id
  match d.kind with
  | .var type init storage =>
    let storage := storage.keyword?.elim "" fun k => keyword useColors k ++ " "
    let init := init.elim "" fun e => " = " ++ p.exprText showCasts useColors e
    .ok (storage ++ p.declarator type d.name ++ init)
  | _ => .error (.notAVariable d.name)

/-- The first part of a counting loop: an expression or the declaration of one variable. -/
def forInitText (p : Program) (showCasts useColors : Bool) (id : StmtId) :
    Except LayoutError String :=
  match (p.stmt id).kind with
  | .expr e => .ok (p.exprText showCasts useColors e)
  | .declares [d] => p.varText showCasts useColors d
  | _ => .error .forInit

end Program

namespace Write

/-- A result that may be an error. -/
def ofExcept {α : Type} : Except LayoutError α → Write α
  | .ok a => pure a
  | .error e => throw e

/-- A keyword as a statement of its own. -/
def keywordStmt (text : String) : Write Unit := do line ((← keyword text) ++ ";")

/-- The text of an expression in the colours of the page. -/
def exprText (p : Program) (showCasts : Bool) (e : ExprId) : Write String :=
  return p.exprText showCasts (← get).useColors e

/-- The statements of a body, without braces around a compound. -/
def body (p : Program) (emit : UnitNode → Write Unit) (id : StmtId) : Write Unit :=
  match (p.stmt id).kind with
  | .compound stmts => stmts.forM fun s => emit (.stmt s)
  | _ => emit (.stmt id)

/-- A field of a record. -/
def field (p : Program) (id : DeclId) : Write Unit :=
  let d := p.decl id
  match d.kind with
  | .field type _ => line (p.declarator type d.name ++ ";")
  | _ => throw (.notAField d.id)

/-- A declaration; `emit` writes the nodes inside it. -/
def decl (p : Program) (showCasts : Bool) (emit : UnitNode → Write Unit) (id : DeclId) :
    Write Unit := do
  let d := p.decl id
  match d.kind with
  | .function _ _ none _ => line ((← ofExcept (p.functionHeader id)) ++ ";")
  | .function _ _ (some stmt) _ =>
    let header ← ofExcept (p.functionHeader id)
    block header "" (body p emit stmt)
  | .var _ _ _ =>
    let text ← ofExcept (p.varText showCasts (← get).useColors id)
    line (text ++ ";")
  | .record fields =>
    let header := (← keyword "struct") ++ " " ++ d.name
    block header ";" (fields.forM (field p))
  | .param _ _ => throw (.notStandalone id d.name)
  | .field _ _ => throw (.notStandalone id d.name)

/-- A statement; `emit` writes the nodes inside it. -/
def stmt (p : Program) (showCasts : Bool) (emit : UnitNode → Write Unit) (id : StmtId) :
    Write Unit := do
  match (p.stmt id).kind with
  | .compound _ =>
    line "\x7b"
    nested (body p emit id)
    line "\x7d"
  | .returns none => keywordStmt "return"
  | .returns (some e) =>
    let value ← exprText p showCasts e
    line ((← keyword "return") ++ " " ++ value ++ ";")
  | .ifElse cond yes no =>
    let cond ← exprText p showCasts cond
    line ((← keyword "if") ++ " (" ++ cond ++ ") \x7b")
    nested (body p emit yes)
    if let some no := no then
      line ("\x7d " ++ (← keyword "else") ++ " \x7b")
      nested (body p emit no)
    line "\x7d"
  | .whileLoop cond inner =>
    let cond ← exprText p showCasts cond
    block ((← keyword "while") ++ " (" ++ cond ++ ")") "" (body p emit inner)
  | .doLoop inner cond =>
    let cond ← exprText p showCasts cond
    block (← keyword "do") (" " ++ (← keyword "while") ++ " (" ++ cond ++ ");") (body p emit inner)
  | .forLoop init cond inc inner =>
    let useColors := (← get).useColors
    let init ← match init with
      | some s => ofExcept (p.forInitText showCasts useColors s)
      | none => pure ""
    let part := fun (e : Option ExprId) =>
      e.elim "" fun e => " " ++ p.exprText showCasts useColors e
    block ((← keyword "for") ++ " (" ++ init ++ ";" ++ part cond ++ ";" ++ part inc ++ ")") ""
      (body p emit inner)
  | .breaks => keywordStmt "break"
  | .continues => keywordStmt "continue"
  | .empty => line ";"
  | .declares decls => decls.forM fun d => emit (.decl d)
  | .expr e => line ((← exprText p showCasts e) ++ ";")

/-- A node with everything inside it. The first number bounds the depth of the nesting. -/
def emitAux (p : Program) (showCasts : Bool) : Nat → UnitNode → Write Unit
  | 0, _ => throw .selfContained
  | n + 1, .decl id => decl p showCasts (emitAux p showCasts n) id
  | n + 1, .stmt id => stmt p showCasts (emitAux p showCasts n) id

/-- A node with everything inside it. -/
def emit (p : Program) (showCasts : Bool) (node : UnitNode) : Write Unit :=
  emitAux p showCasts (p.decls.size + p.stmts.size + 1) node

/-- All declarations at file level from the given ones on; the first argument tells whether an empty
line goes in front. -/
def decls (p : Program) (c : Config) : Bool → List DeclId → Write Unit
  | _, [] => pure ()
  | separate, d :: rest => do
    if separate then blankLine
    emit p c.showImplicitCasts (.decl d)
    decls p c c.blankLineBetweenDecls rest

/-- A whole program. -/
def program (p : Program) (c : Config) : Write Unit := decls p c false p.topLevel

end Write

/-- The C text of a program. -/
def Program.text (p : Program) (c : Config) : Except LayoutError String :=
  match Write.program p c (Page.ofConfig c) with
  | .ok _ page => .ok page.text
  | .error e _ => .error e

end Readback
