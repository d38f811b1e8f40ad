import Readback.Conversion
import Readback.Number.Binary64
import Readback.Operator
import Readback.Program.Types

/-! # C programs

A program is a set of tables of declarations, statements and expressions that refer to each other by
position. Every expression is also a statement: appending an expression appends the statement that
stands for it.

Nodes refer to nodes that were there before them, so the parts of an expression have smaller ids,
and following parts comes to an end. Only declarations are completed later: a function gets its
parameters, body and locals, a variable its initial value, a record its fields. -/

namespace Readback

/-- The position of a statement. -/
abbrev StmtId := Nat

/-- The position of an expression. -/
abbrev ExprId := Nat

/-- The text of a declaration id. -/
def DeclId.text (id : DeclId) : String := "decl" ++ toString id

/-- The text of a statement id. -/
def StmtId.text (id : StmtId) : String := "stmt" ++ toString id

/-- The text of an expression id. -/
def ExprId.text (id : ExprId) : String := "expr" ++ toString id

/-! ### Declarations -/

/-- Where a declaration stands: at file level, in a function or in a record. -/
inductive Scope where
  | file
  | function (decl : DeclId)
  | record (decl : DeclId)
deriving DecidableEq, Inhabited

/-- The storage class of a variable. -/
inductive Storage where
  | unspecified
  | static
  | external
deriving DecidableEq, Inhabited

namespace Storage

/-- All storage classes, in their fixed order. -/
def all : List Storage := [.unspecified, .static, .external]

/-- The keyword of a storage class. -/
def keyword? : Storage → Option String
  | .unspecified => none
  | .static => some "static"
  | .external => some "extern"

/-- The tag of a storage class in interchange forms. -/
def tag : Storage → String
  | .unspecified => "None"
  | .static => "Static"
  | .external => "Extern"

/-- The storage class with the given tag. -/
def ofTag? (tag : String) : Option Storage := all.find? fun s => s.tag == tag

end Storage

/-- What a declaration declares. -/
inductive DeclKind where
  | function (type : QualType) (params : List DeclId) (body : Option StmtId) (locals : List DeclId)
  | param (type : QualType) (index : Nat)
  | var (type : QualType) (init : Option ExprId) (storage : Storage)
  | record (fields : List DeclId)
  | field (type : QualType) (index : Nat)
deriving DecidableEq, Inhabited

/-- A declaration. -/
structure Decl where
  id : DeclId
  name : String
  scope : Scope
  kind : DeclKind
deriving DecidableEq, Inhabited

namespace Decl

/-- The type of what is declared; a record has none. -/
def type? (d : Decl) : Option QualType :=
  match d.kind with
  | .function type _ _ _ => some type
  | .param type _ => some type
  | .var type _ _ => some type
  | .field type _ => some type
  | .record _ => none

/-- Whether a function is declared. -/
def isFunction (d : Decl) : Bool :=
  match d.kind with
  | .function _ _ _ _ => true
  | _ => false

/-- Whether a variable is declared. -/
def isVar (d : Decl) : Bool :=
  match d.kind with
  | .var _ _ _ => true
  | _ => false

end Decl

/-! ### Statements and expressions -/

/-- A statement. -/
inductive StmtKind where
  | compound (body : List StmtId)
  | returns (value : Option ExprId)
  | ifElse (cond : ExprId) (yes : StmtId) (no : Option StmtId)
  | whileLoop (cond : ExprId) (body : StmtId)
  | doLoop (body : StmtId) (cond : ExprId)
  | forLoop (init : Option StmtId) (cond : Option ExprId) (inc : Option ExprId) (body : StmtId)
  | breaks
  | continues
  | empty
  | declares (decls : List DeclId)
  | expr (expr : ExprId)
deriving DecidableEq, Inhabited

/-- A statement in its place. -/
structure Stmt where
  id : StmtId
  kind : StmtKind
deriving DecidableEq, Inhabited

/-- Whether an expression stands for a location or for a value. -/
inductive ValueCategory where
  | lvalue
  | rvalue
deriving DecidableEq, Inhabited

/-- Whether a cast is written in the program or implied by it. -/
inductive CastStyle where
  | implicit
  | explicit
deriving DecidableEq, Inhabited

/-- One level of an expression. -/
inductive ExprKind where
  | integer (value : Int)
  | floating (value : Binary64)
  | text (value : String)
  | ref (decl : DeclId)
  | paren (inner : ExprId)
  | unary (op : UnaryOp) (operand : ExprId)
  | binary (op : BinaryOp) (lhs rhs : ExprId)
  | cast (style : CastStyle) (conversion : Conversion) (operand : ExprId)
  | initList (elements : List ExprId)
  | call (callee : ExprId) (args : List ExprId)
deriving DecidableEq, Inhabited

/-- An expression in its place, with the statement that stands for it. -/
structure Expr where
  id : ExprId
  stmt : StmtId
  kind : ExprKind
  type : QualType
  category : ValueCategory
deriving DecidableEq, Inhabited

namespace Expr

/-- Whether the expression stands for a location. -/
def isLvalue (e : Expr) : Bool := e.category == .lvalue

end Expr

/-! ### Programs -/

/-- A C program under construction. -/
structure Program where
  target : Target
  types : TypeArena
  decls : Array Decl
  stmts : Array Stmt
  exprs : Array Expr
  /-- The declarations at file level, in order. -/
  topLevel : List DeclId
deriving DecidableEq, Inhabited

namespace Program

/-- The program without nodes for a target. -/
def empty (target : Target) : Program := ⟨target, .empty, #[], #[], #[], []⟩

/-- The declaration at a position. -/
def decl (p : Program) (id : DeclId) : Decl := (p.decls[id]?).getD default

/-- The statement at a position. -/
def stmt (p : Program) (id : StmtId) : Stmt := (p.stmts[id]?).getD default

/-- The expression at a position. -/
def expr (p : Program) (id : ExprId) : Expr := (p.exprs[id]?).getD default

/-- The expression that a statement stands for, if it is one. -/
def asExpr? (p : Program) (id : StmtId) : Option ExprId :=
  match p.stmts[id]? with
  | some ⟨_, .expr e⟩ => some e
  | _ => none

/-- The first declaration at file level with the given name. -/
def findTopLevel? (p : Program) (name : String) : Option DeclId :=
  p.topLevel.find? fun id => (p.decl id).name == name

/-- The body of a function that has one. -/
def functionBody? (p : Program) (id : DeclId) : Option StmtId :=
  match (p.decl id).kind with
  | .function _ _ body _ => body
  | _ => none

/-! ### Appending nodes -/

/-- Interns a type node. -/
def internNode (p : Program) (node : TypeNode) : QualType × Program :=
  let (ref, types) := p.types.intern node
  (.plain ref, { p with types })

/-- Appends a declaration. -/
def pushDecl (p : Program) (name : String) (scope : Scope) (kind : DeclKind) : DeclId × Program :=
  let id := p.decls.size
  (id, { p with decls := p.decls.push ⟨id, name, scope, kind⟩ })

/-- Appends a statement. -/
def pushStmt (p : Program) (kind : StmtKind) : StmtId × Program :=
  let id := p.stmts.size
  (id, { p with stmts := p.stmts.push ⟨id, kind⟩ })

/-- Appends an expression and the statement that stands for it. -/
def pushExpr (p : Program) (kind : ExprKind) (type : QualType) (category : ValueCategory) :
    ExprId × Program :=
  let id := p.exprs.size
  let (stmt, p) := p.pushStmt (.expr id)
  (id, { p with exprs := p.exprs.push ⟨id, stmt, kind, type, category⟩ })

/-- Replaces what a declaration declares. -/
def setDeclKind (p : Program) (id : DeclId) (kind : DeclKind) : Program :=
  { p with decls := p.decls.modify id fun d => { d with kind } }

/-! ### Types of a program -/

/-- The node of a type. -/
def node (p : Program) (t : QualType) : TypeNode := p.types.node t

/-- The builtin type that a type is, whatever its qualifiers. -/
def builtin? (p : Program) (t : QualType) : Option Builtin :=
  match p.node t with
  | .builtin kind => some kind
  | _ => none

/-- Whether the type is `void`. -/
def isVoid (p : Program) (t : QualType) : Bool := p.builtin? t == some .void

/-- Whether the type is an integer type. -/
def isInteger (p : Program) (t : QualType) : Bool := (p.builtin? t).any Builtin.isInteger

/-- Whether the type is a floating type. -/
def isFloating (p : Program) (t : QualType) : Bool := (p.builtin? t).any Builtin.isFloating

/-- Whether the type is an integer or floating type. -/
def isArithmetic (p : Program) (t : QualType) : Bool := (p.builtin? t).any Builtin.isArithmetic

/-- Whether the type is a pointer type. -/
def isPointer (p : Program) (t : QualType) : Bool :=
  match p.node t with
  | .pointer _ => true
  | _ => false

/-- Whether the type is an array type. -/
def isArray (p : Program) (t : QualType) : Bool :=
  match p.node t with
  | .array _ _ => true
  | _ => false

/-- Whether the type is a function type. -/
def isFunction (p : Program) (t : QualType) : Bool :=
  match p.node t with
  | .function _ _ _ => true
  | _ => false

/-- Whether the type is a record type. -/
def isRecord (p : Program) (t : QualType) : Bool :=
  match p.node t with
  | .record _ => true
  | _ => false

/-- Whether the type is an arithmetic or pointer type. -/
def isScalar (p : Program) (t : QualType) : Bool := p.isArithmetic t || p.isPointer t

/-- Whether the type is an integer type that is unsigned on the target. -/
def isUnsignedInteger (p : Program) (t : QualType) : Bool :=
  (p.builtin? t).any fun k => k.isInteger && k.isUnsigned p.target.charIsUnsigned

/-- The width of an integer type on the target. -/
def integerWidth? (p : Program) (t : QualType) : Option Nat :=
  (p.builtin? t).bind p.target.integerWidth?

/-- What a pointer points to, or the element of an array. -/
def pointee? (p : Program) (t : QualType) : Option QualType :=
  match p.node t with
  | .pointer pointee => some pointee
  | .array element _ => some element
  | _ => none

/-- The result, parameters and variadicity of a function type. -/
def functionParts? (p : Program) (t : QualType) : Option (QualType × List QualType × Bool) :=
  match p.node t with
  | .function result params isVariadic => some (result, params, isVariadic)
  | _ => none

/-- A type around a name. -/
def declarator (p : Program) (t : QualType) (name : String) : String :=
  (p.types.tree t).declarator (fun d => (p.decl d).name) .none name

/-- A type by itself. -/
def typeText (p : Program) (t : QualType) : String := p.declarator t ""

/-! ### Looking through parentheses and casts -/

/-- Strips parentheses, at most as many as the first argument says. -/
def skipParensAux (p : Program) : Nat → ExprId → ExprId
  | 0, e => e
  | n + 1, e =>
    match (p.expr e).kind with
    | .paren inner => p.skipParensAux n inner
    | _ => e

/-- The expression inside all parentheses. -/
def skipParens (p : Program) (e : ExprId) : ExprId := p.skipParensAux (e + 1) e

/-- Strips implicit casts, at most as many as the first argument says. -/
def skipCastsAux (p : Program) : Nat → ExprId → ExprId
  | 0, e => e
  | n + 1, e =>
    match (p.expr e).kind with
    | .cast .implicit _ operand => p.skipCastsAux n operand
    | _ => e

/-- The expression inside all implicit casts. -/
def skipCasts (p : Program) (e : ExprId) : ExprId := p.skipCastsAux (e + 1) e

/-- How tightly an expression binds by its outermost level. -/
def levelPrecedence : ExprKind → Precedence
  | .integer value => if value < 0 then .unary else .primary
  | .floating value => if value.isNegative then .unary else .primary
  | .unary op _ => op.precedence
  | .binary op _ _ => op.precedence
  | .cast _ _ _ => .unary
  | .call _ _ => .suffixed
  | _ => .primary

/-- How tightly an expression binds as it is written. An implicit cast is written as its operand. -/
def precedence (p : Program) (e : ExprId) : Precedence :=
  levelPrecedence (p.expr (p.skipCasts e)).kind

end Program

end Readback
