import Readback.Json.Quals
import Readback.Program.Basic

/-! # Interchange form of programs

`Program.toJson` writes a program as JSON and `Program.ofJson?` reads one back. Floating literals
that are not finite have no JSON number and become null, which cannot be read again. -/

namespace Readback

namespace Target

/-- Writes a target. -/
def toJson (t : Target) : Json :=
  .object [("triple", .text t.triple), ("char_is_unsigned", .bool t.charIsUnsigned),
    ("short_width", Json.ofNat t.shortWidth), ("int_width", Json.ofNat t.intWidth),
    ("long_width", Json.ofNat t.longWidth), ("long_long_width", Json.ofNat t.longLongWidth),
    ("pointer_width", Json.ofNat t.pointerWidth)]

/-- Reads a target. -/
def ofJson? (j : Json) : Option Target := do
  match ← j.fields? ["triple", "char_is_unsigned", "short_width", "int_width", "long_width",
      "long_long_width", "pointer_width"] with
  | [triple, char, short, int, long, longLong, pointer] =>
    return {
      triple := ← Json.required Json.text? triple
      charIsUnsigned := ← Json.required Json.bool? char
      shortWidth := ← Json.required Json.index? short
      intWidth := ← Json.required Json.index? int
      longWidth := ← Json.required Json.index? long
      longLongWidth := ← Json.required Json.index? longLong
      pointerWidth := ← Json.required Json.index? pointer }
  | _ => none

end Target

/-! ### Types -/

namespace QualType

/-- Writes a qualified type. -/
def toJson (t : QualType) : Json :=
  .object [("ty", Json.ofNat t.ref), ("quals", t.quals.toJson)]

/-- Reads a qualified type. -/
def ofJson? (j : Json) : Option QualType := do
  match ← j.fields? ["ty", "quals"] with
  | [ref, quals] => return ⟨← Json.required Json.index? ref, ← Json.required Quals.ofJson? quals⟩
  | _ => none

end QualType

namespace TypeNode

/-- Writes a type node. -/
def toJson : TypeNode → Json
  | .builtin kind => Json.tagged "Builtin" (.text kind.tag)
  | .pointer pointee => Json.tagged "Pointer" pointee.toJson
  | .array element (some size) =>
    Json.tagged "ConstantArray" (.object [("element", element.toJson), ("size", Json.ofNat size)])
  | .array element none => Json.tagged "IncompleteArray" (.object [("element", element.toJson)])
  | .function result params isVariadic =>
    Json.tagged "Function"
      (.object [("result", result.toJson), ("params", .list (params.map QualType.toJson)),
        ("variadic", .bool isVariadic)])
  | .record decl => Json.tagged "Record" (Json.ofNat decl)

/-- The type node that a choice stands for. -/
def ofChoice? (tag : String) (content : Json) : Option TypeNode := do
  match tag with
  | "Builtin" => (Json.tag? Builtin.ofTag? content).map .builtin
  | "Pointer" => (QualType.ofJson? content).map .pointer
  | "ConstantArray" =>
    match ← Json.objectFields? ["element", "size"] content with
    | [e, n] =>
      return .array (← Json.required QualType.ofJson? e) (some (← Json.required Json.size? n))
    | _ => none
  | "IncompleteArray" =>
    match ← Json.objectFields? ["element"] content with
    | [e] => return .array (← Json.required QualType.ofJson? e) none
    | _ => none
  | "Function" =>
    match ← Json.objectFields? ["result", "params", "variadic"] content with
    | [r, p, v] =>
      return .function (← Json.required QualType.ofJson? r)
        (← Json.required (Json.listOf? QualType.ofJson?) p) (← Json.required Json.bool? v)
    | _ => none
  | "Record" => (Json.index? content).map .record
  | _ => none

/-- Reads a type node. -/
def ofJson? (j : Json) : Option TypeNode := do
  let (tag, content) ← j.choice?
  ofChoice? tag (← content)

end TypeNode

namespace TypeArena

/-- Writes the type nodes. -/
def toJson (a : TypeArena) : Json :=
  .object [("nodes", .list (a.entries.toList.map TypeNode.toJson))]

/-- Reads type nodes. -/
def ofJson? (j : Json) : Option TypeArena := do
  match ← j.fields? ["nodes"] with
  | [nodes] => return Interned.ofList (← Json.required (Json.listOf? TypeNode.ofJson?) nodes)
  | _ => none

end TypeArena

/-! ### Declarations -/

namespace Scope

/-- Writes a scope. -/
def toJson : Scope → Json
  | .file => .text "TranslationUnit"
  | .function decl => Json.tagged "Function" (Json.ofNat decl)
  | .record decl => Json.tagged "Record" (Json.ofNat decl)

/-- Reads a scope. -/
def ofJson? (j : Json) : Option Scope := do
  let (tag, content) ← j.choice?
  match tag with
  | "TranslationUnit" => (Json.bare? content).map fun _ => .file
  | "Function" => (content.bind Json.index?).map .function
  | "Record" => (content.bind Json.index?).map .record
  | _ => none

end Scope

namespace DeclKind

/-- Writes what a declaration declares. -/
def toJson : DeclKind → Json
  | .function type params body locals =>
    Json.tagged "Function"
      (.object [("ty", type.toJson), ("params", Json.ofNats params),
        ("body", Json.ofOption Json.ofNat body), ("locals", Json.ofNats locals)])
  | .param type index =>
    Json.tagged "Param" (.object [("ty", type.toJson), ("index", Json.ofNat index)])
  | .var type init storage =>
    Json.tagged "Var"
      (.object [("ty", type.toJson), ("init", Json.ofOption Json.ofNat init),
        ("storage", .text storage.tag)])
  | .record fields => Json.tagged "Record" (.object [("fields", Json.ofNats fields)])
  | .field type index =>
    Json.tagged "Field" (.object [("ty", type.toJson), ("index", Json.ofNat index)])

/-- What the declaration declares that a choice stands for. -/
def ofChoice? (tag : String) (content : Json) : Option DeclKind := do
  match tag with
  | "Function" =>
    match ← Json.objectFields? ["ty", "params", "body", "locals"] content with
    | [t, p, b, l] =>
      return .function (← Json.required QualType.ofJson? t)
        (← Json.required (Json.listOf? Json.index?) p) (← Json.optional Json.index? b)
        (← Json.required (Json.listOf? Json.index?) l)
    | _ => none
  | "Param" =>
    match ← Json.objectFields? ["ty", "index"] content with
    | [t, i] => return .param (← Json.required QualType.ofJson? t) (← Json.required Json.size? i)
    | _ => none
  | "Var" =>
    match ← Json.objectFields? ["ty", "init", "storage"] content with
    | [t, i, s] =>
      return .var (← Json.required QualType.ofJson? t) (← Json.optional Json.index? i)
        (← Json.required (Json.tag? Storage.ofTag?) s)
    | _ => none
  | "Record" =>
    match ← Json.objectFields? ["fields"] content with
    | [f] => return .record (← Json.required (Json.listOf? Json.index?) f)
    | _ => none
  | "Field" =>
    match ← Json.objectFields? ["ty", "index"] content with
    | [t, i] => return .field (← Json.required QualType.ofJson? t) (← Json.required Json.size? i)
    | _ => none
  | _ => none

/-- Reads what a declaration declares. -/
def ofJson? (j : Json) : Option DeclKind := do
  let (tag, content) ← j.choice?
  ofChoice? tag (← content)

end DeclKind

namespace Decl

/-- Writes a declaration. -/
def toJson (d : Decl) : Json :=
  .object [("id", Json.ofNat d.id), ("name", .text d.name), ("context", d.scope.toJson),
    ("kind", d.kind.toJson)]

/-- Reads a declaration. -/
def ofJson? (j : Json) : Option Decl := do
  match ← j.fields? ["id", "name", "context", "kind"] with
  | [id, name, scope, kind] =>
    return ⟨← Json.required Json.index? id, ← Json.required Json.text? name,
      ← Json.required Scope.ofJson? scope, ← Json.required DeclKind.ofJson? kind⟩
  | _ => none

end Decl

/-! ### Statements -/

namespace StmtKind

/-- Writes a statement. -/
def toJson : StmtKind → Json
  | .compound body => Json.tagged "Compound" (Json.ofNats body)
  | .returns value => Json.tagged "Return" (Json.ofOption Json.ofNat value)
  | .ifElse cond yes no =>
    Json.tagged "If"
      (.object [("cond", Json.ofNat cond), ("then", Json.ofNat yes),
        ("otherwise", Json.ofOption Json.ofNat no)])
  | .whileLoop cond body =>
    Json.tagged "While" (.object [("cond", Json.ofNat cond), ("body", Json.ofNat body)])
  | .doLoop body cond =>
    Json.tagged "Do" (.object [("body", Json.ofNat body), ("cond", Json.ofNat cond)])
  | .forLoop init cond inc body =>
    Json.tagged "For"
      (.object [("init", Json.ofOption Json.ofNat init), ("cond", Json.ofOption Json.ofNat cond),
        ("inc", Json.ofOption Json.ofNat inc), ("body", Json.ofNat body)])
  | .breaks => .text "Break"
  | .continues => .text "Continue"
  | .empty => .text "Null"
  | .declares decls => Json.tagged "Decl" (Json.ofNats decls)
  | .expr e => Json.tagged "Expr" (Json.ofNat e)

/-- The statement that a choice stands for. -/
def ofChoice? (tag : String) (content : Option Json) : Option StmtKind := do
  match tag with
  | "Break" => (Json.bare? content).map fun _ => .breaks
  | "Continue" => (Json.bare? content).map fun _ => .continues
  | "Null" => (Json.bare? content).map fun _ => .empty
  | "Compound" => (content.bind (Json.listOf? Json.index?)).map .compound
  | "Decl" => (content.bind (Json.listOf? Json.index?)).map .declares
  | "Expr" => (content.bind Json.index?).map .expr
  | "Return" => (Json.optional Json.index? (some (← content))).map .returns
  | "If" =>
    match ← Json.objectFields? ["cond", "then", "otherwise"] (← content) with
    | [c, y, n] =>
      return .ifElse (← Json.required Json.index? c) (← Json.required Json.index? y)
        (← Json.optional Json.index? n)
    | _ => none
  | "While" =>
    match ← Json.objectFields? ["cond", "body"] (← content) with
    | [c, b] => return .whileLoop (← Json.required Json.index? c) (← Json.required Json.index? b)
    | _ => none
  | "Do" =>
    match ← Json.objectFields? ["body", "cond"] (← content) with
    | [b, c] => return .doLoop (← Json.required Json.index? b) (← Json.required Json.index? c)
    | _ => none
  | "For" =>
    match ← Json.objectFields? ["init", "cond", "inc", "body"] (← content) with
    | [i, c, s, b] =>
      return .forLoop (← Json.optional Json.index? i) (← Json.optional Json.index? c)
        (← Json.optional Json.index? s) (← Json.required Json.index? b)
    | _ => none
  | _ => none

/-- Reads a statement. -/
def ofJson? (j : Json) : Option StmtKind := do
  let (tag, content) ← j.choice?
  ofChoice? tag content

end StmtKind

namespace Stmt

/-- Writes a statement in its place. -/
def toJson (s : Stmt) : Json := .object [("id", Json.ofNat s.id), ("kind", s.kind.toJson)]

/-- Reads a statement in its place. -/
def ofJson? (j : Json) : Option Stmt := do
  match ← j.fields? ["id", "kind"] with
  | [id, kind] => return ⟨← Json.required Json.index? id, ← Json.required StmtKind.ofJson? kind⟩
  | _ => none

end Stmt

/-! ### Expressions -/

/-- The tag of a style of casts. -/
def CastStyle.tag : CastStyle → String
  | .implicit => "Implicit"
  | .explicit => "CStyle"

/-- The style of casts with the given tag. -/
def CastStyle.ofTag? (tag : String) : Option CastStyle :=
  [CastStyle.implicit, .explicit].find? fun s => s.tag == tag

/-- The tag of a value category. -/
def ValueCategory.tag : ValueCategory → String
  | .lvalue => "LValue"
  | .rvalue => "RValue"

/-- The value category with the given tag. -/
def ValueCategory.ofTag? (tag : String) : Option ValueCategory :=
  [ValueCategory.lvalue, .rvalue].find? fun c => c.tag == tag

namespace ExprKind

/-- Writes one level of an expression. -/
def toJson : ExprKind → Json
  | .integer value => Json.tagged "IntegerLiteral" (Json.ofInteger value)
  | .floating value => Json.tagged "FloatingLiteral" (Json.ofFloat value)
  | .text value => Json.tagged "StringLiteral" (.text value)
  | .ref decl => Json.tagged "DeclRef" (Json.ofNat decl)
  | .paren inner => Json.tagged "Paren" (Json.ofNat inner)
  | .unary op operand =>
    Json.tagged "Unary" (.object [("op", .text op.tag), ("operand", Json.ofNat operand)])
  | .binary op lhs rhs =>
    Json.tagged "Binary"
      (.object [("op", .text op.tag), ("lhs", Json.ofNat lhs), ("rhs", Json.ofNat rhs)])
  | .cast style conversion operand =>
    Json.tagged "Cast"
      (.object [("style", .text style.tag), ("kind", .text conversion.name),
        ("operand", Json.ofNat operand)])
  | .initList elements => Json.tagged "InitList" (Json.ofNats elements)
  | .call callee args =>
    Json.tagged "Call" (.object [("callee", Json.ofNat callee), ("args", Json.ofNats args)])

/-- The level of an expression that a choice stands for. -/
def ofChoice? (tag : String) (content : Json) : Option ExprKind := do
  match tag with
  | "IntegerLiteral" => (Json.integer? content).map .integer
  | "FloatingLiteral" => (Json.float? content).map .floating
  | "StringLiteral" => (Json.text? content).map .text
  | "DeclRef" => (Json.index? content).map .ref
  | "Paren" => (Json.index? content).map .paren
  | "Unary" =>
    match ← Json.objectFields? ["op", "operand"] content with
    | [o, e] =>
      return .unary (← Json.required (Json.tag? UnaryOp.ofTag?) o) (← Json.required Json.index? e)
    | _ => none
  | "Binary" =>
    match ← Json.objectFields? ["op", "lhs", "rhs"] content with
    | [o, l, r] =>
      return .binary (← Json.required (Json.tag? BinaryOp.ofTag?) o)
        (← Json.required Json.index? l) (← Json.required Json.index? r)
    | _ => none
  | "Cast" =>
    match ← Json.objectFields? ["style", "kind", "operand"] content with
    | [s, k, e] =>
      return .cast (← Json.required (Json.tag? CastStyle.ofTag?) s)
        (← Json.required (Json.tag? Conversion.ofName?) k) (← Json.required Json.index? e)
    | _ => none
  | "InitList" => (Json.listOf? Json.index? content).map .initList
  | "Call" =>
    match ← Json.objectFields? ["callee", "args"] content with
    | [c, a] =>
      return .call (← Json.required Json.index? c) (← Json.required (Json.listOf? Json.index?) a)
    | _ => none
  | _ => none

/-- Reads one level of an expression. -/
def ofJson? (j : Json) : Option ExprKind := do
  let (tag, content) ← j.choice?
  ofChoice? tag (← content)

end ExprKind

namespace Expr

/-- Writes an expression in its place. -/
def toJson (e : Expr) : Json :=
  .object [("id", Json.ofNat e.id), ("stmt", Json.ofNat e.stmt), ("kind", e.kind.toJson),
    ("ty", e.type.toJson), ("value_kind", .text e.category.tag)]

/-- Reads an expression in its place. -/
def ofJson? (j : Json) : Option Expr := do
  match ← j.fields? ["id", "stmt", "kind", "ty", "value_kind"] with
  | [id, stmt, kind, type, category] =>
    return ⟨← Json.required Json.index? id, ← Json.required Json.index? stmt,
      ← Json.required ExprKind.ofJson? kind, ← Json.required QualType.ofJson? type,
      ← Json.required (Json.tag? ValueCategory.ofTag?) category⟩
  | _ => none

end Expr

/-! ### Programs -/

namespace Program

/-- Writes a program. -/
def toJson (p : Program) : Json :=
  .object [("target", p.target.toJson), ("types", TypeArena.toJson p.types),
    ("decls", .list (p.decls.toList.map Decl.toJson)),
    ("stmts", .list (p.stmts.toList.map Stmt.toJson)),
    ("exprs", .list (p.exprs.toList.map Expr.toJson)),
    ("translation_unit", Json.ofNats p.topLevel)]

/-- Reads a program. -/
def ofJson? (j : Json) : Option Program := do
  match ← j.fields? ["target", "types", "decls", "stmts", "exprs", "translation_unit"] with
  | [target, types, decls, stmts, exprs, topLevel] =>
    return {
      target := ← Json.required Target.ofJson? target
      types := ← Json.required TypeArena.ofJson? types
      decls := (← Json.required (Json.listOf? Decl.ofJson?) decls).toArray
      stmts := (← Json.required (Json.listOf? Stmt.ofJson?) stmts).toArray
      exprs := (← Json.required (Json.listOf? Expr.ofJson?) exprs).toArray
      topLevel := ← Json.required (Json.listOf? Json.index?) topLevel }
  | _ => none

end Program

end Readback
