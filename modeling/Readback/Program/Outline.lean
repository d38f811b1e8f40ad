import Readback.Program.Interchange

/-! # Outlines of programs

A short JSON description of a program, meant to be looked at: each node is a list that starts with
the sort of the node, and types are given as C text. Unlike the interchange form an outline is never
read back. -/

namespace Readback

/-- The letters of the qualifiers, in their fixed order. -/
def Quals.letters (q : Quals) : String :=
  (if q.isConst then "c" else "") ++ (if q.isVolatile then "v" else "")
    ++ (if q.isRestrict then "r" else "")

/-- The qualifiers whose letters occur in a text. -/
def Quals.ofLetters (s : String) : Quals := ⟨s.contains 'c', s.contains 'v', s.contains 'r'⟩

/-- The bits of a double as sixteen hexadecimal digits; all NaNs look the same. -/
def Binary64.hex (x : Binary64) : String :=
  if x.isNaN then "nan"
  else
    let digits := Nat.toDigits 16 x.bits.toNat
    String.ofList (List.replicate (16 - digits.length) '0' ++ digits)

/-! ### Nodes -/

/-- The outline of a scope. -/
def Scope.outline : Scope → Json
  | .file => .text "tu"
  | .function d => Json.tagged "fn" (Json.ofNat d)
  | .record d => Json.tagged "rec" (Json.ofNat d)

/-- The outline of what a declaration declares. -/
def DeclKind.outline : DeclKind → Json
  | .function _ params body locals =>
    .entry "function" [Json.ofNats params, Json.ofNat? body, Json.ofNats locals]
  | .param _ index => .entry "param" [Json.ofNat index]
  | .var _ init storage => .entry "var" [Json.ofNat? init, .text storage.tag]
  | .record fields => .entry "record" [Json.ofNats fields]
  | .field _ index => .entry "field" [Json.ofNat index]

/-- The outline of a statement. -/
def StmtKind.outline : StmtKind → Json
  | .compound body => .entry "compound" [Json.ofNats body]
  | .returns value => .entry "return" [Json.ofNat? value]
  | .ifElse cond yes no => .entry "if" [Json.ofNat cond, Json.ofNat yes, Json.ofNat? no]
  | .whileLoop cond body => .entry "while" [Json.ofNat cond, Json.ofNat body]
  | .doLoop body cond => .entry "do" [Json.ofNat body, Json.ofNat cond]
  | .forLoop init cond inc body =>
    .entry "for" [Json.ofNat? init, Json.ofNat? cond, Json.ofNat? inc, Json.ofNat body]
  | .breaks => .entry "break" []
  | .continues => .entry "continue" []
  | .empty => .entry "null" []
  | .declares decls => .entry "decl" [Json.ofNats decls]
  | .expr e => .entry "expr" [Json.ofNat e]

/-- The outline of one level of an expression. -/
def ExprKind.outline : ExprKind → Json
  | .integer value => .entry "int" [.text (toString value)]
  | .floating value => .entry "float" [.text value.hex]
  | .text value => .entry "string" [.text value]
  | .ref decl => .entry "ref" [Json.ofNat decl]
  | .paren inner => .entry "paren" [Json.ofNat inner]
  | .unary op operand => .entry "unary" [.text op.tag, Json.ofNat operand]
  | .binary op lhs rhs => .entry "binary" [.text op.tag, Json.ofNat lhs, Json.ofNat rhs]
  | .cast style conversion operand =>
    .entry "cast" [.text style.tag, .text conversion.name, Json.ofNat operand]
  | .initList elements => .entry "init" [Json.ofNats elements]
  | .call callee args => .entry "call" [Json.ofNat callee, Json.ofNats args]

namespace Program

/-- The outline of a declaration. -/
def declOutline (p : Program) (d : Decl) : Json :=
  .list [.text d.name, d.scope.outline, Json.ofText? p.typeText d.type?,
    d.kind.outline]

/-- The outline of an expression. -/
def exprOutline (p : Program) (e : Expr) : Json :=
  .list [Json.ofNat e.stmt, .text (p.typeText e.type), .text (if e.isLvalue then "l" else "r"),
    e.kind.outline]

/-- The outline of a program. -/
def outline (p : Program) : Json :=
  .object [("tu", Json.ofNats p.topLevel), ("decls", .list (p.decls.toList.map p.declOutline)),
    ("stmts", .list (p.stmts.toList.map fun s => s.kind.outline)),
    ("exprs", .list (p.exprs.toList.map p.exprOutline)), ("types", Json.ofNat p.types.size)]

/-! ### Types -/

/-- What is known about a type, with its declarator around a name. -/
def typeOutline (p : Program) (t : QualType) (name : String) : Json :=
  let parts := (p.functionParts? t).map fun (result, params, isVariadic) =>
    Json.list [.text (p.typeText result), Json.ofNat params.length, .bool isVariadic]
  .object [("ref", Json.ofNat t.ref), ("q", .text t.quals.letters), ("text", .text (p.typeText t)),
    ("declarator", .text (p.declarator t name)),
    ("flags", Json.ofBools [p.isVoid t, p.isInteger t, p.isFloating t, p.isArithmetic t,
      p.isPointer t, p.isArray t, p.isFunction t, p.isRecord t, p.isScalar t,
      p.isUnsignedInteger t]),
    ("width", Json.ofNat? (p.integerWidth? t)),
    ("pointee", Json.ofText? p.typeText (p.pointee? t)),
    ("parts", parts.getD .null), ("types", Json.ofNat p.types.size)]

end Program

end Readback
