import Readback.Program.Basic

/-! # Expressions as trees

A `Term` is an expression of a program unfolded to its leaves. Shared expressions are unfolded at
each place where they stand, as they are written there. -/

namespace Readback

/-- An expression unfolded to its leaves. Numbers carry the builtin type that decides their suffix.
-/
inductive Term where
  | integer (value : Int) (kind : Option Builtin)
  | floating (value : Binary64) (kind : Option Builtin)
  | text (value : String)
  | ref (decl : DeclId)
  | paren (inner : Term)
  | unary (op : UnaryOp) (operand : Term)
  | binary (op : BinaryOp) (lhs rhs : Term)
  | cast (style : CastStyle) (type : QualType) (operand : Term)
  | initList (elements : List Term)
  | call (callee : Term) (args : List Term)
deriving Inhabited

namespace Term

/-- How tightly a term binds as it is written. An implicit cast is written as its operand. -/
def precedence : Term → Precedence
  | .integer value _ => if value < 0 then .unary else .primary
  | .floating value _ => if value.isNegative then .unary else .primary
  | .unary op _ => op.precedence
  | .binary op _ _ => op.precedence
  | .cast .implicit _ operand => operand.precedence
  | .cast .explicit _ _ => .unary
  | .call _ _ => .suffixed
  | _ => .primary

end Term

namespace Program

/-- Unfolds an expression. The first argument bounds the depth. -/
def termAux (p : Program) : Nat → ExprId → Term
  | 0, _ => default
  | n + 1, id =>
    let e := p.expr id
    match e.kind with
    | .integer value => .integer value (p.builtin? e.type)
    | .floating value => .floating value (p.builtin? e.type)
    | .text value => .text value
    | .ref decl => .ref decl
    | .paren inner => .paren (p.termAux n inner)
    | .unary op operand => .unary op (p.termAux n operand)
    | .binary op lhs rhs => .binary op (p.termAux n lhs) (p.termAux n rhs)
    | .cast style _ operand => .cast style e.type (p.termAux n operand)
    | .initList elements => .initList (elements.map (p.termAux n))
    | .call callee args => .call (p.termAux n callee) (args.map (p.termAux n))

/-- The expression as a tree. Its parts stand before it, so its position bounds its depth. -/
def term (p : Program) (id : ExprId) : Term := p.termAux (id + 1) id

end Program

end Readback
