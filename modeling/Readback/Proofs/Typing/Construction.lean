import Readback.Proofs.Steps
import Readback.Typing.Decl
import Readback.Typing.Stmt

/-! # Programs under construction

A `Construction` is one call of typed construction with its arguments; there is one for each of the
calls that make types, declarations, expressions and statements. `Construction.Known` says that the
nodes and types that it names exist, and `Construction.after` is the program that it leaves.

A program is `Constructed` if some sequence of such calls leads to it from an empty program, each call
naming only nodes and types that exist when it is made. Calls that fail count too: what they did to
the program stays. Whatever is proved of constructed programs is so proved of every program that a
lift makes, and of those that anyone else makes with the same calls. -/

namespace Readback

/-- A call of typed construction. -/
inductive Construction where
  | builtin (kind : Builtin)
  | pointerTo (pointee : QualType)
  | arrayOf (element : QualType) (size : Option Nat)
  | functionType (result : QualType) (params : List QualType) (isVariadic : Bool)
  | recordType (decl : DeclId)
  | addDecl (scope : Scope) (decl : DeclId)
  | functionDecl (scope : Scope) (name : String) (type : QualType)
  | param (function : DeclId) (name : String) (type : QualType) (index : Nat)
  | setParams (function : DeclId) (params : List DeclId)
  | setBody (function : DeclId) (body : StmtId)
  | varDecl (scope : Scope) (name : String) (type : QualType) (storage : Storage)
  | setInit (var : DeclId) (init : ExprId)
  | recordDecl (scope : Scope) (name : String)
  | fieldDecl (record : DeclId) (name : String) (type : QualType)
  | declRef (decl : DeclId)
  | paren (e : ExprId)
  | integer (value : Int) (type : QualType)
  | floating (value : Binary64) (type : QualType)
  | text (value : String)
  | cast (style : CastStyle) (conversion : Conversion) (type : QualType) (operand : ExprId)
      (category : ValueCategory)
  | unary (op : UnaryOp) (operand : ExprId)
  | binary (op : BinaryOp) (lhs rhs : ExprId)
  | initList (type : QualType) (elements : List ExprId)
  | call (callee : ExprId) (args : List ExprId)
  | condition (e : ExprId)
  | compound (body : List StmtId)
  | returns (function : DeclId) (value : Option ExprId)
  | ifElse (cond : ExprId) (yes : StmtId) (no : Option StmtId)
  | whileLoop (cond : ExprId) (body : StmtId)
  | doLoop (body : StmtId) (cond : ExprId)
  | forLoop (init : Option StmtId) (cond inc : Option ExprId) (body : StmtId)
  | breaks
  | continues
  | empty
  | declares (decls : List DeclId)
deriving DecidableEq

/-- The declaration that a scope belongs to. -/
def Scope.owner? : Scope → Option DeclId
  | .file => none
  | .function decl => some decl
  | .record decl => some decl

namespace Construction

/-- Makes the call. Its result is not looked at. -/
def run : Construction → Check Unit
  | .builtin kind => discard (Check.builtin kind)
  | .pointerTo pointee => discard (Check.pointerTo pointee)
  | .arrayOf element size => discard (Check.arrayOf element size)
  | .functionType result params isVariadic => discard (Check.functionType result params isVariadic)
  | .recordType decl => discard (Check.recordType decl)
  | .addDecl scope decl => Check.addDecl scope decl
  | .functionDecl scope name type => discard (Check.functionDecl scope name type)
  | .param function name type index => discard (Check.param function name type index)
  | .setParams function params => Check.setParams function params
  | .setBody function body => Check.setBody function body
  | .varDecl scope name type storage => discard (Check.varDecl scope name type storage)
  | .setInit var init => Check.setInit var init
  | .recordDecl scope name => discard (Check.recordDecl scope name)
  | .fieldDecl record name type => discard (Check.fieldDecl record name type)
  | .declRef decl => discard (Check.declRef decl)
  | .paren e => discard (Check.paren e)
  | .integer value type => discard (Check.integer value type)
  | .floating value type => discard (Check.floating value type)
  | .text value => discard (Check.text value)
  | .cast style conversion type operand category =>
    discard (Check.cast style conversion type operand category)
  | .unary op operand => discard (Check.unary op operand)
  | .binary op lhs rhs => discard (Check.binary op lhs rhs)
  | .initList type elements => discard (Check.initList type elements)
  | .call callee args => discard (Check.call callee args)
  | .condition e => discard (Check.condition e)
  | .compound body => discard (Check.compound body)
  | .returns function value => discard (Check.returns function value)
  | .ifElse cond yes no => discard (Check.ifElse cond yes no)
  | .whileLoop cond body => discard (Check.whileLoop cond body)
  | .doLoop body cond => discard (Check.doLoop body cond)
  | .forLoop init cond inc body => discard (Check.forLoop init cond inc body)
  | .breaks => discard (Check.pushStmt .breaks)
  | .continues => discard (Check.pushStmt .continues)
  | .empty => discard (Check.pushStmt .empty)
  | .declares decls => discard (Check.pushStmt (.declares decls))

/-- The types that the call names. -/
def types : Construction → List QualType
  | .pointerTo t | .arrayOf t _ | .functionDecl _ _ t | .param _ _ t _ | .varDecl _ _ t _
  | .fieldDecl _ _ t | .integer _ t | .floating _ t | .cast _ _ t _ _ | .initList t _ => [t]
  | .functionType result params _ => result :: params
  | _ => []

/-- The declarations that the call names. -/
def decls : Construction → List DeclId
  | .recordType d | .declRef d | .setBody d _ | .setInit d _ | .param d _ _ _ | .fieldDecl d _ _
  | .returns d _ => [d]
  | .addDecl scope d => d :: scope.owner?.toList
  | .functionDecl scope _ _ | .varDecl scope _ _ _ | .recordDecl scope _ => scope.owner?.toList
  | .setParams function params => function :: params
  | .declares ds => ds
  | _ => []

/-- The statements that the call names. -/
def stmts : Construction → List StmtId
  | .setBody _ s | .whileLoop _ s | .doLoop s _ => [s]
  | .compound body => body
  | .ifElse _ yes no => yes :: no.toList
  | .forLoop init _ _ body => body :: init.toList
  | _ => []

/-- The expressions that the call names. -/
def exprs : Construction → List ExprId
  | .setInit _ e | .paren e | .cast _ _ _ e _ | .unary _ e | .condition e | .ifElse e _ _
  | .whileLoop e _ | .doLoop _ e => [e]
  | .binary _ lhs rhs => [lhs, rhs]
  | .initList _ elements => elements
  | .call callee args => callee :: args
  | .returns _ value => value.toList
  | .forLoop _ cond inc _ => cond.toList ++ inc.toList
  | _ => []

/-- Everything that the call names is there. -/
def Known (c : Construction) (p : Program) : Prop :=
  (∀ t ∈ c.types, t.ref < p.types.size) ∧ (∀ d ∈ c.decls, d < p.decls.size) ∧
    (∀ s ∈ c.stmts, s < p.stmts.size) ∧ ∀ e ∈ c.exprs, e < p.exprs.size

instance (c : Construction) (p : Program) : Decidable (c.Known p) := by
  unfold Known
  infer_instance

/-- The program that the call leaves, whether it succeeds or fails. -/
def after (c : Construction) (p : Program) : Program := Step.after c.run p

end Construction

/-- A program that some sequence of calls on known nodes leads to. -/
inductive Program.Constructed : Program → Prop where
  | empty (target : Target) : Constructed (.empty target)
  | step {p : Program} (c : Construction) (constructed : Constructed p) (known : c.Known p) :
      Constructed (c.after p)

end Readback
