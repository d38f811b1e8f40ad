import Readback.Proofs.Steps
import Readback.Typing.Decl
import Readback.Typing.Stmt

/-! # What typing steps leave alone

Deciding a type interns types and does nothing else, whether it succeeds or fails. Making an expression
or a statement also appends such nodes. So these steps lead along every relation between programs that
allows as much.

* `Program.Interning R` is a class: the relation `R` allows interning types, any number of times. The
  least such relation is `Program.TypesOnly`, which says that two programs differ at most in their
  types.
* `Program.Appending R` is the class of relations that also allow appending expressions and statements.

There is one lemma `f_moves` for each step `f`: conversions (`decay_moves`, `promote_moves`,
`usualConversions_moves`), checks (`assignable_moves`, `condition_moves`), rules for operators
(`binaryType_moves`), all along interning relations; and then expressions (`cast_moves`, `binary_moves`,
`call_moves`) and statements (`controlled_moves`, `forLoop_moves`, `returns_moves`), along appending
ones.

A frame property of construction, such as that declarations stay as they are or that tables only grow,
is proved by giving an instance of one of the two classes. Steps that make or complete declarations are
not covered, since what they leave alone differs from one to the other. -/

namespace Readback

open Step

namespace Program

/-- `q` differs from `p` at most in its types. -/
def TypesOnly (p q : Program) : Prop := q = { p with types := q.types }

instance : Std.Refl TypesOnly := ⟨fun _ => rfl⟩

instance : IsTrans Program TypesOnly where
  trans p q r h₁ h₂ := by
    unfold TypesOnly at *
    rw [h₂, h₁]

/-- The relation allows interning types, any number of times. -/
class Interning (R : Program → Program → Prop) : Prop extends Std.Refl R, IsTrans Program R where
  intern (p : Program) (node : TypeNode) : R p (p.internNode node).2

instance : Interning TypesOnly := ⟨fun _ _ => rfl⟩

/-- The relation also allows appending expressions and statements. -/
class Appending (R : Program → Program → Prop) : Prop extends Interning R where
  pushExpr (p : Program) (k : ExprKind) (t : QualType) (c : ValueCategory) : R p (p.pushExpr k t c).2
  pushStmt (p : Program) (k : StmtKind) : R p (p.pushStmt k).2

theorem TypesOnly.exprs {p q : Program} (h : p.TypesOnly q) : q.exprs = p.exprs := by
  rw [h]

end Program

namespace Check

open Program

section Decide

variable {R : Program → Program → Prop} [Interning R]

/-! ### Types and conversions -/

theorem internNode_moves (node : TypeNode) : Moves R (internNode node) :=
  .modifyGet fun p => Interning.intern p node

theorem recordType_moves (decl : DeclId) : Moves R (recordType decl) := by
  refine .bind .get fun p => ?_
  dsimp only
  split
  · exact internNode_moves _
  · exact .throw _

theorem decay_moves (t : QualType) : Moves R (decay t) := by
  refine .bind .get fun p => ?_
  split
  · exact internNode_moves _
  · exact internNode_moves _
  · exact .pure _

theorem promote_moves (t : QualType) : Moves R (promote t) := by
  refine .bind .get fun p => ?_
  split
  · split
    · exact internNode_moves _
    · exact .pure _
  · exact .pure _

theorem commonInteger_moves (lhs rhs : QualType) : Moves R (commonInteger lhs rhs) := by
  refine .bind .get fun p => ?_
  dsimp only
  repeat' split
  all_goals first | exact .pure _ | exact internNode_moves _

theorem usualConversions_moves (lhs rhs : QualType) :
    Moves R (usualConversions lhs rhs) := by
  refine .bind .get fun p => ?_
  repeat' split
  all_goals first
    | exact .pure _
    | exact .bind (promote_moves _) fun l => .bind (promote_moves _) fun r =>
        commonInteger_moves l r

theorem storable_moves (e : ExprId) : Moves R (storable e) := by
  refine .bind .get fun p => ?_
  split
  · exact .throw _
  · exact .pure _

theorem assignable_moves (target : QualType) (e : ExprId) :
    Moves R (assignable target e) := by
  refine .bind .get fun p => .bind (decay_moves _) fun source => .bind .get fun q => ?_
  split
  · exact .throw _
  · exact .pure _

theorem initializable_moves (target : QualType) (e : ExprId) :
    Moves R (initializable target e) := by
  refine .bind .get fun p => ?_
  split
  · exact .pure _
  · split
    · exact .pure _
    · exact assignable_moves _ _
  · exact assignable_moves _ _

/-! ### Operators, conditions and returned values -/

theorem unaryType_moves (op : UnaryOp) (operand : ExprId) :
    Moves R (unaryType op operand) := by
  refine .bind .get fun p => ?_
  cases op with
  | postInc | postDec | preInc | preDec =>
      exact .bind (storable_moves _) fun _ => .guard (.pure _)
  | addressOf => exact .guard (.bind (internNode_moves _) fun _ => .pure _)
  | deref =>
      refine .bind (decay_moves _) fun decayed => .bind .get fun q => ?_
      split
      · exact .pure _
      · exact .throw _
  | plus | minus | bitNot => exact .guard (.bind (promote_moves _) fun _ => .pure _)
  | logicalNot =>
      exact .bind (decay_moves _) fun _ => .bind .get fun _ =>
        .guard (.bind (internNode_moves _) fun _ => .pure _)

theorem operatorType?_moves (op : BinaryOp) (l r : QualType) (lhs rhs : ExprId) :
    Moves R (operatorType? op l r lhs rhs) := by
  refine .bind .get fun p => ?_
  dsimp only
  repeat' split
  all_goals first
    | exact .pure _
    | exact .map (usualConversions_moves _ _) _
    | exact .map (promote_moves _) _
    | exact .map (internNode_moves _) _

theorem operatorType_moves (op : BinaryOp) (lhs rhs : ExprId) :
    Moves R (operatorType op lhs rhs) := by
  refine .bind .get fun p => .bind (decay_moves _) fun l => .bind (decay_moves _) fun r =>
    .bind (operatorType?_moves _ _ _ _ _) fun type => ?_
  split
  · exact .pure _
  · exact .bind .get fun _ => .throw _

theorem binaryType_moves (op : BinaryOp) (lhs rhs : ExprId) :
    Moves R (binaryType op lhs rhs) := by
  refine .bind .get fun p => ?_
  dsimp only
  split
  · exact .bind (storable_moves _) fun _ => .bind (assignable_moves _ _) fun _ => .pure _
  · split
    · exact .bind (storable_moves _) fun _ => .bind (operatorType_moves _ _ _) fun _ =>
        .pure _
    · exact operatorType_moves _ _ _

theorem condition_moves (e : ExprId) : Moves R (condition e) := by
  refine .bind .get fun p => .bind (decay_moves _) fun decayed => .bind .get fun q => ?_
  split
  · exact .pure _
  · exact .throw _

theorem returnable_moves (name : String) (result : QualType) (value : Option ExprId) :
    Moves R (returnable name result value) := by
  refine .bind .get fun p => ?_
  repeat' split
  all_goals first | exact .pure _ | exact .throw _ | exact assignable_moves _ _

end Decide

/-! ### Expressions -/

section Append

variable {R : Program → Program → Prop} [Appending R]

theorem pushExpr_moves (k : ExprKind) (t : QualType) (c : ValueCategory) : Moves R (pushExpr k t c) :=
  .modifyGet fun p => Appending.pushExpr p k t c

theorem pushStmt_moves (k : StmtKind) : Moves R (pushStmt k) :=
  .modifyGet fun p => Appending.pushStmt p k

theorem declRef_moves (d : DeclId) : Moves R (declRef d) := by
  refine .bind .get fun p => ?_
  dsimp only
  split
  · exact pushExpr_moves _ _ _
  · exact pushExpr_moves _ _ _
  · exact pushExpr_moves _ _ _
  · exact .throw _
  · exact .throw _

theorem paren_moves (e : ExprId) : Moves R (paren e) := .bind .get fun _ => pushExpr_moves _ _ _

theorem parenBelow_moves (e : ExprId) (least : Precedence) : Moves R (parenBelow e least) := by
  refine .bind .get fun p => ?_
  split
  · exact paren_moves e
  · exact .pure _

theorem parenUpTo_moves (e : ExprId) (most : Precedence) : Moves R (parenUpTo e most) := by
  refine .bind .get fun p => ?_
  split
  · exact paren_moves e
  · exact .pure _

theorem listed_moves (es : List ExprId) : Moves R (listed es) := .mapM fun e _ => parenUpTo_moves e _

theorem integer_moves (value : Int) (type : QualType) : Moves R (integer value type) := by
  refine .bind .get fun p => ?_
  split
  · exact .throw _
  · exact pushExpr_moves _ _ _

theorem floating_moves (value : Binary64) (type : QualType) : Moves R (floating value type) := by
  refine .bind .get fun p => ?_
  split
  · exact .throw _
  · exact pushExpr_moves _ _ _

theorem text_moves (value : String) : Moves R (text value) :=
  .bind (internNode_moves _) fun _ => .bind (internNode_moves _) fun _ => pushExpr_moves _ _ _

theorem cast_moves (style : CastStyle) (conversion : Conversion) (type : QualType) (operand : ExprId)
    (category : ValueCategory) : Moves R (cast style conversion type operand category) := by
  cases style with
  | implicit => exact pushExpr_moves _ _ _
  | explicit =>
      exact .bind .get fun p => .guard (.bind (parenBelow_moves _ _) fun _ => pushExpr_moves _ _ _)

theorem unary_moves (op : UnaryOp) (operand : ExprId) : Moves R (unary op operand) :=
  .bind (unaryType_moves _ _) fun _ => .bind (parenBelow_moves _ _) fun _ => pushExpr_moves _ _ _

theorem binary_moves (op : BinaryOp) (lhs rhs : ExprId) : Moves R (binary op lhs rhs) := by
  refine .bind (binaryType_moves _ _ _) fun _ => ?_
  split
  · exact .bind (parenUpTo_moves _ _) fun _ => .bind (parenBelow_moves _ _) fun _ =>
      pushExpr_moves _ _ _
  · exact .bind (parenBelow_moves _ _) fun _ => .bind (parenUpTo_moves _ _) fun _ =>
      pushExpr_moves _ _ _

theorem initList_moves (type : QualType) (elements : List ExprId) :
    Moves R (initList type elements) := .bind (listed_moves elements) fun _ => pushExpr_moves _ _ _

theorem call_moves (callee : ExprId) (args : List ExprId) : Moves R (call callee args) := by
  refine .bind .get fun p => ?_
  dsimp only
  split
  · exact .throw _
  · exact .guard (.bind (parenBelow_moves _ _) fun _ => .bind (listed_moves _) fun _ =>
      pushExpr_moves _ _ _)

/-! ### Statements -/

theorem returns_moves (function : DeclId) (value : Option ExprId) :
    Moves R (returns function value) := by
  refine .bind .get fun p => ?_
  dsimp only
  split
  · split
    · exact .bind (returnable_moves _ _ _) fun _ => pushStmt_moves _
    · exact .throw _
  · exact .throw _

/-- A statement with a condition. -/
theorem controlled_moves (cond : ExprId) (kind : ExprId → StmtKind) :
    Moves R (condition cond >>= fun e => pushStmt (kind e)) :=
  .bind (condition_moves cond) fun _ => pushStmt_moves _

theorem forLoop_moves (init : Option StmtId) (cond inc : Option ExprId) (body : StmtId) :
    Moves R (forLoop init cond inc body) := by
  cases cond with
  | none => exact pushStmt_moves _
  | some e => exact .bind (.map (condition_moves e) _) fun _ => pushStmt_moves _

end Append

end Check

end Readback
