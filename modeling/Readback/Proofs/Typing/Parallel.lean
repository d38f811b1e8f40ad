import Readback.Proofs.Alongside
import Readback.Proofs.Typing.Decay

/-! # The same operation in programs with the same types

Two programs with the same types and declarations may differ in their expressions. Steps that look at
types alone do the same on both, and so do the operations that look at the type and the category of an
operand: they make expressions of the same type and category, or fail with the same fault.

* `Program.Parallel` says that the programs have the same types and declarations, for the same target.
  All questions about types have the same answers in them (`Parallel.isScalar`, `Parallel.pointee?` and
  so on).
* `Check.Agree` relates two steps: they give the same and gain the same types (`Program.Retyped`), or
  fail with the same fault. Conversions agree (`decay_agree`, `promote_agree`,
  `usualConversions_agree`).
* `Program.Seems` says that two expressions have the same type and category. A step that looks at an
  operand agrees on operands that seem the same (`storable_agree`, `unaryType_agree`).
* `Check.sorted` keeps of a step that makes an expression only the type and the category of what is
  made. Steps that have decided on the same type and category make the same in this sense
  (`Makes.together`), and an operation is such a step once its type is decided (`sorted_together`).
  Statements have no type, so all that is left of them is whether they are made (`Check.unsorted`).

The lemmas on whole operations are `cast_together`, `call_together`, `condition_together` and
`forLoop_together`. Operators are not among them: they also ask whether an operand is a null pointer,
which does depend on the expression, and are dealt with where that is known. -/

namespace Readback

open Step

namespace Program

variable {p q r : Program}

/-! ### Programs with the same types -/

/-- The programs have the same types and declarations, for the same target. -/
structure Parallel (p r : Program) : Prop where
  target : r.target = p.target
  types : r.types = p.types
  decls : r.decls = p.decls

namespace Parallel

variable (h : p.Parallel r)

include h

theorem node : r.node = p.node := by
  funext t
  rw [Program.node, Program.node, h.types]

theorem builtin? : r.builtin? = p.builtin? := funext fun t => builtin?_congr (congrFun h.node t)

theorem isVoid : r.isVoid = p.isVoid := funext fun t => isVoid_congr (congrFun h.node t)

theorem isInteger : r.isInteger = p.isInteger := funext fun t => isInteger_congr (congrFun h.node t)

theorem isArithmetic : r.isArithmetic = p.isArithmetic :=
  funext fun t => isArithmetic_congr (congrFun h.node t)

theorem isPointer : r.isPointer = p.isPointer := funext fun t => isPointer_congr (congrFun h.node t)

theorem isArray : r.isArray = p.isArray := funext fun t => isArray_congr (congrFun h.node t)

theorem isFunction : r.isFunction = p.isFunction :=
  funext fun t => isFunction_congr (congrFun h.node t)

theorem isRecord : r.isRecord = p.isRecord := funext fun t => isRecord_congr (congrFun h.node t)

theorem isScalar : r.isScalar = p.isScalar := funext fun t => isScalar_congr (congrFun h.node t)

theorem pointee? : r.pointee? = p.pointee? := funext fun t => pointee?_congr (congrFun h.node t)

theorem functionParts? : r.functionParts? = p.functionParts? :=
  funext fun t => functionParts?_congr (congrFun h.node t)

theorem decl : r.decl = p.decl := by
  funext d
  rw [Program.decl, Program.decl, h.decls]

theorem typeText : r.typeText = p.typeText := by
  funext t
  simp only [Program.typeText, declarator, h.types, h.decl]

end Parallel

/-- Both programs have gained types, and the same ones. -/
structure Retyped (p r q q' : Program) : Prop where
  left : p.TypesOnly q
  right : r.TypesOnly q'
  parallel : q.Parallel q'

theorem Parallel.retyped (h : p.Parallel r) : p.Retyped r p r := ⟨rfl, rfl, h⟩

/-- The expressions have the same type and category. -/
structure Seems (p : Program) (e : ExprId) (r : Program) (x : ExprId) : Prop where
  type : (r.expr x).type = (p.expr e).type
  category : (r.expr x).category = (p.expr e).category

theorem Parallel.storeFault? (h : p.Parallel r) {e x : ExprId} (hx : p.Seems e r x) :
    r.storeFault? x = p.storeFault? e := by
  unfold Program.storeFault? Expr.isLvalue
  dsimp only
  rw [hx.type, hx.category, h.isArray, h.isFunction, h.typeText]

theorem TypesOnly.expr (h : p.TypesOnly q) : q.expr = p.expr := by
  funext e
  rw [Program.expr, Program.expr, h.exprs]

theorem TypesOnly.isNullPointer (h : p.TypesOnly q) : q.isNullPointer = p.isNullPointer :=
  funext (isNullPointer_of_exprs_eq h.exprs)

end Program

open Program

namespace Check

variable {α β : Type} {p q q' r : Program}

/-- Both steps give the same and gain the same types, or both fail with the same fault. -/
abbrev Agree (p r : Program) (m m' : Check α) (q q' : Program) : Prop :=
  Together m m' q q' (fun a a' s s' => a' = a ∧ p.Retyped r s s') Eq

/-! ### Steps on the same types -/

section Types

variable (h : p.Retyped r q q')

include h

theorem internNode_agree (node : TypeNode) : Agree p r (internNode node) (internNode node) q q' := by
  refine ⟨?_, IsTrans.trans _ _ _ h.left rfl, IsTrans.trans _ _ _ h.right rfl,
    h.parallel.target, ?_, h.parallel.decls⟩
  · show QualType.plain (q'.types.intern node).1 = QualType.plain (q.types.intern node).1
    rw [h.parallel.types]
  · show (q'.types.intern node).2 = (q.types.intern node).2
    rw [h.parallel.types]

theorem decay_agree (t : QualType) : Agree p r (decay t) (decay t) q q' := by
  refine .get_bind ?_
  rw [h.parallel.node]
  split
  · exact internNode_agree h _
  · exact internNode_agree h _
  · exact .pure ⟨rfl, h⟩

theorem promote_agree (t : QualType) : Agree p r (promote t) (promote t) q q' := by
  refine .get_bind ?_
  rw [h.parallel.builtin?]
  split
  · exact .ite .rfl (fun _ => internNode_agree h _) fun _ => .pure ⟨rfl, h⟩
  · exact .pure ⟨rfl, h⟩

theorem commonInteger_agree (lhs rhs : QualType) :
    Agree p r (commonInteger lhs rhs) (commonInteger lhs rhs) q q' := by
  refine .get_bind ?_
  dsimp only
  rw [h.parallel.builtin?, h.parallel.target]
  split
  · refine .ite .rfl (fun _ => .pure ⟨rfl, h⟩) fun _ => .ite .rfl (fun _ => .pure ⟨rfl, h⟩) fun _ => ?_
    refine .ite .rfl (fun _ => internNode_agree h _) fun _ => ?_
    exact .ite .rfl (fun _ => internNode_agree h _) fun _ => internNode_agree h _
  · exact .pure ⟨rfl, h⟩

theorem usualConversions_agree (lhs rhs : QualType) :
    Agree p r (usualConversions lhs rhs) (usualConversions lhs rhs) q q' := by
  refine .get_bind ?_
  rw [h.parallel.builtin?]
  split
  · split
    · exact .pure ⟨rfl, h⟩
    · exact .pure ⟨rfl, h⟩
    · exact .pure ⟨rfl, h⟩
    · refine (promote_agree h lhs).bind ?_
      rintro _ l s s' ⟨rfl, hs⟩
      refine (promote_agree hs rhs).bind ?_
      rintro _ k t t' ⟨rfl, ht⟩
      exact commonInteger_agree ht l k
  · exact .pure ⟨rfl, h⟩

end Types

/-! ### Steps on an operand -/

section Operand

variable {e x : ExprId}

theorem storable_agree (h : p.Parallel r) (hx : p.Seems e r x) :
    Together (storable e) (storable x) p r
      (fun _ _ s s' => p.storeFault? e = none ∧ p = s ∧ r = s') Eq := by
  refine .get_bind ?_
  rw [h.storeFault? hx]
  split
  · exact .throw rfl
  · next hnone => exact .pure ⟨hnone, rfl, rfl⟩

theorem unaryType_agree (h : p.Parallel r) (op : UnaryOp) (hx : p.Seems e r x) :
    Agree p r (unaryType op e) (unaryType op x) p r := by
  refine .get_bind ?_
  dsimp only
  rw [hx.type]
  cases op with
  | postInc | postDec | preInc | preDec =>
      refine (storable_agree h hx).bind ?_
      rintro _ _ _ _ ⟨-, rfl, rfl⟩
      rw [h.isScalar, operandFault, operandFault, h.typeText]
      exact .guard .rfl rfl fun _ => .pure ⟨rfl, h.retyped⟩
  | addressOf =>
      dsimp only
      rw [Expr.isLvalue, Expr.isLvalue, hx.category, h.isFunction, operandFault, operandFault,
        h.typeText]
      refine .guard .rfl rfl fun _ => (internNode_agree h.retyped _).bind ?_
      rintro _ a s s' ⟨rfl, hs⟩
      exact .pure ⟨rfl, hs⟩
  | deref =>
      refine (decay_agree h.retyped _).bind ?_
      rintro _ a s s' ⟨rfl, hs⟩
      refine .get_bind ?_
      rw [hs.parallel.pointee?, operandFault, operandFault, h.typeText]
      split
      · exact .pure ⟨rfl, hs⟩
      · exact .throw rfl
  | plus | minus =>
      dsimp only
      rw [h.isArithmetic, operandFault, operandFault, h.typeText]
      refine .guard .rfl rfl fun _ => (promote_agree h.retyped _).bind ?_
      rintro _ a s s' ⟨rfl, hs⟩
      exact .pure ⟨rfl, hs⟩
  | bitNot =>
      dsimp only
      rw [h.isInteger, operandFault, operandFault, h.typeText]
      refine .guard .rfl rfl fun _ => (promote_agree h.retyped _).bind ?_
      rintro _ a s s' ⟨rfl, hs⟩
      exact .pure ⟨rfl, hs⟩
  | logicalNot =>
      refine (decay_agree h.retyped _).bind ?_
      rintro _ a s s' ⟨rfl, hs⟩
      refine .get_bind ?_
      rw [hs.parallel.isScalar, operandFault, operandFault, h.typeText]
      refine .guard .rfl rfl fun _ => (internNode_agree hs _).bind ?_
      rintro _ b t t' ⟨rfl, ht⟩
      exact .pure ⟨rfl, ht⟩

end Operand

/-! ### What is made -/

/-- The type and category of the expression that a step makes. -/
def sorted (m : Check ExprId) : Check (Option (QualType × ValueCategory)) := do
  let x ← m
  let y := (← get).expr x
  return some (y.type, y.category)

/-- A statement has no type and category. -/
def unsorted (m : Check StmtId) : Check (Option (QualType × ValueCategory)) := do
  let _ ← m
  return none

/-- The step cannot fail, and makes an expression of the type and category. -/
def Makes (m : Check ExprId) (t : QualType) (c : ValueCategory) : Prop :=
  ∀ q, Outcome (sorted m) q (fun a _ => a = some (t, c)) fun _ _ => False

theorem pushExpr_makes (k : ExprKind) (t : QualType) (c : ValueCategory) :
    Makes (pushExpr k t c) t c := by
  intro q
  show some (((q.pushExpr k t c).2.expr q.exprs.size).type,
    ((q.pushExpr k t c).2.expr q.exprs.size).category) = _
  rw [expr_pushExpr_self]

theorem Makes.bind {m : Check α} {f : α → Check ExprId} {t : QualType} {c : ValueCategory}
    (hm : Sure m) (hf : ∀ a, Makes (f a) t c) : Makes (m >>= f) t c := by
  intro q
  unfold sorted
  rw [bind_assoc]
  exact (hm q).bind fun a s _ => hf a s

/-- Steps that have decided on the same type and category make the same. -/
theorem Makes.together {m m' : Check ExprId} {t : QualType} {c : ValueCategory} (hm : Makes m t c)
    (hm' : Makes m' t c) (q q' : Program) :
    Together (sorted m) (sorted m') q q' (fun a a' _ _ => a' = a) Eq :=
  .of_outcomes (hm q) (hm' q') (fun _ _ _ _ ha ha' => ha'.trans ha.symm) (fun _ _ _ _ h => h.elim)
    (fun _ _ _ _ _ h => h) fun _ _ _ _ _ h => h

/-- First the type is decided, then the expression is made. -/
theorem sorted_together {m m' : Check α} {f f' : α → Check ExprId} {t : α → QualType}
    {c : α → ValueCategory} (hm : Agree p r m m' q q') (hf : ∀ a, Makes (f a) (t a) (c a))
    (hf' : ∀ a, Makes (f' a) (t a) (c a)) :
    Together (sorted (m >>= f)) (sorted (m' >>= f')) q q' (fun a a' _ _ => a' = a) Eq := by
  unfold sorted
  rw [bind_assoc, bind_assoc]
  refine hm.bind ?_
  rintro _ a s s' ⟨rfl, -⟩
  exact (hf a).together (hf' a) s s'

theorem unary_makes (op : UnaryOp) (e : ExprId) (t : QualType) (c : ValueCategory) :
    Makes (do let e ← parenBelow e op.precedence; pushExpr (.unary op e) t c) t c :=
  .bind (parenBelow_sure _ _) fun _ => pushExpr_makes _ _ _

theorem binary_makes (op : BinaryOp) (lhs rhs : ExprId) (t : QualType) :
    Makes (if op.isAssignment then do
        let lhs ← parenUpTo lhs op.precedence
        let rhs ← parenBelow rhs op.precedence
        pushExpr (.binary op lhs rhs) t .rvalue
      else do
        let lhs ← parenBelow lhs op.precedence
        let rhs ← parenUpTo rhs op.precedence
        pushExpr (.binary op lhs rhs) t .rvalue) t .rvalue := by
  split
  · exact .bind (parenUpTo_sure _ _) fun _ => .bind (parenBelow_sure _ _) fun _ => pushExpr_makes _ _ _
  · exact .bind (parenBelow_sure _ _) fun _ => .bind (parenUpTo_sure _ _) fun _ => pushExpr_makes _ _ _

theorem cast_together (h : p.Parallel r) (style : CastStyle) (conversion : Conversion) (t : QualType)
    (c : ValueCategory) (e x : ExprId) :
    Together (sorted (cast style conversion t e c)) (sorted (cast style conversion t x c)) p r
      (fun a a' _ _ => a' = a) Eq := by
  cases style with
  | implicit => exact (pushExpr_makes _ t c).together (pushExpr_makes _ t c) p r
  | explicit =>
      have made (e : ExprId) : Makes (do
          let operand ← parenBelow e .unary
          pushExpr (.cast .explicit conversion operand) t c) t c :=
        .bind (parenBelow_sure _ _) fun _ => pushExpr_makes _ _ _
      unfold sorted cast
      rw [bind_assoc, bind_assoc]
      refine .get_bind ?_
      rw [h.isVoid, h.isScalar, h.typeText]
      split
      · exact .throw rfl
      · exact (made e).together (made x) p r

theorem call_together (h : p.Parallel r) {f f' : ExprId} {args args' : List ExprId}
    (hf : p.Seems f r f') (hlength : args'.length = args.length) :
    Together (sorted (call f args)) (sorted (call f' args')) p r (fun a a' _ _ => a' = a) Eq := by
  have made (f : ExprId) (args : List ExprId) (t : QualType) : Makes (do
      let callee ← parenBelow f .suffixed
      let args ← listed args
      pushExpr (.call callee args) t .rvalue) t .rvalue :=
    .bind (parenBelow_sure _ _) fun _ => .bind (listed_sure _) fun _ => pushExpr_makes _ _ _
  have hparts : calleeParts? r = calleeParts? p := by
    funext t
    unfold calleeParts?
    rw [h.isFunction, h.functionParts?, h.pointee?]
  unfold sorted call
  rw [bind_assoc, bind_assoc]
  refine .get_bind ?_
  dsimp only
  rw [hf.type, hparts, h.typeText, hlength]
  split
  · exact .throw rfl
  · next result params isVariadic _ =>
      split
      · exact .throw rfl
      · exact (made f args _).together (made f' args' _) p r

theorem condition_together (h : p.Parallel r) {e x : ExprId} (hx : p.Seems e r x) :
    Together (condition e) (condition x) p r (fun _ _ _ _ => True) Eq := by
  refine .get_bind ?_
  rw [hx.type]
  refine (decay_agree h.retyped _).bind ?_
  rintro _ t s s' ⟨rfl, hs⟩
  refine .get_bind ?_
  rw [hs.parallel.isScalar, hs.parallel.typeText]
  exact .ite .rfl (fun _ => .pure trivial) fun _ => .throw rfl

theorem unsorted_together {m m' : Check StmtId}
    (hm : Together m m' p r (fun _ _ _ _ => True) Eq) :
    Together (unsorted m) (unsorted m') p r (fun a a' _ _ => a' = a) Eq :=
  hm.bind fun _ _ _ _ _ => .pure rfl

theorem pushStmt_together (k k' : StmtKind) (q q' : Program) :
    Together (pushStmt k) (pushStmt k') q q' (fun _ _ _ _ => True) Eq := trivial

theorem forLoop_together (h : p.Parallel r) (init : Option StmtId) {cond cond' : Option ExprId}
    (hcond : Option.Rel (fun e x => p.Seems e r x) cond cond') (inc inc' : Option ExprId)
    (body : StmtId) :
    Together (forLoop init cond inc body) (forLoop init cond' inc' body) p r (fun _ _ _ _ => True)
      Eq := by
  cases hcond with
  | none => exact pushStmt_together _ _ p r
  | some hx =>
      have hcond : Together (Option.mapM condition (some _)) (Option.mapM condition (some _)) p r
          (fun _ _ _ _ => True) Eq := (condition_together h hx).map
      exact hcond.bind fun _ _ _ _ _ => pushStmt_together _ _ _ _

theorem sorted_ok_iff {m : Check ExprId} :
    (∃ a q, sorted m p = .ok a q) ↔ ∃ e q, m p = .ok e q := by
  constructor
  · rintro ⟨a, q, h⟩
    obtain ⟨e, q', hm, -⟩ := bind_eq_ok.mp h
    exact ⟨e, q', hm⟩
  · rintro ⟨e, q, hm⟩
    exact ⟨_, _, bind_of_ok hm _⟩

end Check

end Readback
