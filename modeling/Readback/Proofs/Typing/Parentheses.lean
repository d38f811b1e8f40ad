import Readback.Proofs.Typing.Parallel
import Readback.Proofs.Typing.Representation
import Readback.Proofs.Typing.Signature

/-! # Parentheses around operands

A typing rule sees of an operand its type, its category and, where a pointer is compared, assigned or
returned, whether it is a null pointer. Parentheses keep the first two. They keep the third unless
they stand around an implicit cast: the test for null pointers looks through implicit casts first and
through parentheses after that, so it stops at a cast inside parentheses.

* `Site` is an operation with the place of one operand left open: either side of a binary
  operator, the operand of a unary one or of a cast, what is called, an argument, a returned value, or a
  condition or increment. `Site.made` puts an operand in, and `Site.result` is what comes of it: the type
  and category of what is made, or the fault.
* Two operands of the same type and category give the same result, if they are null pointers alike where
  a null pointer is needed (`Site.made_together`). `Site.NeedsNull` says where that is: the other side is
  a pointer, to compare with, to store in or to return, and the operand is none by its type. There just
  null pointers are taken (`Site.made_ok_iff`).
* An expression in parentheses is a null pointer if the expression is one and no implicit cast
  (`isNullPointer_eq`), so `Site.Loses` names the operands that are taken without parentheses only.

The main result is `Program.Constructed.paren_transparent`. Over every target, in a constructed program
every operation takes an operand in parentheses as it takes the operand itself, with the same type,
category or fault, unless the operand is an implicitly cast zero that is needed as a null pointer; and
then it is refused. `Constructed.paren_transparent_null` shows one operand on each side of that line. -/

namespace Readback

open Step

namespace Program

variable {p q r : Program}

/-! ### Pointers among the operands -/

/-- Values of the type are pointers, perhaps after decay. -/
def DecaysToPointer (p : Program) (t : QualType) : Prop :=
  p.isPointer t = true ∨ p.isArray t = true ∨ p.isFunction t = true

/-- A comparison takes its left operand only if that is a null pointer: the other one is a pointer. -/
def NullLeft (p : Program) (op : BinaryOp) (lhs rhs : ExprId) : Prop :=
  (op = .eq ∨ op = .ne) ∧ p.DecaysToPointer (p.expr rhs).type ∧ ¬ p.DecaysToPointer (p.expr lhs).type

/-- A comparison or an assignment takes its right operand only if that is a null pointer: the other one
is a pointer, to which an assignment can store. -/
def NullRight (p : Program) (op : BinaryOp) (lhs rhs : ExprId) : Prop :=
  ((op = .eq ∨ op = .ne) ∧ p.DecaysToPointer (p.expr lhs).type ∨
    op = .assign ∧ p.storeFault? lhs = none ∧ p.isPointer (p.expr lhs).type = true) ∧
  ¬ p.DecaysToPointer (p.expr rhs).type

/-- A function returns a value only if that is a null pointer: it returns pointers. -/
def NullReturn (p : Program) (function : DeclId) (value : ExprId) : Prop :=
  (∃ type params body locals result types isVariadic,
    (p.decl function).kind = .function type params body locals ∧
    p.functionParts? type = some (result, types, isVariadic) ∧ p.isPointer result = true) ∧
  ¬ p.DecaysToPointer (p.expr value).type

instance (p : Program) (t : QualType) : Decidable (p.DecaysToPointer t) := by
  unfold DecaysToPointer
  infer_instance

theorem Parallel.decaysToPointer (h : p.Parallel r) : r.DecaysToPointer = p.DecaysToPointer := by
  funext t
  rw [DecaysToPointer, DecaysToPointer, h.isPointer, h.isArray, h.isFunction]

theorem decaysToPointer_of_within (h : p.types.Within q.types) {t : QualType} (ht : p.HasType t) :
    q.DecaysToPointer t ↔ p.DecaysToPointer t := by
  have hnode := node_of_within h ht
  rw [DecaysToPointer, DecaysToPointer, isPointer_congr hnode, isArray_congr hnode,
    isFunction_congr hnode]

/-- After decay, just the values of those types are pointers. -/
theorem decay_outcome {t : QualType} (ht : p.HasType t) :
    Outcome (Check.decay t) p (fun l q => p.TypesOnly q ∧ p.types.Within q.types ∧ q.HasType l ∧
      (q.isPointer l = true ↔ p.DecaysToPointer t)) fun _ _ => False := by
  have interned (x : QualType) (hd : p.DecaysToPointer t) :
      Outcome (Check.pointerTo x) p (fun l q => p.TypesOnly q ∧ p.types.Within q.types ∧
        q.HasType l ∧ (q.isPointer l = true ↔ p.DecaysToPointer t)) fun _ _ => False := by
    have hpointer : (p.internNode (.pointer x)).2.isPointer (p.internNode (.pointer x)).1 = true := by
      rw [isPointer, node_internNode_self]
    exact ⟨rfl, p.types.within_intern _, Interned.intern_lt _ _, iff_of_true hpointer hd⟩
  refine .get_bind ?_
  split
  · next hn => exact interned _ (.inr (.inl (by rw [isArray, hn])))
  · next hn => exact interned _ (.inr (.inr (by rw [isFunction, hn])))
  · next harray hfunction =>
      refine ⟨rfl, .refl _, ht, ?_⟩
      unfold DecaysToPointer isArray isFunction
      split <;> simp_all

end Program

open Program

namespace Check

variable {p q q' r : Program}

/-! ### Operands that may be null pointers -/

section Operands

variable {e lhs rhs x y : ExprId}

/-- Only a pointer takes a value that is no pointer for being null. -/
theorem assignable_agree (h : p.Parallel r) (typed : p.WellTyped) {target : QualType}
    (htarget : p.HasType target) (he : e < p.exprs.size) (hx : p.Seems e r x)
    (hnull : p.isPointer target = true → ¬ p.DecaysToPointer (p.expr e).type →
      r.isNullPointer x = p.isNullPointer e) :
    Agree p r (assignable target e) (assignable target x) p r := by
  refine .get_bind ?_
  rw [hx.type]
  refine ((decay_agree h.retyped _).and_outcome (decay_outcome (typed.exprs e he))).bind ?_
  rintro _ source s s' ⟨⟨rfl, hs⟩, -, hwithin, -, hpointer⟩
  refine .get_bind ?_
  have htarget' := isPointer_congr (node_of_within hwithin htarget)
  have hstorable : s'.isStorable target source x = s.isStorable target source e := by
    simp only [isStorable, hs.parallel.isArithmetic, hs.parallel.isPointer, hs.parallel.isRecord,
      hs.parallel.builtin?, hs.left.isNullPointer, hs.right.isNullPointer]
    grind
  rw [hstorable, hs.parallel.typeText]
  exact .ite .rfl (fun _ => .throw rfl) fun _ => .pure ⟨rfl, hs⟩

theorem operatorType?_agree (h : p.Retyped r q q') (op : BinaryOp) {lt rt : QualType}
    (hy : p.Seems rhs r y)
    (hleft : op = .eq ∨ op = .ne → q.isPointer rt = true → ¬ q.isPointer lt = true →
      r.isNullPointer x = p.isNullPointer lhs)
    (hright : op = .eq ∨ op = .ne → q.isPointer lt = true → ¬ q.isPointer rt = true →
      r.isNullPointer y = p.isNullPointer rhs) :
    Agree p r (operatorType? op lt rt lhs rhs) (operatorType? op lt rt x y) q q' := by
  have converted : Agree p r (some <$> usualConversions lt rt) (some <$> usualConversions lt rt) q q' :=
    .map ((usualConversions_agree h lt rt).imp fun _ _ _ _ ha => ⟨congrArg some ha.1, ha.2⟩)
  have promoted : Agree p r (some <$> promote lt) (some <$> promote lt) q q' :=
    .map ((promote_agree h lt).imp fun _ _ _ _ ha => ⟨congrArg some ha.1, ha.2⟩)
  have built (kind : Builtin) : Agree p r (some <$> builtin kind) (some <$> builtin kind) q q' :=
    .map ((internNode_agree h _).imp fun _ _ _ _ ha => ⟨congrArg some ha.1, ha.2⟩)
  have same (t : Option QualType) : Agree p r (pure t) (pure t) q q' := .pure ⟨rfl, h⟩
  refine .get_bind ?_
  dsimp only
  rw [h.parallel.isArithmetic, h.parallel.isInteger, h.parallel.isPointer, h.parallel.isScalar,
    h.parallel.target, h.left.isNullPointer, h.right.isNullPointer, h.left.expr, h.right.expr, hy.type]
  cases op with
  | mul | div | rem | bitAnd | bitXor | bitOr => exact .ite .rfl (fun _ => converted) fun _ => same _
  | shl | shr => exact .ite .rfl (fun _ => promoted) fun _ => same _
  | add =>
      exact .ite .rfl (fun _ => converted) fun _ => .ite .rfl (fun _ => same _) fun _ =>
        .ite .rfl (fun _ => same _) fun _ => same _
  | sub =>
      exact .ite .rfl (fun _ => converted) fun _ => .ite .rfl (fun _ => same _) fun _ =>
        .ite .rfl (fun _ => built _) fun _ => same _
  | lt | gt | le | ge | logicalAnd | logicalOr =>
      exact .ite .rfl (fun _ => built _) fun _ => same _
  | eq =>
      refine .ite ?_ (fun _ => built _) fun _ => same _
      have hleft := hleft (.inl rfl)
      have hright := hright (.inl rfl)
      grind
  | ne =>
      refine .ite ?_ (fun _ => built _) fun _ => same _
      have hleft := hleft (.inr rfl)
      have hright := hright (.inr rfl)
      grind
  | _ => exact same _

/-- The operands of a comparison or of arithmetic. Only a pointer is compared with a value that is no
pointer for being null. -/
theorem operatorType_agree (h : p.Parallel r) (typed : p.WellTyped) (op : BinaryOp)
    (hlhs : lhs < p.exprs.size) (hrhs : rhs < p.exprs.size) (hx : p.Seems lhs r x)
    (hy : p.Seems rhs r y)
    (hleft : p.NullLeft op lhs rhs → r.isNullPointer x = p.isNullPointer lhs)
    (hright : p.NullRight op lhs rhs → r.isNullPointer y = p.isNullPointer rhs) :
    Agree p r (operatorType op lhs rhs) (operatorType op x y) p r := by
  refine .get_bind ?_
  dsimp only
  rw [hx.type, hy.type]
  refine ((decay_agree h.retyped _).and_outcome (decay_outcome (typed.exprs lhs hlhs))).bind ?_
  rintro _ lt q q' ⟨⟨rfl, hq⟩, -, hwithin, hlt, hl⟩
  have hrt : q.HasType (p.expr rhs).type := Nat.lt_of_lt_of_le (typed.exprs rhs hrhs) hwithin.size_le
  refine ((decay_agree hq _).and_outcome (decay_outcome hrt)).bind ?_
  rintro _ rt s s' ⟨⟨rfl, hs⟩, -, hwithin', -, hr⟩
  -- The types of the operands are as they were before the decay of the other one.
  have hl' : s.isPointer lt = true ↔ p.DecaysToPointer (p.expr lhs).type := by
    rw [isPointer_congr (node_of_within hwithin' hlt), hl]
  have hr' : s.isPointer rt = true ↔ p.DecaysToPointer (p.expr rhs).type := by
    rw [hr, decaysToPointer_of_within hwithin (typed.exprs rhs hrhs)]
  refine (operatorType?_agree hs op hy (fun hop hp hn => hleft ⟨hop, hr'.mp hp, mt hl'.mpr hn⟩)
    fun hop hp hn => hright ⟨.inl ⟨hop, hl'.mp hp⟩, mt hr'.mpr hn⟩).bind ?_
  rintro _ a t t' ⟨rfl, ht⟩
  split
  · exact .pure ⟨rfl, ht⟩
  · refine .get_bind ?_
    rw [ht.parallel.typeText]
    exact .throw rfl

theorem binaryType_agree (h : p.Parallel r) (typed : p.WellTyped) (op : BinaryOp)
    (hlhs : lhs < p.exprs.size) (hrhs : rhs < p.exprs.size) (hx : p.Seems lhs r x)
    (hy : p.Seems rhs r y)
    (hleft : p.NullLeft op lhs rhs → r.isNullPointer x = p.isNullPointer lhs)
    (hright : p.NullRight op lhs rhs → r.isNullPointer y = p.isNullPointer rhs) :
    Agree p r (binaryType op lhs rhs) (binaryType op x y) p r := by
  refine .get_bind ?_
  dsimp only
  rw [hx.type]
  refine .ite .rfl (fun hop => ?_) fun _ => ?_
  · refine (storable_agree h hx).bind ?_
    rintro _ _ _ _ ⟨hstore, rfl, rfl⟩
    have htarget : p.HasType (p.expr lhs).type.unqualified := typed.exprs lhs hlhs
    refine (assignable_agree h typed htarget hrhs hy fun hp hn =>
      hright ⟨.inr ⟨hop, hstore, hp⟩, hn⟩).bind ?_
    rintro _ _ s s' ⟨-, hs⟩
    exact .pure ⟨rfl, hs⟩
  · split
    · next base hbase =>
        have hne : ¬ (base = .eq ∨ base = .ne) := by
          cases op <;> cases hbase <;> decide
        have hne' : base ≠ .assign := by
          cases op <;> cases hbase <;> decide
        refine (storable_agree h hx).bind ?_
        rintro _ _ _ _ ⟨-, rfl, rfl⟩
        refine (operatorType_agree h typed base hlhs hrhs hx hy (fun hn => absurd hn.1 hne)
          fun hn => ?_).bind ?_
        · exact hn.1.elim (fun h => absurd h.1 hne) fun h => absurd h.1 hne'
        · rintro _ a s s' ⟨rfl, hs⟩
          exact .pure ⟨rfl, hs⟩
    · exact operatorType_agree h typed op hlhs hrhs hx hy hleft hright

end Operands

/-- A value is returned as a pointer only if it is one or null. -/
theorem returns_together (h : p.Parallel r) (typed : p.WellTyped) (function : DeclId) {e x : ExprId}
    (he : e < p.exprs.size) (hx : p.Seems e r x)
    (hnull : p.NullReturn function e → r.isNullPointer x = p.isNullPointer e) :
    Together (returns function (some e)) (returns function (some x)) p r (fun _ _ _ _ => True)
      Eq := by
  refine .get_bind ?_
  dsimp only
  rw [h.decl, h.functionParts?]
  split
  · next type params body locals hkind =>
      split
      · next result types isVariadic hparts =>
          have hresult : p.HasType result :=
            typed.result (Interned.lt_of_get? (get?_of_functionParts? hparts)) hparts
          refine Together.bind (P := fun _ _ _ _ => True) ?_ fun _ _ _ _ _ => pushStmt_together _ _ _ _
          refine .get_bind ?_
          dsimp only
          rw [h.isVoid, hx.type]
          refine .ite .rfl (fun _ => ?_) fun _ => ?_
          · exact .ite .rfl (fun _ => .throw rfl) fun _ => .pure trivial
          · refine (assignable_agree h typed (show p.HasType result.unqualified from hresult) he hx
              fun hp hn => hnull ⟨⟨type, params, body, locals, result, types, isVariadic, hkind, hparts,
                hp⟩, hn⟩).imp fun _ _ _ _ _ => trivial
      · exact .throw rfl
  · exact .throw rfl

/-! ### Where a null pointer is needed -/

theorem isArithmetic_of_isPointer {t : QualType} (h : p.isPointer t = true) :
    p.isArithmetic t = false := by
  unfold isPointer at h
  unfold isArithmetic builtin?
  split at h
  · next hn => rw [hn]; rfl
  · cases h

/-- A comparison for equality takes what the rules name. -/
theorem operatorType_ok_iff {op : BinaryOp} (hop : op = .eq ∨ op = .ne) {lhs rhs : ExprId}
    {l r : QualType} {q s : Program} (hl : decay (p.expr lhs).type p = .ok l q)
    (hr : decay (p.expr rhs).type q = .ok r s) :
    (∃ t s', operatorType op lhs rhs p = .ok t s') ↔
      (s.isArithmetic l && s.isArithmetic r || s.isPointer l && s.isPointer r ||
        (s.isPointer l && s.isNullPointer rhs) || (s.isPointer r && s.isNullPointer lhs)) = true := by
  have hrun {a : Option QualType} {s' : Program} (h : operatorType? op l r lhs rhs s = .ok a s') :
      (∃ t s', operatorType op lhs rhs p = .ok t s') ↔ a.isSome = true := by
    unfold operatorType
    rw [get_bind, bind_of_ok hl, bind_of_ok hr, bind_of_ok h]
    cases a with
    | some t => exact iff_of_true ⟨t, s', rfl⟩ rfl
    | none =>
        refine iff_of_false ?_ Bool.false_ne_true
        rintro ⟨t, s', hs'⟩
        cases hs'
  have htype : operatorType? op l r lhs rhs s =
      (if s.isArithmetic l && s.isArithmetic r || s.isPointer l && s.isPointer r ||
        (s.isPointer l && s.isNullPointer rhs) || (s.isPointer r && s.isNullPointer lhs)
      then some <$> builtin .int else return none : Check (Option QualType)) s := by
    rcases hop with rfl | rfl <;> rfl
  split at htype
  · next h => exact (hrun htype).trans (iff_of_true rfl h)
  · next h => exact (hrun htype).trans (iff_of_false Bool.false_ne_true h)

/-- A pointer and a value that is no pointer are compared if the value is a null pointer. -/
theorem operatorType_null (typed : p.WellTyped) {op : BinaryOp} {lhs rhs : ExprId}
    (hop : op = .eq ∨ op = .ne) (hlhs : lhs < p.exprs.size) (hrhs : rhs < p.exprs.size) :
    (p.DecaysToPointer (p.expr rhs).type → ¬ p.DecaysToPointer (p.expr lhs).type →
      ((∃ t q, operatorType op lhs rhs p = .ok t q) ↔ p.isNullPointer lhs = true)) ∧
    (p.DecaysToPointer (p.expr lhs).type → ¬ p.DecaysToPointer (p.expr rhs).type →
      ((∃ t q, operatorType op lhs rhs p = .ok t q) ↔ p.isNullPointer rhs = true)) := by
  obtain ⟨l, q, hdecay, honly, hwithin, hlt, hl⟩ := (decay_outcome (typed.exprs lhs hlhs)).ok
  have hrt : q.HasType (p.expr rhs).type := Nat.lt_of_lt_of_le (typed.exprs rhs hrhs) hwithin.size_le
  obtain ⟨r, s, hdecay', honly', hwithin', -, hr⟩ := (decay_outcome hrt).ok
  have hl' : s.isPointer l = true ↔ p.DecaysToPointer (p.expr lhs).type := by
    rw [isPointer_congr (node_of_within hwithin' hlt), hl]
  have hr' : s.isPointer r = true ↔ p.DecaysToPointer (p.expr rhs).type := by
    rw [hr, decaysToPointer_of_within hwithin (typed.exprs rhs hrhs)]
  rw [operatorType_ok_iff hop hdecay hdecay', honly'.isNullPointer, honly.isNullPointer, ← hl', ← hr']
  refine ⟨fun hp hn => ?_, fun hp hn => ?_⟩
  · rw [isArithmetic_of_isPointer hp, hp, Bool.eq_false_iff.mpr hn]
    simp
  · rw [isArithmetic_of_isPointer hp, hp, Bool.eq_false_iff.mpr hn]
    simp

/-- To a pointer is assigned a value that is no pointer if it is a null pointer. -/
theorem assignable_null (typed : p.WellTyped) {target : QualType} (htarget : p.HasType target)
    (hpointer : p.isPointer target = true) {e : ExprId} (he : e < p.exprs.size)
    (hn : ¬ p.DecaysToPointer (p.expr e).type) :
    (∃ q, assignable target e p = .ok () q) ↔ p.isNullPointer e = true := by
  obtain ⟨source, q, hdecay, honly, hwithin, -, hsource⟩ :=
    (decay_outcome (typed.exprs e he)).ok
  have hpointer' : q.isPointer target = true :=
    (isPointer_congr (node_of_within hwithin htarget)).trans hpointer
  have hstorable : q.isStorable target source e = p.isNullPointer e := by
    have hsource' : q.isPointer source = false := by simpa using mt hsource.mp hn
    rw [isStorable, isArithmetic_of_isPointer hpointer', hpointer', hsource', honly.isNullPointer]
    simp
  have hrun : assignable target e p = (if !p.isNullPointer e then
      throw (.incompatible (q.typeText target) (q.typeText source)) else pure () : Check Unit) q := by
    rw [← hstorable]
    unfold assignable
    rw [get_bind, bind_of_ok hdecay]
    rfl
  rw [hrun]
  cases p.isNullPointer e with
  | true => exact iff_of_true ⟨q, rfl⟩ rfl
  | false => exact iff_of_false (by rintro ⟨q, h⟩; cases h) Bool.false_ne_true

/-- A value is returned as a pointer if it can be stored in one. -/
theorem returns_ok_iff {function : DeclId} {type result : QualType} {params locals : List DeclId}
    {body : Option StmtId} {types : List QualType} {isVariadic : Bool}
    (hkind : (p.decl function).kind = .function type params body locals)
    (hparts : p.functionParts? type = some (result, types, isVariadic))
    (hpointer : p.isPointer result = true) {e : ExprId} :
    (∃ a q, unsorted (returns function (some e)) p = .ok a q) ↔
      ∃ q, assignable result.unqualified e p = .ok () q := by
  have hvoid : p.isVoid result = false := by
    unfold isPointer at hpointer
    unfold isVoid builtin?
    split at hpointer
    · next hn => rw [hn]; rfl
    · cases hpointer
  have hreturnable (name : String) : returnable name result (some e) p =
      assignable result.unqualified e p := by
    show (if p.isVoid result = true then _ else _ : Check Unit) p = _
    rw [hvoid]
    rfl
  have hreturns : returns function (some e) p = (returnable (p.decl function).name result (some e) >>=
      fun _ => pushStmt (.returns (some e)) : Check StmtId) p := by
    unfold returns
    simp only [get_bind, hkind, hparts]
  constructor
  · rintro ⟨a, q, h⟩
    obtain ⟨s, q', hs, -⟩ := bind_eq_ok.mp h
    rw [hreturns] at hs
    obtain ⟨_, q'', hq, -⟩ := bind_eq_ok.mp hs
    exact ⟨q'', (hreturnable _).symm.trans hq⟩
  · rintro ⟨q, h⟩
    have hs : returns function (some e) p = pushStmt (.returns (some e)) q := by
      rw [hreturns, bind_of_ok ((hreturnable _).trans h)]
    exact ⟨none, _, bind_of_ok hs _⟩

end Check

/-! ### Operations with an operand left open -/

/-- An operation with the place of one operand left open. -/
inductive Site where
  | unary (op : UnaryOp)
  | left (op : BinaryOp) (rhs : ExprId)
  | right (op : BinaryOp) (lhs : ExprId)
  | cast (style : CastStyle) (conversion : Conversion) (type : QualType) (category : ValueCategory)
  | callee (args : List ExprId)
  | argument (callee : ExprId) (front back : List ExprId)
  | returned (function : DeclId)
  | ifCond (yes : StmtId) (no : Option StmtId)
  | whileCond (body : StmtId)
  | doCond (body : StmtId)
  | forCond (init : Option StmtId) (inc : Option ExprId) (body : StmtId)
  | forStep (init : Option StmtId) (cond : Option ExprId) (body : StmtId)

namespace Site

open Check

/-- Puts the operand in. The result is the type and category of the expression that is made, if it is
an expression. -/
def made (e : ExprId) : Site → Check (Option (QualType × ValueCategory))
  | .unary op => sorted (Check.unary op e)
  | .left op rhs => sorted (binary op e rhs)
  | .right op lhs => sorted (binary op lhs e)
  | .cast style conversion type category => sorted (Check.cast style conversion type e category)
  | .callee args => sorted (call e args)
  | .argument f front back => sorted (call f (front ++ e :: back))
  | .returned function => unsorted (returns function (some e))
  | .ifCond yes no => unsorted (ifElse e yes no)
  | .whileCond body => unsorted (whileLoop e body)
  | .doCond body => unsorted (doLoop body e)
  | .forCond init inc body => unsorted (forLoop init (some e) inc body)
  | .forStep init cond body => unsorted (forLoop init cond (some e) body)

/-- What comes of it, apart from the program. -/
def result (u : Site) (e : ExprId) (p : Program) : Except Fault (Option (QualType × ValueCategory)) :=
  match u.made e p with
  | .ok a _ => .ok a
  | .error fault _ => .error fault

/-- The other operands. -/
def others : Site → List ExprId
  | .left _ y | .right _ y => [y]
  | .callee args => args
  | .argument f front back => f :: (front ++ back)
  | .forCond _ inc _ => inc.toList
  | .forStep _ cond _ => cond.toList
  | _ => []

/-- The operand is taken only if it is a null pointer: it is compared with a pointer, stored in one or
returned as one, but is none by its type. -/
def NeedsNull (p : Program) (e : ExprId) : Site → Prop
  | .left op rhs => p.NullLeft op e rhs
  | .right op lhs => p.NullRight op lhs e
  | .returned function => p.NullReturn function e
  | _ => False

variable {p r : Program}

theorem result_eq {u : Site} {e x : ExprId}
    (h : Together (u.made e) (u.made x) p r (fun a a' _ _ => a' = a) Eq) :
    u.result x r = u.result e p := by
  unfold result
  unfold Together at h
  cases hp : u.made e p <;> cases hr : u.made x r <;> rw [hp, hr] at h
  · exact congrArg _ h
  · exact h.elim
  · exact h.elim
  · exact congrArg _ h.symm

theorem result_ok {u : Site} {e : ExprId} (h : ∃ a q, u.made e p = .ok a q) :
    ∃ a, u.result e p = .ok a := by
  obtain ⟨a, q, h⟩ := h
  exact ⟨a, by rw [result, h]⟩

theorem result_error {u : Site} {e : ExprId} (h : ¬ ∃ a q, u.made e p = .ok a q) :
    ∃ fault, u.result e p = .error fault := by
  cases hm : u.made e p with
  | ok a q => exact absurd ⟨a, q, hm⟩ h
  | error fault q => exact ⟨fault, by rw [result, hm]⟩

/-- Operands of the same type and category do the same, if they are null pointers alike where a null
pointer is needed. -/
theorem made_together (h : p.Parallel r) (typed : p.WellTyped) {u : Site} {e x : ExprId}
    (he : e < p.exprs.size) (hx : p.Seems e r x)
    (ho : ∀ y ∈ u.others, y < p.exprs.size ∧ p.StandsFor y r y)
    (hnull : u.NeedsNull p e → r.isNullPointer x = p.isNullPointer e) :
    Together (u.made e) (u.made x) p r (fun a a' _ _ => a' = a) Eq := by
  have hseems {y : ExprId} (hy : p.StandsFor y r y) : p.Seems y r y := ⟨hy.type, hy.category⟩
  have hcond := condition_together h hx
  cases u with
  | unary op =>
      exact sorted_together (unaryType_agree h op hx) (fun a => unary_makes op e a.1 a.2)
        fun a => unary_makes op x a.1 a.2
  | left op y =>
      obtain ⟨hy, hyy⟩ := ho y (by simp [others])
      exact sorted_together (binaryType_agree h typed op he hy hx (hseems hyy) hnull fun _ => hyy.null)
        (binary_makes op e y) (binary_makes op x y)
  | right op y =>
      obtain ⟨hy, hyy⟩ := ho y (by simp [others])
      exact sorted_together
        (binaryType_agree h typed op hy he (hseems hyy) hx (fun _ => hyy.null) hnull)
        (binary_makes op y e) (binary_makes op y x)
  | cast style conversion type category => exact cast_together h style conversion type category e x
  | callee args => exact call_together h hx rfl
  | argument f front back =>
      exact call_together h (hseems (ho f (by simp [others])).2) (by simp)
  | returned function => exact unsorted_together (returns_together h typed function he hx hnull)
  | ifCond _ _ => exact unsorted_together (hcond.bind fun _ _ _ _ _ => pushStmt_together _ _ _ _)
  | whileCond _ => exact unsorted_together (hcond.bind fun _ _ _ _ _ => pushStmt_together _ _ _ _)
  | doCond _ => exact unsorted_together (hcond.bind fun _ _ _ _ _ => pushStmt_together _ _ _ _)
  | forCond init inc body => exact unsorted_together (forLoop_together h init (.some hx) inc inc body)
  | forStep init cond body =>
      refine unsorted_together (forLoop_together h init ?_ (some e) (some x) body)
      cases cond with
      | none => exact .none
      | some y => exact .some (hseems (ho y (by simp [others])).2)

/-- What is needed of an operand is needed of one of the same type and category. -/
theorem NeedsNull.parallel (h : p.Parallel r) {u : Site} {e x : ExprId} (hx : p.Seems e r x)
    (ho : ∀ y ∈ u.others, p.StandsFor y r y) (hneeds : u.NeedsNull p e) : u.NeedsNull r x := by
  cases u with
  | left op y =>
      have hy := ho y (by simp [others])
      show r.NullLeft op x y
      rw [NullLeft, h.decaysToPointer, hx.type, hy.type]
      exact hneeds
  | right op y =>
      have hy := ho y (by simp [others])
      show r.NullRight op y x
      rw [NullRight, h.decaysToPointer, h.storeFault? ⟨hy.type, hy.category⟩, h.isPointer, hx.type,
        hy.type]
      exact hneeds
  | returned function =>
      show r.NullReturn function x
      rw [NullReturn, h.decaysToPointer, h.decl, h.functionParts?, h.isPointer, hx.type]
      exact hneeds
  | _ => exact hneeds.elim

/-- Where a null pointer is needed, just null pointers are taken. -/
theorem made_ok_iff (typed : p.WellTyped) {u : Site} {e : ExprId} (he : e < p.exprs.size)
    (ho : ∀ y ∈ u.others, y < p.exprs.size) (hneeds : u.NeedsNull p e) :
    (∃ a q, u.made e p = .ok a q) ↔ p.isNullPointer e = true := by
  cases u with
  | left op y =>
      have hy := ho y (by simp [others])
      obtain ⟨hop, hp, hn⟩ := hneeds
      have htype : binaryType op e y p = operatorType op e y p := by
        rcases hop with rfl | rfl <;> rfl
      rw [made, sorted_ok_iff, binary_ok_iff, htype]
      exact (operatorType_null typed hop he hy).1 hp hn
  | right op y =>
      have hy := ho y (by simp [others])
      rw [made, sorted_ok_iff]
      obtain ⟨⟨hop, hp⟩ | ⟨rfl, hstore, hp⟩, hn⟩ := hneeds
      · have htype : binaryType op y e p = operatorType op y e p := by
          rcases hop with rfl | rfl <;> rfl
        rw [binary_ok_iff, htype]
        exact (operatorType_null typed hop hy he).2 hp hn
      · have htarget : p.HasType (p.expr y).type.unqualified := typed.exprs y hy
        rw [assign_ok_iff, ← assignable_null typed htarget hp he hn]
        exact and_iff_right hstore
  | returned function =>
      obtain ⟨⟨type, params, body, locals, result, types, isVariadic, hkind, hparts, hp⟩, hn⟩ := hneeds
      have hresult : p.HasType result :=
        typed.result (Interned.lt_of_get? (get?_of_functionParts? hparts)) hparts
      have hresult : p.HasType result.unqualified := hresult
      rw [← assignable_null typed hresult hp he hn]
      exact returns_ok_iff hkind hparts hp
  | _ => exact hneeds.elim

/-- In parentheses the operand is no longer taken: a null pointer is needed, and the parentheses hide
that it is one behind an implicit cast. -/
def Loses (p : Program) (e : ExprId) (u : Site) : Prop :=
  u.NeedsNull p e ∧ p.isNullPointer e = true ∧
    ∃ conversion operand, (p.expr e).kind = .cast .implicit conversion operand

end Site

namespace Program

variable {p r : Program}

/-- An expression in parentheses is one more expression, of the same type and category. -/
structure Encloses (p : Program) (e : ExprId) (r : Program) : Prop where
  made : Check.paren e p = .ok p.exprs.size r
  constructed : r.Constructed
  retains : p.Retains r
  parallel : p.Parallel r
  size : r.exprs.size = p.exprs.size + 1
  kind : (r.expr p.exprs.size).kind = .paren e
  seems : p.Seems e r p.exprs.size

theorem Constructed.encloses (h : p.Constructed) {e : ExprId} (he : e < p.exprs.size) :
    p.Encloses e (p.pushExpr (.paren e) (p.expr e).type (p.expr e).category).2 := by
  have known : (Construction.paren e).Known p := by
    simp [Construction.Known, Construction.types, Construction.decls, Construction.stmts,
      Construction.exprs, he]
  refine ⟨rfl, h.step (.paren e) known, h.represented.2.2 (.paren e) known, ⟨rfl, rfl, rfl⟩,
    Array.size_push _, ?_, ?_, ?_⟩
  · rw [expr_pushExpr_self]
  · rw [expr_pushExpr_self]
  · rw [expr_pushExpr_self]

namespace Encloses

variable {e : ExprId} (h : p.Encloses e r)

include h

/-- The parentheses are a null pointer if the expression is one and no implicit cast. -/
theorem isNullPointer_eq (ordered : p.Ordered) (he : e < p.exprs.size)
    (hcast : ∀ c operand, (p.expr e).kind ≠ .cast .implicit c operand) :
    r.isNullPointer p.exprs.size = p.isNullPointer e := by
  rw [← h.retains.exprsGrow.2 e he] at hcast
  rw [h.constructed.represented.1.ordered.isNullPointer_paren_self h.kind hcast]
  exact (h.retains.standsFor ordered he).null

theorem isNullPointer_cast (he : e < p.exprs.size) {c : Conversion} {operand : ExprId}
    (hcast : (p.expr e).kind = .cast .implicit c operand) :
    r.isNullPointer p.exprs.size = false := by
  rw [← h.retains.exprsGrow.2 e he] at hcast
  exact h.constructed.represented.1.ordered.isNullPointer_paren_cast h.kind hcast

end Encloses

/-- **Parentheses around operands.** Over every target, in a constructed program every operation takes
an operand in parentheses as it takes the operand itself, with the same type and category of what it
makes and with the same fault where it fails. The exceptions are the null pointers that are
implicitly cast, where only a null pointer is taken: they are taken bare, but not in parentheses. -/
theorem Constructed.paren_transparent (h : p.Constructed) (u : Site) {e : ExprId}
    (he : e < p.exprs.size) (ho : ∀ y ∈ u.others, y < p.exprs.size) :
    ∃ r, Check.paren e p = .ok p.exprs.size r ∧
      (¬ u.Loses p e → u.result p.exprs.size r = u.result e p) ∧
      (u.Loses p e → (∃ a, u.result e p = .ok a) ∧
        ∃ fault, u.result p.exprs.size r = .error fault) := by
  have ordered := h.represented.1.ordered
  have hr := h.encloses he
  have hothers (y : ExprId) (hy : y ∈ u.others) := hr.retains.standsFor ordered (ho y hy)
  refine ⟨_, hr.made, fun hloses => ?_, ?_⟩
  · refine Site.result_eq (Site.made_together hr.parallel h.wellTyped he hr.seems
      (fun y hy => ⟨ho y hy, hothers y hy⟩) fun hneeds => ?_)
    by_cases hcast : ∃ c operand, (p.expr e).kind = .cast .implicit c operand
    · have hnull : p.isNullPointer e = false :=
        Bool.eq_false_iff.mpr fun hnull => hloses ⟨hneeds, hnull, hcast⟩
      obtain ⟨c, operand, hcast⟩ := hcast
      rw [hr.isNullPointer_cast he hcast, hnull]
    · exact hr.isNullPointer_eq ordered he fun c operand hk => hcast ⟨c, operand, hk⟩
  · rintro ⟨hneeds, hnull, c, operand, hcast⟩
    have hbare := (Site.made_ok_iff h.wellTyped he ho hneeds).mpr hnull
    have henclosed := Site.made_ok_iff hr.constructed.wellTyped (hr.size ▸ Nat.lt_succ_self _)
      (fun y hy => hr.size ▸ Nat.lt_succ_of_lt (ho y hy)) (hneeds.parallel hr.parallel hr.seems hothers)
    rw [hr.isNullPointer_cast he hcast] at henclosed
    exact ⟨Site.result_ok hbare,
      Site.result_error fun hmade => Bool.false_ne_true (henclosed.mp hmade)⟩

/-- A pointer is compared with a zero, which may stand in parentheses, and with a zero that is cast to
`long`, which may not. -/
theorem Constructed.paren_transparent_null :
    ∃ p : Program, p.Constructed ∧ p.exprs.size = 3 ∧ (p.expr 1).kind = .integer 0 ∧
      (p.expr 2).kind = .cast .implicit .integralCast 1 ∧
      (∃ r, Check.paren 1 p = .ok p.exprs.size r ∧
        (Site.right .eq 0).result p.exprs.size r = (Site.right .eq 0).result 1 p) ∧
      ∃ r, Check.paren 2 p = .ok p.exprs.size r ∧ (∃ a, (Site.right .eq 0).result 2 p = .ok a) ∧
        ∃ fault, (Site.right .eq 0).result p.exprs.size r = .error fault := by
  have h₀ := Constructed.empty ⟨"x86_64-unknown-linux-gnu", false, 16, 32, 64, 64, 64⟩
  have h₁ := h₀.step (.builtin .int) (by decide +kernel)
  have h₂ := h₁.step (.pointerTo (.plain 0)) (by decide +kernel)
  have h₃ := h₂.step (.varDecl .file "p" (.plain 1) .unspecified) (by decide +kernel)
  have h₄ := h₃.step (.declRef 0) (by decide +kernel)
  have h₅ := h₄.step (.integer 0 (.plain 0)) (by decide +kernel)
  have h₆ := h₅.step (.builtin .long) (by decide +kernel)
  have h := h₆.step (.cast .implicit .integralCast (.plain 2) 1 .rvalue) (by decide +kernel)
  refine ⟨_, h, by decide +kernel, by decide +kernel, by decide +kernel, ?_, ?_⟩
  · obtain ⟨r, hr, hsame, -⟩ := h.paren_transparent (.right .eq 0) (e := 1) (by decide +kernel)
      (by decide +kernel)
    refine ⟨r, hr, hsame ?_⟩
    rintro ⟨-, -, c, operand, hcast⟩
    cases hcast.symm.trans (show _ = ExprKind.integer 0 by decide +kernel)
  · obtain ⟨r, hr, -, hlost⟩ := h.paren_transparent (.right .eq 0) (e := 2) (by decide +kernel)
      (by decide +kernel)
    exact ⟨r, hr, hlost ⟨⟨.inl ⟨.inl rfl, by decide +kernel⟩, by decide +kernel⟩, by decide +kernel,
      .integralCast, 1, by decide +kernel⟩⟩

end Program

end Readback
