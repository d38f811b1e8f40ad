import Readback.Proofs.Typing.Accord

/-! # Construction side by side

Every step of construction runs in accord with itself: on two programs that match, with paired nodes and
alike types, it gives paired nodes and alike types, or fails on both sides.

The ids of nodes and types differ on the two sides, so no step may depend on them. What a step decides
depends on types only level by level: `Accord.types` relates types that denote the same type of C, and a
question about the outermost level has the same answer for both. It depends on expressions only on what
they are seen through parentheses and implicit casts (`Matched.skipCasts`, `Matched.skipParens`), which
is how it is found out whether an expression is a null pointer (`Matched.isNullPointer_eq`) or an lvalue
(`Matched.isLvalue_eq`).

There is one lemma `f_runs` for each step `f`, and the proofs go along the code of the step: reading the
programs (`Runs.get_bind`), deciding in the same way on both sides (`Runs.ite`, `Runs.guard`), and going
on with alike results (`Runs.bind`).

* Types and conversions: `decay_runs`, `promote_runs`, `usualConversions_runs`.
* What may be stored and asked: `assignable_runs`, `initializable_runs`, `condition_runs`.
* Expressions: `cast_runs`, `unary_runs`, `binary_runs`, `initList_runs`, `call_runs`, each from the
  lemma on the rule for its type and those on the parentheses that are put around operands.

Failures need not be the same, because their texts may name nodes by number. Statements and declarations
are steps of their own and follow in another module. -/

namespace Readback

open Step Program Check

/-! ### Questions about paired expressions -/

namespace Program

variable {ρ : Pairing} {apart : DeclId → DeclId → Prop} {p q : Program}

namespace Matched

variable (h : p.Matched ρ apart q) {e e' : ExprId}

include h

theorem skipCasts (he : ρ.expr e e') : ρ.expr (p.skipCasts e) (q.skipCasts e') := by
  induction e using Nat.strongRecOn generalizing e' with
  | ind e ih =>
      have hkind := (h.expr he).2.2.kind
      generalize hk : (p.expr e).kind = k at hkind
      generalize hk' : (q.expr e').kind = k' at hkind
      have self (hne : ∀ c x, k ≠ .cast .implicit c x) (hne' : ∀ c x, k' ≠ .cast .implicit c x) :
          ρ.expr (p.skipCasts e) (q.skipCasts e') := by
        rw [skipCasts_self (hk ▸ hne), skipCasts_self (hk' ▸ hne')]
        exact he
      cases hkind with
      | cast style c hx =>
          cases style with
          | explicit => exact self (by simp) (by simp)
          | implicit =>
              rw [h.ordered.1.skipCasts_cast hk, h.ordered.2.skipCasts_cast hk']
              exact ih _ (h.ordered.1 e _ (by simp [hk, ExprKind.parts])) hx
      | _ => exact self (by simp) (by simp)

theorem skipParens (he : ρ.expr e e') : ρ.expr (p.skipParens e) (q.skipParens e') := by
  induction e using Nat.strongRecOn generalizing e' with
  | ind e ih =>
      have hkind := (h.expr he).2.2.kind
      generalize hk : (p.expr e).kind = k at hkind
      generalize hk' : (q.expr e').kind = k' at hkind
      have self (hne : ∀ x, k ≠ .paren x) (hne' : ∀ x, k' ≠ .paren x) :
          ρ.expr (p.skipParens e) (q.skipParens e') := by
        rw [skipParens_self (hk ▸ hne), skipParens_self (hk' ▸ hne')]
        exact he
      cases hkind with
      | paren hx =>
          rw [h.ordered.1.skipParens_paren hk, h.ordered.2.skipParens_paren hk']
          exact ih _ (h.ordered.1 e _ (by simp [hk, ExprKind.parts])) hx
      | _ => exact self (by simp) (by simp)

theorem precedence_eq (he : ρ.expr e e') : q.precedence e' = p.precedence e := by
  have hkind := (h.expr (h.skipCasts he)).2.2.kind
  unfold precedence
  generalize (p.expr (p.skipCasts e)).kind = k at hkind
  generalize (q.expr (q.skipCasts e')).kind = k' at hkind
  cases hkind <;> rfl

theorem isNullPointer_eq (he : ρ.expr e e') : q.isNullPointer e' = p.isNullPointer e := by
  have hkind := (h.expr (h.skipParens (h.skipCasts he))).2.2.kind
  unfold isNullPointer
  generalize (p.expr (p.skipParens (p.skipCasts e))).kind = k at hkind
  generalize (q.expr (q.skipParens (q.skipCasts e'))).kind = k' at hkind
  cases hkind <;> rfl

theorem isLvalue_eq (he : ρ.expr e e') : (q.expr e').isLvalue = (p.expr e).isLvalue := by
  rw [Expr.isLvalue, Expr.isLvalue, (h.expr he).2.2.category]

theorem type_alike (he : ρ.expr e e') : p.types.Alike q.types (p.expr e).type (q.expr e').type :=
  (h.expr he).2.2.type

theorem storeFault?_eq (he : ρ.expr e e') : (q.storeFault? e').isSome = (p.storeFault? e).isSome := by
  have ht := h.type_alike he
  have hconst : (q.expr e').type.isConst = (p.expr e).type.isConst := by
    rw [QualType.isConst, QualType.isConst, ht.quals_eq]
  unfold storeFault?
  dsimp only
  rw [h.isLvalue_eq he, isArray_alike h.recordless.1 ht, isFunction_alike h.recordless.1 ht, hconst]
  split
  · rfl
  · split <;> rfl

/-- A value may be stored on both sides or on neither. -/
theorem isStorable_eq {t t' u u' : QualType} (ht : p.types.Alike q.types t t')
    (hu : p.types.Alike q.types u u') (he : ρ.expr e e') :
    q.isStorable t' u' e' = p.isStorable t u e := by
  have hp := h.recordless.1
  unfold isStorable
  rw [isArithmetic_alike hp ht, isArithmetic_alike hp hu, builtin?_alike hp ht, isPointer_alike hp hu,
    isPointer_alike hp ht, h.isNullPointer_eq he, (isRecord_alike hp ht).1, (isRecord_alike hp ht).2]
  rfl

end Matched

end Program

namespace Accord

variable {A : Accord} {p q : Program}

/-! ### Types -/

section Types

variable {t t' u u' : QualType}

theorem builtin_runs (k : Builtin) : A.Runs p q (Check.builtin k) (Check.builtin k) types :=
  internNode_runs (.builtin k)

theorem pointerTo_runs (ht : types p q t t') :
    A.Runs p q (pointerTo t) (pointerTo t') types := internNode_runs (.pointer ht)

theorem decay_runs (ht : types p q t t') : A.Runs p q (decay t) (decay t') types := by
  refine .get_bind fun hk => ?_
  have hlevel := ht.level hk.matched.recordless.1
  unfold Program.node
  generalize p.types.node t = n at hlevel
  generalize q.types.node t' = m at hlevel
  cases hlevel with
  | builtin => exact .pure ht
  | pointer => exact .pure ht
  | array h => exact pointerTo_runs h
  | function => exact pointerTo_runs ht

theorem promote_runs (ht : types p q t t') : A.Runs p q (promote t) (promote t') types := by
  refine .get_bind fun hk => ?_
  rw [builtin?_alike hk.matched.recordless.1 ht]
  split
  · exact .ite .rfl (fun _ => builtin_runs _) fun _ => .pure ht.unqualified
  · exact .pure ht.unqualified

theorem commonInteger_runs (ht : types p q t t') (hu : types p q u u') :
    A.Runs p q (commonInteger t u) (commonInteger t' u') types := by
  refine .get_bind fun hk => ?_
  rw [builtin?_alike hk.matched.recordless.1 ht, builtin?_alike hk.matched.recordless.1 hu,
    hk.matched.target]
  split
  · refine .ite .rfl (fun _ => .pure ht) fun _ => .ite .rfl (fun _ => .pure ?_) fun _ => ?_
    · split
      · exact ht
      · exact hu
    · exact .ite .rfl (fun _ => builtin_runs _) fun _ =>
        .ite .rfl (fun _ => builtin_runs _) fun _ => builtin_runs _
  · exact .pure ht

theorem usualConversions_runs (ht : types p q t t') (hu : types p q u u') :
    A.Runs p q (usualConversions t u) (usualConversions t' u') types := by
  refine .get_bind fun hk => ?_
  rw [builtin?_alike hk.matched.recordless.1 ht, builtin?_alike hk.matched.recordless.1 hu]
  split
  · split
    · refine .pure ?_
      split
      · exact ht.unqualified
      · exact hu.unqualified
    · exact .pure ht.unqualified
    · exact .pure hu.unqualified
    · exact .bind (promote_runs ht) fun _ _ _ _ hl ht => .bind (promote_runs (hl.types hu))
        fun _ _ _ _ hl' hu => commonInteger_runs (hl'.types ht) hu
  · exact .pure ht.unqualified

end Types

/-! ### What may be stored and asked -/

section Checks

variable {t t' : QualType} {e e' : ExprId}

theorem storable_runs (he : A.exprs p q e e') : A.Runs p q (storable e) (storable e') anything := by
  refine .get_bind fun hk => ?_
  have hfault := hk.matched.storeFault?_eq he
  cases h : p.storeFault? e <;> cases h' : q.storeFault? e' <;> rw [h, h'] at hfault
  · exact .pure trivial
  · cases hfault
  · cases hfault
  · exact .throw _ _

theorem assignable_runs (ht : types p q t t') (he : A.exprs p q e e') :
    A.Runs p q (assignable t e) (assignable t' e') anything := by
  refine .get_bind fun hk => ?_
  refine .bind (decay_runs (hk.matched.type_alike he)) fun _ _ p' q' hl hu => .get_bind fun hk => ?_
  rw [hk.matched.isStorable_eq (hl.types ht) hu (hl.pairing.expr he)]
  exact .ite .rfl (fun _ => .throw _ _) fun _ => .pure trivial

theorem initializable_runs (ht : types p q t t') (he : A.exprs p q e e') :
    A.Runs p q (initializable t e) (initializable t' e') anything := by
  refine .get_bind fun hk => ?_
  have hkind := (hk.matched.expr he).2.2.kind
  have other := assignable_runs (A := A) ht.unqualified he
  generalize (p.expr e).kind = k at hkind
  generalize (q.expr e').kind = k' at hkind
  cases hkind with
  | initList => exact .pure trivial
  | text =>
      rw [isArray_alike hk.matched.recordless.1 ht]
      exact .ite .rfl (fun _ => .pure trivial) fun _ => other
  | _ => exact other

theorem condition_runs (he : A.exprs p q e e') :
    A.Runs p q (condition e) (condition e') A.exprs := by
  refine .get_bind fun hk => .bind (decay_runs (hk.matched.type_alike he)) fun _ _ p' q' hl ht =>
    .get_bind fun hk => ?_
  rw [isScalar_alike hk.matched.recordless.1 ht]
  exact .ite .rfl (fun _ => .pure (hl.pairing.expr he)) fun _ => .throw _ _

end Checks

/-! ### Expressions -/

section Expressions

variable {t t' : QualType} {e e' l l' r r' : ExprId} {es es' : List ExprId} {d d' : DeclId}

theorem declRef_runs (hd : (A.pairing p).decl d d') :
    A.Runs p q (declRef d) (declRef d') A.exprs := by
  refine .get_bind fun hk => ?_
  have hkind := (hk.matched.decl hd).2.2.kind
  dsimp only
  generalize (p.decl d).kind = k at hkind
  generalize (q.decl d').kind = k' at hkind
  cases hkind with
  | function h => exact pushExpr_runs (.ref hd) h _
  | param h => exact pushExpr_runs (.ref hd) h _
  | var h => exact pushExpr_runs (.ref hd) h _
  | record => exact .throw _ _
  | field => exact .throw _ _

theorem paren_runs (he : A.exprs p q e e') : A.Runs p q (paren e) (paren e') A.exprs := by
  refine .get_bind fun hk => ?_
  dsimp only
  rw [← (hk.matched.expr he).2.2.category]
  exact pushExpr_runs (.paren he) (hk.matched.type_alike he) _

theorem parenBelow_runs (he : A.exprs p q e e') (least : Precedence) :
    A.Runs p q (parenBelow e least) (parenBelow e' least) A.exprs := by
  refine .get_bind fun hk => ?_
  rw [hk.matched.precedence_eq he]
  exact .ite .rfl (fun _ => paren_runs he) fun _ => .pure he

theorem parenUpTo_runs (he : A.exprs p q e e') (most : Precedence) :
    A.Runs p q (parenUpTo e most) (parenUpTo e' most) A.exprs := by
  refine .get_bind fun hk => ?_
  rw [hk.matched.precedence_eq he]
  exact .ite .rfl (fun _ => paren_runs he) fun _ => .pure he

theorem listed_runs (hes : List.Forall₂ (A.exprs p q) es es') :
    A.Runs p q (listed es) (listed es') fun p q => List.Forall₂ (A.exprs p q) :=
  .mapM hes (fun hl he => hl.pairing.expr he) fun _ _ _ _ he hl =>
    parenUpTo_runs (hl.pairing.expr he) _

theorem integer_runs (i : Int) (ht : types p q t t') :
    A.Runs p q (integer i t) (integer i t') A.exprs := by
  refine .get_bind fun hk => ?_
  dsimp only
  rw [builtin?_alike hk.matched.recordless.1 ht, hk.matched.target]
  split
  · exact .throw _ _
  · exact pushExpr_runs (.integer _) ht _

theorem floating_runs (x : Binary64) (ht : types p q t t') :
    A.Runs p q (floating x t) (floating x t') A.exprs := by
  refine .get_bind fun hk => ?_
  rw [builtin?_alike hk.matched.recordless.1 ht]
  split
  · exact .throw _ _
  · exact pushExpr_runs (.floating _) ht _

theorem text_runs (s : String) : A.Runs p q (text s) (text s) A.exprs :=
  .bind (builtin_runs _) fun _ _ _ _ _ ht => .bind (internNode_runs (.array ht _))
    fun _ _ _ _ _ ht => pushExpr_runs (.text s) ht _

theorem cast_runs (style : CastStyle) (c : Conversion) (category : ValueCategory)
    (ht : types p q t t') (he : A.exprs p q e e') :
    A.Runs p q (cast style c t e category) (cast style c t' e' category) A.exprs := by
  cases style with
  | implicit => exact pushExpr_runs (.cast _ c he) ht _
  | explicit =>
      refine .get_bind fun hk => ?_
      rw [isVoid_alike hk.matched.recordless.1 ht, isScalar_alike hk.matched.recordless.1 ht]
      exact .guard .rfl fun _ => .bind (parenBelow_runs he _) fun _ _ _ _ hl he =>
        pushExpr_runs (.cast _ c he) (hl.types ht) _

theorem unaryType_runs (op : UnaryOp) (he : A.exprs p q e e') :
    A.Runs p q (unaryType op e) (unaryType op e')
      fun p q x x' => types p q x.1 x'.1 ∧ x.2 = x'.2 := by
  refine .get_bind fun hk => ?_
  have ht := hk.matched.type_alike he
  have hp := hk.matched.recordless.1
  have step (c : ValueCategory) : A.Runs p q
      (do
        storable e
        if !p.isScalar (p.expr e).type then throw (operandFault p op (p.expr e).type)
        return ((p.expr e).type.unqualified, c))
      (do
        storable e'
        if !q.isScalar (q.expr e').type then throw (operandFault q op (q.expr e').type)
        return ((q.expr e').type.unqualified, c))
      fun p q x x' => types p q x.1 x'.1 ∧ x.2 = x'.2 := by
    refine .bind (storable_runs he) fun _ _ _ _ hl _ => ?_
    rw [isScalar_alike hp ht]
    exact .guard .rfl fun _ => .pure ⟨(hl.types ht).unqualified, rfl⟩
  dsimp only
  cases op with
  | postInc | postDec | preInc | preDec => exact step _
  | addressOf =>
      rw [hk.matched.isLvalue_eq he, isFunction_alike hp ht]
      exact .guard .rfl fun _ => .bind (pointerTo_runs ht) fun _ _ _ _ _ ht => .pure ⟨ht, rfl⟩
  | deref =>
      refine .bind (decay_runs ht) fun u u' p' q' _ hu => .get_bind fun hk => ?_
      have hpointee := pointee?_alike hk.matched.recordless.1 hu
      generalize p'.pointee? u = x at hpointee
      generalize q'.pointee? u' = x' at hpointee
      cases hpointee with
      | none => exact .throw _ _
      | some h => exact .pure ⟨h, rfl⟩
  | plus | minus =>
      rw [isArithmetic_alike hp ht]
      exact .guard .rfl fun _ => .bind (promote_runs ht) fun _ _ _ _ _ ht => .pure ⟨ht, rfl⟩
  | bitNot =>
      rw [isInteger_alike hp ht]
      exact .guard .rfl fun _ => .bind (promote_runs ht) fun _ _ _ _ _ ht => .pure ⟨ht, rfl⟩
  | logicalNot =>
      refine .bind (decay_runs ht) fun u u' p' q' _ hu => .get_bind fun hk => ?_
      rw [isScalar_alike hk.matched.recordless.1 hu]
      exact .guard .rfl fun _ => .bind (builtin_runs _) fun _ _ _ _ _ ht => .pure ⟨ht, rfl⟩

theorem unary_runs (op : UnaryOp) (he : A.exprs p q e e') :
    A.Runs p q (unary op e) (unary op e') A.exprs := by
  refine .bind (unaryType_runs op he) fun x x' _ _ hl ⟨ht, hc⟩ => ?_
  obtain ⟨t, c⟩ := x
  obtain ⟨t', c'⟩ := x'
  obtain rfl : c = c' := hc
  exact .bind (parenBelow_runs (hl.pairing.expr he) _) fun _ _ _ _ hl he =>
    pushExpr_runs (.unary op he) (hl.types ht) _

theorem operatorType?_runs (op : BinaryOp) {u u' : QualType} (ht : types p q t t')
    (hu : types p q u u') (hl : A.exprs p q l l') (hr : A.exprs p q r r') :
    A.Runs p q (operatorType? op t u l r) (operatorType? op t' u' l' r')
      fun p q => Option.Rel (types p q) := by
  refine .get_bind fun hk => ?_
  have hp := hk.matched.recordless.1
  have given {m m' : Check QualType} (hm : A.Runs p q m m' types) :
      A.Runs p q (some <$> m) (some <$> m') fun p q => Option.Rel (types p q) :=
    .map (hm.imp fun _ _ _ _ h => .some h)
  have nothing : A.Runs p q (pure none : Check (Option QualType)) (pure none : Check (Option QualType))
      fun p q => Option.Rel (types p q) := .pure .none
  dsimp only
  rw [isArithmetic_alike hp ht, isArithmetic_alike hp hu, isInteger_alike hp ht,
    isInteger_alike hp hu, isPointer_alike hp ht, isPointer_alike hp hu,
    hk.matched.isNullPointer_eq hr, hk.matched.isNullPointer_eq hl, isScalar_alike hp ht,
    isScalar_alike hp hu, hk.matched.target]
  cases op with
  | mul | div => exact .ite .rfl (fun _ => given (usualConversions_runs ht hu)) fun _ => nothing
  | rem | bitAnd | bitXor | bitOr =>
      exact .ite .rfl (fun _ => given (usualConversions_runs ht hu)) fun _ => nothing
  | shl | shr => exact .ite .rfl (fun _ => given (promote_runs ht)) fun _ => nothing
  | add =>
      exact .ite .rfl (fun _ => given (usualConversions_runs ht hu)) fun _ =>
        .ite .rfl (fun _ => .pure (.some ht.unqualified)) fun _ =>
        .ite .rfl (fun _ => .pure (.some hu.unqualified)) fun _ => nothing
  | sub =>
      exact .ite .rfl (fun _ => given (usualConversions_runs ht hu)) fun _ =>
        .ite .rfl (fun _ => .pure (.some ht.unqualified)) fun _ =>
        .ite .rfl (fun _ => given (builtin_runs _)) fun _ => nothing
  | lt | gt | le | ge => exact .ite .rfl (fun _ => given (builtin_runs _)) fun _ => nothing
  | eq | ne => exact .ite .rfl (fun _ => given (builtin_runs _)) fun _ => nothing
  | logicalAnd | logicalOr => exact .ite .rfl (fun _ => given (builtin_runs _)) fun _ => nothing
  | comma => exact .pure (.some (hk.matched.type_alike hr).unqualified)
  | _ => exact nothing

theorem operatorType_runs (op : BinaryOp) (hl : A.exprs p q l l') (hr : A.exprs p q r r') :
    A.Runs p q (operatorType op l r) (operatorType op l' r') types := by
  refine .get_bind fun hk => ?_
  refine .bind (decay_runs (hk.matched.type_alike hl)) fun _ _ _ _ h₁ ht => ?_
  refine .bind (decay_runs (h₁.types (hk.matched.type_alike hr))) fun _ _ _ _ h₂ hu => ?_
  refine .bind (operatorType?_runs op (h₂.types ht) hu (h₂.pairing.expr (h₁.pairing.expr hl))
    (h₂.pairing.expr (h₁.pairing.expr hr))) fun _ _ _ _ _ hx => ?_
  cases hx with
  | some h => exact .pure h
  | none => exact .get_bind fun _ => .throw _ _

theorem binaryType_runs (op : BinaryOp) (hl : A.exprs p q l l') (hr : A.exprs p q r r') :
    A.Runs p q (binaryType op l r) (binaryType op l' r') types := by
  refine .get_bind fun hk => ?_
  have ht := (hk.matched.type_alike hl).unqualified
  refine .ite .rfl (fun _ => ?_) fun _ => ?_
  · exact .bind (storable_runs hl) fun _ _ _ _ h₁ _ =>
      .bind (assignable_runs (h₁.types ht) (h₁.pairing.expr hr)) fun _ _ _ _ h₂ _ =>
      .pure (h₂.types (h₁.types ht))
  · split
    · exact .bind (storable_runs hl) fun _ _ _ _ h₁ _ =>
        .bind (operatorType_runs _ (h₁.pairing.expr hl) (h₁.pairing.expr hr)) fun _ _ _ _ h₂ _ =>
        .pure (h₂.types (h₁.types ht))
    · exact operatorType_runs op hl hr

theorem binary_runs (op : BinaryOp) (hl : A.exprs p q l l') (hr : A.exprs p q r r') :
    A.Runs p q (binary op l r) (binary op l' r') A.exprs := by
  refine .bind (binaryType_runs op hl hr) fun t t' _ _ h ht => ?_
  have rest {m m' : ExprId → Check ExprId} {n n' : ExprId → Check ExprId}
      (hm : ∀ {p q e e'}, A.exprs p q e e' → A.Runs p q (m e) (m' e') A.exprs)
      (hn : ∀ {p q e e'}, A.exprs p q e e' → A.Runs p q (n e) (n' e') A.exprs) :
      A.Runs _ _ (do let l ← m l; let r ← n r; pushExpr (.binary op l r) t .rvalue)
        (do let l ← m' l'; let r ← n' r'; pushExpr (.binary op l r) t' .rvalue) A.exprs :=
    .bind (hm (h.pairing.expr hl)) fun _ _ _ _ h₁ hl => .bind (hn (h₁.pairing.expr (h.pairing.expr hr)))
      fun _ _ _ _ h₂ hr => pushExpr_runs (.binary op (h₂.pairing.expr hl) hr)
        (h₂.types (h₁.types ht)) _
  exact .ite .rfl (fun _ => rest (fun he => parenUpTo_runs he _) fun he => parenBelow_runs he _)
    fun _ => rest (fun he => parenBelow_runs he _) fun he => parenUpTo_runs he _

theorem initList_runs (ht : types p q t t') (hes : List.Forall₂ (A.exprs p q) es es') :
    A.Runs p q (initList t es) (initList t' es') A.exprs :=
  .bind (listed_runs hes) fun _ _ _ _ hl hes => pushExpr_runs (.initList hes) (hl.types ht) _

theorem calleeParts?_alike (hp : p.types.Recordless) (ht : types p q t t') :
    Option.Rel (fun x y => types p q x.1 y.1 ∧ List.Forall₂ (types p q) x.2.1 y.2.1 ∧ x.2.2 = y.2.2)
      (calleeParts? p t) (calleeParts? q t') := by
  unfold calleeParts?
  rw [isFunction_alike hp ht]
  split
  · exact functionParts?_alike hp ht
  · have hpointee := pointee?_alike hp ht
    generalize p.pointee? t = x at hpointee
    generalize q.pointee? t' = x' at hpointee
    cases hpointee with
    | none => exact .none
    | some h => exact functionParts?_alike hp h

theorem call_runs (he : A.exprs p q e e') (hes : List.Forall₂ (A.exprs p q) es es') :
    A.Runs p q (call e es) (call e' es') A.exprs := by
  refine .get_bind fun hk => ?_
  have hparts := calleeParts?_alike hk.matched.recordless.1 (hk.matched.type_alike he)
  dsimp only
  generalize calleeParts? p (p.expr e).type = x at hparts
  generalize calleeParts? q (q.expr e').type = x' at hparts
  cases hparts with
  | none => exact .throw _ _
  | @some x x' h =>
      obtain ⟨result, params, isVariadic⟩ := x
      obtain ⟨result', params', isVariadic'⟩ := x'
      obtain ⟨hresult, hparams, rfl⟩ := h
      dsimp only
      rw [hparams.length_eq, hes.length_eq]
      exact .guard .rfl fun _ => .bind (parenBelow_runs he _) fun _ _ _ _ h₁ he =>
        .bind (listed_runs (hes.imp fun _ _ => h₁.pairing.expr)) fun _ _ _ _ h₂ hes =>
        pushExpr_runs (.call (h₂.pairing.expr he) hes)
          (h₂.types (h₁.types hresult)).unqualified _

end Expressions

end Accord

end Readback
