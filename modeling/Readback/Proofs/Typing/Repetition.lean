import Readback.Proofs.Typing.Representation

/-! # Typing rules give the same again

A typing rule that has succeeded gives the same type on every program that has all that the rule left,
and adds nothing there: the types that it interned are found again.

* `Check.Repeats m p m' r` says so of a rule `m`, run on `p`, and the same rule `m'`, run on `r`,
  perhaps on other operands. It is kept by everything that rules are put together from (`Repeats.bind`,
  `Repeats.guard`, `Repeats.ite`). In a sequence, what the second step adds is there in the end, hence
  also what the first one added.
* `Program.Retains` is what `r` has to keep of a program. What a type is depends on its node alone, so
  all questions that rules ask about a type have the same answer later (`Retains.isScalar`,
  `Retains.pointee?`, `Retains.functionParts?` and so on).
* It does not matter if operands were put in parentheses in between. A rule sees of an operand only its
  type, its category and whether it is a null pointer: that is `Program.StandsFor`. Parentheses that are
  needed can stand for what is in them (`Retains.standsFor_paren`), since what binds looser than a
  literal is no null pointer (`isNullPointer_of_precedence`). Other parentheses need care: they are a
  null pointer if what is in them is one and no implicit cast (`Ordered.isNullPointer_paren_self`,
  `Ordered.isNullPointer_paren_cast`).

Then there is one lemma `f_repeats` per rule `f` that decides a type: conversions (`decay_repeats`,
`usualConversions_repeats`), checks (`assignable_repeats`) and operators (`unaryType_repeats`,
`binaryType_repeats`). That expressions can be made again is put together from these. -/

namespace Readback

open Step

namespace Program

variable {p q r : Program}

/-! ### What a retaining program knows -/

theorem Retains.hasType (h : p.Retains r) {t : QualType} (ht : p.HasType t) : r.HasType t :=
  Nat.lt_of_lt_of_le ht h.types.size_le

theorem node_of_within (h : p.types.Within r.types) {t : QualType} (ht : p.HasType t) :
    r.node t = p.node t := by
  unfold Program.node TypeArena.node
  rw [h.get?_eq ht]

theorem Retains.node (h : p.Retains r) {t : QualType} (ht : p.HasType t) : r.node t = p.node t :=
  node_of_within h.types ht

theorem Retains.exprsGrow (h : p.Retains r) : p.ExprsGrow r := by
  refine ⟨?_, fun e he => ?_⟩
  · refine Nat.le_of_not_lt fun hlt => ?_
    have hget := h.exprs r.exprs.size _ (Array.getElem?_eq_getElem hlt)
    exact Nat.lt_irrefl _ (Array.getElem?_eq_some_iff.mp hget).1
  · have hget : p.exprs[e]? = some p.exprs[e] := Array.getElem?_eq_getElem he
    rw [expr, expr, h.exprs e _ hget, hget]

theorem Retains.decl (h : p.Retains r) {d : DeclId} (hd : d < p.decls.size) :
    d < r.decls.size ∧ (p.decl d).CompletedBy (r.decl d) := by
  have hget : p.decls[d]? = some p.decls[d] := Array.getElem?_eq_getElem hd
  obtain ⟨y, hy, hcompleted⟩ := h.decls d _ hget
  rw [Program.decl, Program.decl, hget, hy]
  exact ⟨(Array.getElem?_eq_some_iff.mp hy).1, hcompleted⟩

/-! What a type is depends on its node alone. -/

section Congr

variable {t : QualType} (h : r.node t = p.node t)

include h

theorem builtin?_congr : r.builtin? t = p.builtin? t := by rw [builtin?, builtin?, h]

theorem isVoid_congr : r.isVoid t = p.isVoid t := by rw [isVoid, isVoid, builtin?_congr h]

theorem isInteger_congr : r.isInteger t = p.isInteger t := by
  rw [isInteger, isInteger, builtin?_congr h]

theorem isArithmetic_congr : r.isArithmetic t = p.isArithmetic t := by
  rw [isArithmetic, isArithmetic, builtin?_congr h]

theorem isPointer_congr : r.isPointer t = p.isPointer t := by rw [isPointer, isPointer, h]

theorem isArray_congr : r.isArray t = p.isArray t := by rw [isArray, isArray, h]

theorem isFunction_congr : r.isFunction t = p.isFunction t := by rw [isFunction, isFunction, h]

theorem isRecord_congr : r.isRecord t = p.isRecord t := by rw [isRecord, isRecord, h]

theorem isScalar_congr : r.isScalar t = p.isScalar t := by
  rw [isScalar, isScalar, isArithmetic_congr h, isPointer_congr h]

theorem pointee?_congr : r.pointee? t = p.pointee? t := by rw [pointee?, pointee?, h]

theorem functionParts?_congr : r.functionParts? t = p.functionParts? t := by
  rw [functionParts?, functionParts?, h]

end Congr

section Predicates

variable (h : p.Retains r) {t : QualType} (ht : p.HasType t)

include h ht

theorem Retains.builtin? : r.builtin? t = p.builtin? t := builtin?_congr (h.node ht)

theorem Retains.isVoid : r.isVoid t = p.isVoid t := isVoid_congr (h.node ht)

theorem Retains.isInteger : r.isInteger t = p.isInteger t := isInteger_congr (h.node ht)

theorem Retains.isArithmetic : r.isArithmetic t = p.isArithmetic t := isArithmetic_congr (h.node ht)

theorem Retains.isPointer : r.isPointer t = p.isPointer t := isPointer_congr (h.node ht)

theorem Retains.isArray : r.isArray t = p.isArray t := isArray_congr (h.node ht)

theorem Retains.isFunction : r.isFunction t = p.isFunction t := isFunction_congr (h.node ht)

theorem Retains.isRecord : r.isRecord t = p.isRecord t := isRecord_congr (h.node ht)

theorem Retains.isScalar : r.isScalar t = p.isScalar t := isScalar_congr (h.node ht)

theorem Retains.pointee? : r.pointee? t = p.pointee? t := pointee?_congr (h.node ht)

theorem Retains.functionParts? : r.functionParts? t = p.functionParts? t :=
  functionParts?_congr (h.node ht)

/-- What is called stays the same function type. -/
theorem Retains.calleeParts? (typed : p.WellTyped) :
    Check.calleeParts? r t = Check.calleeParts? p t := by
  unfold Check.calleeParts?
  rw [h.isFunction ht, h.functionParts? ht, h.pointee? ht]
  cases hp : p.pointee? t with
  | none => rfl
  | some pointee =>
      simp only [Option.bind_some]
      rw [h.functionParts? (typed.pointee ht hp)]

end Predicates

/-! ### Operands -/

/-- As an operand, `x` in `r` is the same to every typing rule as `e` in `p`. -/
structure StandsFor (p : Program) (e : ExprId) (r : Program) (x : ExprId) : Prop where
  type : (r.expr x).type = (p.expr e).type
  category : (r.expr x).category = (p.expr e).category
  null : r.isNullPointer x = p.isNullPointer e

theorem isNullPointer_of_exprs_eq (h : q.exprs = p.exprs) (e : ExprId) :
    q.isNullPointer e = p.isNullPointer e := by
  have hexpr : q.expr = p.expr := funext fun x => by rw [expr, expr, h]
  have hparens : ∀ n x, q.skipParensAux n x = p.skipParensAux n x := fun n x => by
    rw [skipParensAux_eq_strip, skipParensAux_eq_strip]
    induction n generalizing x with
    | zero => rfl
    | succ n ih => simp only [stripAux, hexpr, ih]
  have hcasts : ∀ n x, q.skipCastsAux n x = p.skipCastsAux n x := fun n x => by
    rw [skipCastsAux_eq_strip, skipCastsAux_eq_strip]
    induction n generalizing x with
    | zero => rfl
    | succ n ih => simp only [stripAux, hexpr, ih]
  simp only [isNullPointer, skipParens, skipCasts, hexpr, hparens, hcasts]

/-- Deciding a type does not change what stands for what. -/
theorem StandsFor.of_typesOnly {e x : ExprId} (h : p.StandsFor e r x) (hq : p.TypesOnly q) :
    q.StandsFor e r x := by
  have hexpr : q.expr e = p.expr e := by rw [expr, expr, hq.exprs]
  exact ⟨by rw [hexpr]; exact h.type, by rw [hexpr]; exact h.category,
    by rw [isNullPointer_of_exprs_eq hq.exprs]; exact h.null⟩

theorem StandsFor.isLvalue {e x : ExprId} (h : p.StandsFor e r x) :
    (r.expr x).isLvalue = (p.expr e).isLvalue := by
  rw [Expr.isLvalue, Expr.isLvalue, h.category]

/-- Further nodes do not change what an expression is as an operand. -/
theorem Retains.standsFor (h : p.Retains r) (hp : p.Ordered) {e : ExprId} (he : e < p.exprs.size) :
    p.StandsFor e r e := by
  have hg := h.exprsGrow
  refine ⟨by rw [hg.2 e he], by rw [hg.2 e he], ?_⟩
  have hcasts := Nat.lt_of_le_of_lt (hp.skipCasts_le e) he
  have hparens := Nat.lt_of_le_of_lt (hp.skipParens_le (p.skipCasts e)) hcasts
  rw [isNullPointer, isNullPointer, hg.skipCasts_eq hp he, hg.skipParens_eq hp hcasts,
    hg.2 _ hparens]

/-- What binds looser than a literal is no null pointer. -/
theorem isNullPointer_of_precedence {e : ExprId} (h : p.precedence e < .primary) :
    p.isNullPointer e = false := by
  unfold precedence at h
  have hparen : ∀ inner, (p.expr (p.skipCasts e)).kind ≠ .paren inner := by
    intro inner hk
    rw [hk] at h
    exact Nat.lt_irrefl _ h
  rw [isNullPointer, skipParens_self hparen]
  cases hk : (p.expr (p.skipCasts e)).kind with
  | integer value =>
      rw [hk] at h
      by_cases hneg : value < 0
      · simp only [beq_eq_false_iff_ne]
        omega
      · rw [levelPrecedence, if_neg hneg] at h
        exact absurd h (by decide)
  | _ => rfl

/-- Parentheses around anything but an implicit cast are a null pointer if that is one. -/
theorem Ordered.isNullPointer_paren_self (hp : p.Ordered) {e x : ExprId}
    (hk : (p.expr x).kind = .paren e)
    (hcast : ∀ c operand, (p.expr e).kind ≠ .cast .implicit c operand) :
    p.isNullPointer x = p.isNullPointer e := by
  rw [isNullPointer, isNullPointer, skipCasts_self (by simp [hk]), hp.skipParens_paren hk,
    skipCasts_self hcast]

/-- Around an implicit cast they are none. -/
theorem Ordered.isNullPointer_paren_cast (hp : p.Ordered) {e x : ExprId}
    (hk : (p.expr x).kind = .paren e) {c : Conversion} {operand : ExprId}
    (hcast : (p.expr e).kind = .cast .implicit c operand) : p.isNullPointer x = false := by
  rw [isNullPointer, skipCasts_self (by simp [hk]), hp.skipParens_paren hk,
    skipParens_self (by simp [hcast]), hcast]

/-- Nor are parentheses around what binds looser than a literal. -/
theorem Ordered.isNullPointer_paren (hp : p.Ordered) {e x : ExprId}
    (hk : (p.expr x).kind = .paren e) (h : p.precedence e < .primary) :
    p.isNullPointer x = false := by
  by_cases hcast : ∃ c operand, (p.expr e).kind = .cast .implicit c operand
  · obtain ⟨c, operand, hcast⟩ := hcast
    exact hp.isNullPointer_paren_cast hk hcast
  · rw [hp.isNullPointer_paren_self hk fun c operand h => hcast ⟨c, operand, h⟩]
    exact isNullPointer_of_precedence h

/-- Parentheses that are needed can stand for what is in them. -/
theorem Retains.standsFor_paren (h : p.Retains r) (hp : p.Ordered) (hr : r.Ordered) {e x : ExprId}
    (he : e < p.exprs.size) (hk : (r.expr x).kind = .paren e)
    (htype : (r.expr x).type = (p.expr e).type)
    (hcategory : (r.expr x).category = (p.expr e).category) (hprec : p.precedence e < .primary) :
    p.StandsFor e r x := by
  have hprec' : r.precedence e < .primary := by rwa [h.exprsGrow.precedence_eq hp he]
  exact ⟨htype, hcategory,
    by rw [hr.isNullPointer_paren hk hprec', isNullPointer_of_precedence hprec]⟩

end Program

open Program

namespace Check

variable {α β : Type} {p q r : Program}

/-- Whatever `m` gives on `p`, the step `m'` gives on `r` without adding anything, if `r` has all
that `m` left. -/
def Repeats (m : Check α) (p : Program) (m' : Check α) (r : Program) : Prop :=
  ∀ a q, m p = .ok a q → q.Retains r → m' r = .ok a r

theorem Repeats.pure (a : α) : Repeats (pure a) p (pure a) r := by
  rintro _ _ ⟨⟩ _
  rfl

theorem Repeats.throw (e : Fault) (m' : Check α) : Repeats (throw e) p m' r := by
  rintro _ _ ⟨⟩

theorem Repeats.get_bind {f f' : Program → Check α} (h : Repeats (f p) p (f' r) r) :
    Repeats (get >>= f) p (get >>= f') r := h

theorem Repeats.ite {c : Prop} [Decidable c] {a b a' b' : Check α}
    (ha : c → Repeats a p a' r) (hb : ¬ c → Repeats b p b' r) :
    Repeats (if c then a else b) p (if c then a' else b') r := by
  split
  · next h => exact ha h
  · next h => exact hb h

theorem Repeats.guard {c : Prop} [Decidable c] {e e' : Fault} {k k' : Check α}
    (hk : ¬ c → Repeats k p k' r) :
    Repeats (if c then do let _ ← (MonadExcept.throw e : Check PUnit); k else k) p
      (if c then do let _ ← (MonadExcept.throw e' : Check PUnit); k' else k') r :=
  .ite (fun _ => by rintro _ _ ⟨⟩) hk

theorem Repeats.map {m m' : Check α} (hm : Repeats m p m' r) (f : α → β) :
    Repeats (f <$> m) p (f <$> m') r := by
  intro b q h hr
  change EStateM.map f m p = .ok b q at h
  show EStateM.map f m' r = .ok b r
  unfold EStateM.map at h ⊢
  cases hs : m p with
  | ok a t =>
      rw [hs] at h
      cases h
      rw [hm a _ hs hr]
  | error e t =>
      rw [hs] at h
      cases h

/-- Two steps in a row. What the second adds is there in `r`, hence also what the first added. -/
theorem Repeats.bind {m m' : Check α} {f f' : α → Check β} {P : α → Program → Prop}
    (hm : Repeats m p m' r) (hP : Gives m p P) (moves : ∀ a, Moves Retains (f a))
    (hf : ∀ a q, P a q → q.Retains r → Repeats (f a) q (f' a) r) :
    Repeats (m >>= f) p (m' >>= f') r := by
  intro b t h hr
  obtain ⟨a, q, hq, hb⟩ := bind_eq_ok.mp h
  have hqr : q.Retains r := by
    have hmove := moves a q
    unfold after at hmove
    rw [hb] at hmove
    exact hmove.trans hr
  have ha : P a q := by
    unfold Gives Ensures at hP
    rw [hq] at hP
    exact hP
  exact bind_eq_ok.mpr ⟨a, r, hm a q hq hqr, hf a q ha hqr b t hb hr⟩

/-! ### Types and conversions -/

variable (distinct : r.types.Distinct)

include distinct

theorem internNode_repeats (node : TypeNode) :
    Repeats (internNode node) p (internNode node) r := by
  rintro _ _ ⟨⟩ hr
  have hnode : (p.types.intern node).2.get? (p.types.intern node).1 = some node :=
    p.types.get?_intern_self node
  have hintern := distinct.intern_eq (hr.types _ _ hnode)
  show EStateM.Result.ok (QualType.plain (r.types.intern node).1)
    { r with types := (r.types.intern node).2 } = _
  rw [hintern]
  rfl

theorem decay_repeats (hr : p.Retains r) {t : QualType} (ht : p.HasType t) :
    Repeats (decay t) p (decay t) r := by
  refine .get_bind ?_
  rw [hr.node ht]
  split
  · exact internNode_repeats distinct _
  · exact internNode_repeats distinct _
  · exact .pure _

theorem promote_repeats (hr : p.Retains r) {t : QualType} (ht : p.HasType t) :
    Repeats (promote t) p (promote t) r := by
  refine .get_bind ?_
  rw [hr.builtin? ht]
  split
  · exact .ite (fun _ => internNode_repeats distinct _) fun _ => .pure _
  · exact .pure _

theorem commonInteger_repeats (hr : p.Retains r) {lhs rhs : QualType} (hlhs : p.HasType lhs)
    (hrhs : p.HasType rhs) : Repeats (commonInteger lhs rhs) p (commonInteger lhs rhs) r := by
  refine .get_bind ?_
  dsimp only
  rw [hr.builtin? hlhs, hr.builtin? hrhs, hr.target]
  split
  · refine .ite (fun _ => .pure _) fun _ => .ite (fun _ => .pure _) fun _ => ?_
    refine .ite (fun _ => internNode_repeats distinct _) fun _ => ?_
    exact .ite (fun _ => internNode_repeats distinct _) fun _ => internNode_repeats distinct _
  · exact .pure _

theorem usualConversions_repeats (hr : p.Retains r) {lhs rhs : QualType} (hlhs : p.HasType lhs)
    (hrhs : p.HasType rhs) : Repeats (usualConversions lhs rhs) p (usualConversions lhs rhs) r := by
  refine .get_bind ?_
  rw [hr.builtin? hlhs, hr.builtin? hrhs]
  split
  · split
    · exact .pure _
    · exact .pure _
    · exact .pure _
    · refine (promote_repeats distinct hr hlhs).bind (promote_adds hlhs).gives
        (fun _ => .bind (promote_moves _) fun _ => commonInteger_moves _ _) fun l q ⟨hq, hl⟩ hqr => ?_
      have hrhs := hq.hasType hrhs
      refine (promote_repeats distinct hqr hrhs).bind (promote_adds hrhs).gives
        (fun _ => commonInteger_moves _ _) fun _ u ⟨hu, hr'⟩ hur => ?_
      exact commonInteger_repeats distinct hur (hu.hasType hl) hr'
  · exact .pure _

omit distinct in
theorem storeFault?_eq_none_iff {e : ExprId} : p.storeFault? e = none ↔
    (p.expr e).isLvalue = true ∧ p.isArray (p.expr e).type = false ∧
      p.isFunction (p.expr e).type = false ∧ (p.expr e).type.isConst = false := by
  grind [storeFault?]

omit distinct in
theorem storable_repeats (hr : p.Retains r) {e x : ExprId} (ht : p.HasType (p.expr e).type)
    (hx : p.StandsFor e r x) : Repeats (storable e) p (storable x) r := by
  refine .get_bind ?_
  split
  · exact .throw _ _
  · next hnone =>
      have hnone' : r.storeFault? x = none := by
        rw [storeFault?_eq_none_iff] at hnone ⊢
        rw [hx.isLvalue, hx.type, hr.isArray ht, hr.isFunction ht]
        exact hnone
      rw [hnone']
      exact .pure _

theorem assignable_repeats (typed : p.WellTyped) (hr : p.Retains r) {target : QualType}
    (htarget : p.HasType target) {e x : ExprId} (he : e < p.exprs.size) (hx : p.StandsFor e r x) :
    Repeats (assignable target e) p (assignable target x) r := by
  have ht := typed.exprs e he
  refine .get_bind ?_
  rw [hx.type]
  have hdecay := (decay_adds typed ht).gives.and
    ((decay_moves (R := TypesOnly) _).ensures (fun _ _ h => h) fun _ _ => trivial)
  refine (decay_repeats distinct hr ht).bind hdecay (fun _ => ?_) ?_
  · refine .bind .get fun _ => ?_
    split
    · exact .throw _
    · exact .pure _
  · rintro source q ⟨⟨hq, hsource⟩, honly⟩ hqr
    refine .get_bind ?_
    have hstorable : r.isStorable target source x = q.isStorable target source e := by
      have htarget := hq.hasType htarget
      simp only [isStorable, hqr.isArithmetic htarget, hqr.isArithmetic hsource,
        hqr.builtin? htarget, hqr.isPointer htarget, hqr.isPointer hsource, hqr.isRecord htarget,
        (hx.of_typesOnly honly).null]
    rw [hstorable]
    exact .ite (fun _ => .throw _ _) fun _ => .pure _

/-! ### Operators -/

theorem unaryType_repeats (typed : p.WellTyped) (hr : p.Retains r) (op : UnaryOp) {e x : ExprId}
    (he : e < p.exprs.size) (hx : p.StandsFor e r x) :
    Repeats (unaryType op e) p (unaryType op x) r := by
  have ht := typed.exprs e he
  refine .get_bind ?_
  dsimp only
  rw [hx.type]
  cases op with
  | postInc | postDec | preInc | preDec =>
      refine (storable_repeats hr ht hx).bind (storable_adds e).gives
        (fun _ => .guard (.pure _)) ?_
      rintro _ _ ⟨-, rfl⟩ -
      rw [hr.isScalar ht]
      exact .guard fun _ => .pure _
  | addressOf =>
      dsimp only
      rw [hx.isLvalue, hr.isFunction ht]
      exact .guard fun _ => (internNode_repeats distinct _).bind (pointerTo_adds ht).gives
        (fun _ => .pure _) fun _ _ _ _ => .pure _
  | deref =>
      refine (decay_repeats distinct hr ht).bind (decay_adds typed ht).gives (fun _ => ?_) ?_
      · refine .bind .get fun _ => ?_
        split
        · exact .pure _
        · exact .throw _
      · rintro decayed q ⟨-, hdecayed⟩ hqr
        refine .get_bind ?_
        rw [hqr.pointee? hdecayed]
        split
        · exact .pure _
        · exact .throw _ _
  | plus | minus =>
      dsimp only
      rw [hr.isArithmetic ht]
      exact .guard fun _ => (promote_repeats distinct hr ht).bind (promote_adds ht).gives
        (fun _ => .pure _) fun _ _ _ _ => .pure _
  | bitNot =>
      dsimp only
      rw [hr.isInteger ht]
      exact .guard fun _ => (promote_repeats distinct hr ht).bind (promote_adds ht).gives
        (fun _ => .pure _) fun _ _ _ _ => .pure _
  | logicalNot =>
      refine (decay_repeats distinct hr ht).bind (decay_adds typed ht).gives
        (fun _ => .bind .get fun _ => .guard (.bind (internNode_moves _) fun _ => .pure _)) ?_
      rintro decayed q ⟨-, hdecayed⟩ hqr
      refine .get_bind ?_
      rw [hqr.isScalar hdecayed]
      exact .guard fun _ => (internNode_repeats distinct _).bind (builtin_adds _).gives
        (fun _ => .pure _) fun _ _ _ _ => .pure _

theorem operatorType?_repeats (hr : p.Retains r) (op : BinaryOp) {lt rt : QualType}
    (hlt : p.HasType lt) (hrt : p.HasType rt) {lhs rhs l r' : ExprId} (hl : p.StandsFor lhs r l)
    (hr' : p.StandsFor rhs r r') :
    Repeats (operatorType? op lt rt lhs rhs) p (operatorType? op lt rt l r') r := by
  have converted := (usualConversions_repeats distinct hr hlt hrt).map some
  have promoted := (promote_repeats distinct hr hlt).map some
  have built (kind : Builtin) : Repeats (some <$> builtin kind) p (some <$> builtin kind) r :=
    (internNode_repeats distinct _).map some
  refine .get_bind ?_
  dsimp only
  simp only [hr.isArithmetic hlt, hr.isArithmetic hrt, hr.isInteger hlt, hr.isInteger hrt,
    hr.isPointer hlt, hr.isPointer hrt, hr.isScalar hlt, hr.isScalar hrt, hl.null, hr'.null,
    hr'.type, hr.target]
  cases op with
  | mul | div | rem | bitAnd | bitXor | bitOr =>
      exact .ite (fun _ => converted) fun _ => .pure _
  | shl | shr => exact .ite (fun _ => promoted) fun _ => .pure _
  | add =>
      exact .ite (fun _ => converted) fun _ => .ite (fun _ => .pure _) fun _ =>
        .ite (fun _ => .pure _) fun _ => .pure _
  | sub =>
      exact .ite (fun _ => converted) fun _ => .ite (fun _ => .pure _) fun _ =>
        .ite (fun _ => built _) fun _ => .pure _
  | lt | gt | le | ge | eq | ne | logicalAnd | logicalOr =>
      exact .ite (fun _ => built _) fun _ => .pure _
  | _ => exact .pure _

omit distinct in
/-- What an operator does with the type that was found for it. -/
theorem taken_moves (x : Option QualType) (op : BinaryOp) (lt rt : QualType) :
    Moves Retains (match x with
      | some type => pure type
      | none => do
        let p ← get
        throw (Fault.operands op.spelling (p.typeText lt) (p.typeText rt)) : Check QualType) := by
  split
  · exact .pure _
  · exact .bind .get fun _ => .throw _

theorem operatorType_repeats (typed : p.WellTyped) (hr : p.Retains r) (op : BinaryOp)
    {lhs rhs l r' : ExprId} (hlhs : lhs < p.exprs.size) (hrhs : rhs < p.exprs.size)
    (hl : p.StandsFor lhs r l) (hr' : p.StandsFor rhs r r') :
    Repeats (operatorType op lhs rhs) p (operatorType op l r') r := by
  have htl := typed.exprs lhs hlhs
  have htr := typed.exprs rhs hrhs
  have only (t : QualType) (p : Program) : Gives (decay t) p fun _ q => p.TypesOnly q :=
    (decay_moves t).ensures (fun _ _ h => h) fun _ _ => trivial
  refine .get_bind ?_
  dsimp only
  rw [hl.type, hr'.type]
  refine (decay_repeats distinct hr htl).bind ((decay_adds typed htl).gives.and (only _ _))
    (fun _ => .bind (decay_moves _) fun _ => .bind (operatorType?_moves _ _ _ _ _) fun _ =>
      taken_moves _ _ _ _) ?_
  rintro lt q ⟨⟨hq, hlt⟩, honly⟩ hqr
  have htr := hq.hasType htr
  refine (decay_repeats distinct hqr htr).bind
    ((decay_adds (hq.wellTyped typed) htr).gives.and (only _ _))
    (fun _ => .bind (operatorType?_moves _ _ _ _ _) fun _ => taken_moves _ _ _ _) ?_
  rintro rt u ⟨⟨hu, hrt⟩, honly'⟩ hur
  refine (operatorType?_repeats distinct hur op (hu.hasType hlt) hrt
    ((hl.of_typesOnly honly).of_typesOnly honly')
    ((hr'.of_typesOnly honly).of_typesOnly honly')).bind (P := fun _ _ => True) ?_
    (fun _ => taken_moves _ _ _ _) fun x v _ _ => ?_
  · exact (operatorType?_moves (R := Retains) _ _ _ _ _).ensures (fun _ _ _ => trivial) fun _ _ => trivial
  · split
    · exact .pure _
    · exact .get_bind (.throw _ _)

theorem binaryType_repeats (typed : p.WellTyped) (hr : p.Retains r) (op : BinaryOp)
    {lhs rhs l r' : ExprId} (hlhs : lhs < p.exprs.size) (hrhs : rhs < p.exprs.size)
    (hl : p.StandsFor lhs r l) (hr' : p.StandsFor rhs r r') :
    Repeats (binaryType op lhs rhs) p (binaryType op l r') r := by
  have ht := typed.exprs lhs hlhs
  have htarget : p.HasType (p.expr lhs).type.unqualified := ht
  refine .get_bind ?_
  dsimp only
  rw [hl.type]
  refine .ite (fun _ => ?_) fun _ => ?_
  · refine (storable_repeats hr ht hl).bind (storable_adds lhs).gives
      (fun _ => .bind (assignable_moves _ _) fun _ => .pure _) ?_
    rintro _ _ ⟨-, rfl⟩ -
    exact (assignable_repeats distinct typed hr htarget hrhs hr').bind
      (assignable_adds typed _ hrhs).gives (fun _ => .pure _) fun _ _ _ _ => .pure _
  · split
    · next base _ =>
        refine (storable_repeats hr ht hl).bind (storable_adds lhs).gives
          (fun _ => .bind (operatorType_moves _ _ _) fun _ => .pure _) ?_
        rintro _ _ ⟨-, rfl⟩ -
        exact (operatorType_repeats distinct typed hr base hlhs hrhs hl hr').bind
          (operatorType_adds typed base hlhs hrhs).gives (fun _ => .pure _) fun _ _ _ _ => .pure _
    · exact operatorType_repeats distinct typed hr op hlhs hrhs hl hr'

end Check

end Readback
