import Readback.Proofs.Number.Single
import Readback.Proofs.Typing.Grouping
import Readback.Proofs.Typing.Repetition

/-! # Expressions can be made again

Every expression of a constructed program is what its own construction makes of its operator, type
and parts: made once more, it passes all checks, gets no further parentheses and comes out with the
same kind, type and category.

* `Expr.again` makes an expression again. It calls the construction step of the kind of the expression, on
  the operator, the type and the parts that are stored.
* What makes this succeed is kept with each expression (`Program.Justifies`). Literals are normal: an
  integer fits its type (`NormalInteger`), a floating number was rounded to its type (`NormalFloating`),
  and a text has its array type. The typing rules that were passed are passed by the stored operands too,
  and these have no parentheses that would be put around them again.
* Justifications last: further nodes and completed declarations change nothing about them
  (`Justifies.mono`), and each construction step gives one for the expression that it makes
  (`binary_coherent`, `cast_coherent`, `call_coherent` and so on). So all expressions of a constructed
  program have one (`Constructed.coherent`).

The subtle point is parentheses. An operand may have been put in parentheses when the expression was
made, so that the stored operand is not the one the rule was asked about. Its type and category are the
same; but whether it is a null pointer might differ, because the test stops at an implicit cast in
parentheses. It does not (`paren_operand`): only operands that bind less tightly than a literal are put in
parentheses, and a zero behind an implicit cast binds like one.

The main result is `Program.Constructed.again_eq`, for every target; `Constructed.again_eq_null` is an
instance with a null pointer in parentheses. -/

namespace Readback

open Step

/-- Makes an expression again, from its operator, type and parts. -/
def Expr.again (x : Expr) : Check ExprId :=
  match x.kind with
  | .integer value => Check.integer value x.type
  | .floating value => Check.floating value x.type
  | .text value => Check.text value
  | .ref decl => Check.declRef decl
  | .paren inner => Check.paren inner
  | .unary op operand => Check.unary op operand
  | .binary op lhs rhs => Check.binary op lhs rhs
  | .cast style conversion operand => Check.cast style conversion x.type operand x.category
  | .initList elements => Check.initList x.type elements
  | .call callee args => Check.call callee args

/-- The type of a reference to the declaration, if expressions can refer to it. -/
def DeclKind.valueType? : DeclKind → Option QualType
  | .function type _ _ _ => some type
  | .param type _ => some type
  | .var type _ _ => some type
  | _ => none

theorem DeclKind.valueType?_of_sort_eq {k k' : DeclKind} (h : k.sort = k'.sort) :
    k.valueType? = k'.valueType? := by
  cases k <;> cases k' <;> simp_all [sort, settled, valueType?]

namespace Check

/-! ### Literals are normal -/

theorem wrap_wrap (width : Nat) (isUnsigned : Bool) (value : Int) :
    wrap width isUnsigned (wrap width isUnsigned value) = wrap width isUnsigned value := by
  have hpos : (0 : Int) < 2 ^ width := by exact_mod_cast Nat.two_pow_pos width
  have hlow := Int.emod_nonneg value hpos.ne'
  have hhigh := Int.emod_lt_of_pos value hpos
  have hself : (value % 2 ^ width) % 2 ^ width = value % 2 ^ width := Int.emod_emod_of_dvd _ dvd_rfl
  have hshift : (value % 2 ^ width - 2 ^ width) % 2 ^ width = value % 2 ^ width := by
    rw [Int.sub_emod_right, hself]
  simp only [wrap, Nat.pow_eq, Nat.cast_pow, Nat.cast_ofNat]
  split
  · next h => rw [hshift, if_pos h]
  · next h => rw [hself, if_neg h]

/-- The type of a text literal. -/
def textType (value : String) : Check QualType := do
  let char ← builtin .char
  arrayOf char (some (value.utf8ByteSize + 1))

theorem text_eq (value : String) :
    text value = textType value >>= fun type => pushExpr (.text value) type .lvalue :=
  (bind_assoc _ _ _).symm

theorem textType_adds (value : String) (p : Program) :
    Leads Program.Adds (textType value) p fun t q => q.HasType t :=
  (builtin_adds _).bind fun _ _ _ hc => arrayOf_adds hc _

theorem textType_moves {R : Program → Program → Prop} [Program.Interning R] (value : String) :
    Moves R (textType value) := .bind (internNode_moves _) fun _ => internNode_moves _

theorem textType_repeats {p r : Program} (distinct : r.types.Distinct) (value : String) :
    Repeats (textType value) p (textType value) r :=
  (internNode_repeats distinct _).bind (builtin_adds _).gives (fun _ => internNode_moves _)
    fun _ _ _ _ => internNode_repeats distinct _

end Check

namespace Program

open Check

/-! ### What is kept with an expression -/

/-- The literals of an integer type that stay as they are. -/
def NormalInteger (p : Program) (type : QualType) (value : Int) : Prop :=
  ∃ kind, (p.builtin? type).filter Builtin.isInteger = some kind ∧
    wrap ((p.target.integerWidth? kind).getD 64) (kind.isUnsigned p.target.charIsUnsigned) value = value

/-- The literals of a floating type that stay as they are. -/
def NormalFloating (p : Program) (type : QualType) (value : Binary64) : Prop :=
  ∃ kind, (p.builtin? type).filter Builtin.isFloating = some kind ∧
    (kind = .float → value.toSingle = value)

/-- The call has as many arguments as the function takes, and gives its result. -/
def Answers (p : Program) (callee : ExprId) (count : Nat) (type : QualType) : Prop :=
  ∃ result params isVariadic, calleeParts? p (p.expr callee).type = some (result, params, isVariadic) ∧
    (count < params.length || (!isVariadic && params.length < count)) = false ∧
    type = result.unqualified

/-- The expression has the type and category that its construction gives to it. -/
def Justifies (p : Program) (x : Expr) : Prop :=
  match x.kind with
  | .integer value => x.category = .rvalue ∧ p.NormalInteger x.type value
  | .floating value => x.category = .rvalue ∧ p.NormalFloating x.type value
  | .text value => x.category = .lvalue ∧ textType value p = .ok x.type p
  | .ref d => x.category = .lvalue ∧ d < p.decls.size ∧ (p.decl d).kind.valueType? = some x.type
  | .paren inner => x.category = (p.expr inner).category ∧ x.type = (p.expr inner).type
  | .unary op operand => unaryType op operand p = .ok (x.type, x.category) p
  | .binary op lhs rhs => x.category = .rvalue ∧ binaryType op lhs rhs p = .ok x.type p
  | .cast .implicit _ _ => True
  | .cast .explicit _ _ => (p.isVoid x.type || p.isScalar x.type) = true
  | .initList _ => x.category = .rvalue
  | .call callee args => x.category = .rvalue ∧ p.Answers callee args.length x.type

/-- Further nodes and completed declarations change nothing about that. -/
theorem Justifies.mono {p r : Program} {x : Expr} (h : p.Justifies x) (hr : p.Retains r)
    (typed : p.WellTyped) (ordered : p.Ordered) (distinct : r.types.Distinct)
    (parts : ∀ y ∈ x.kind.parts, y < p.exprs.size) (ht : p.HasType x.type) : r.Justifies x := by
  have same {e : ExprId} (he : e < p.exprs.size) : r.expr e = p.expr e := hr.exprsGrow.2 e he
  unfold Justifies at h ⊢
  cases hk : x.kind with
  | integer value =>
      rw [hk] at h
      dsimp only [NormalInteger] at h ⊢
      rw [hr.builtin? ht, hr.target]
      exact h
  | floating value =>
      rw [hk] at h
      dsimp only [NormalFloating] at h ⊢
      rw [hr.builtin? ht]
      exact h
  | text value =>
      rw [hk] at h
      exact ⟨h.1, textType_repeats distinct value _ _ h.2 hr⟩
  | ref d =>
      rw [hk] at h
      obtain ⟨hc, hd, htype⟩ := h
      obtain ⟨hd', hcompleted⟩ := hr.decl hd
      exact ⟨hc, hd', (DeclKind.valueType?_of_sort_eq hcompleted.sort).trans htype⟩
  | paren inner =>
      rw [hk] at h
      dsimp only at h ⊢
      rw [same (parts inner (by simp [hk, ExprKind.parts]))]
      exact h
  | unary op operand =>
      rw [hk] at h
      have ho := parts operand (by simp [hk, ExprKind.parts])
      exact unaryType_repeats distinct typed hr op ho (hr.standsFor ordered ho) _ _ h hr
  | binary op lhs rhs =>
      rw [hk] at h
      have hl := parts lhs (by simp [hk, ExprKind.parts])
      have hr' := parts rhs (by simp [hk, ExprKind.parts])
      exact ⟨h.1, binaryType_repeats distinct typed hr op hl hr' (hr.standsFor ordered hl)
        (hr.standsFor ordered hr') _ _ h.2 hr⟩
  | cast style c operand =>
      cases style with
      | implicit => trivial
      | explicit =>
          rw [hk] at h
          dsimp only at h ⊢
          rw [hr.isVoid ht, hr.isScalar ht]
          exact h
  | initList elements =>
      rw [hk] at h
      exact h
  | call callee args =>
      rw [hk] at h
      have hc := parts callee (by simp [hk, ExprKind.parts])
      dsimp only [Answers] at h ⊢
      rw [same hc, hr.calleeParts? (typed.exprs callee hc) typed]
      exact h

/-! ### Making an expression again -/

section again

variable {p : Program}

theorem parenBelow_self {e : ExprId} {least : Precedence} (h : least ≤ p.precedence e) :
    parenBelow e least p = .ok e p := by
  have hlt : ¬ p.precedence e < least := Nat.not_lt.mpr h
  rw [parenBelow, get_bind, if_neg hlt]
  rfl

theorem parenUpTo_self {e : ExprId} {most : Precedence} (h : most < p.precedence e) :
    parenUpTo e most p = .ok e p := by
  have hle : ¬ p.precedence e ≤ most := Nat.not_le.mpr h
  rw [parenUpTo, get_bind, if_neg hle]
  rfl

theorem listed_self {es : List ExprId} (h : ∀ e ∈ es, .comma < p.precedence e) :
    listed es p = .ok es p := by
  unfold listed
  induction es with
  | nil => rfl
  | cons e es ih =>
      rw [List.mapM_cons, bind_of_ok (parenUpTo_self (h e List.mem_cons_self)),
        bind_of_ok (ih fun x hx => h x (List.mem_cons_of_mem e hx))]
      rfl

/-- What is justified and grouped is made again as it is. -/
theorem Justifies.remade_eq {x : Expr} (h : p.Justifies x) (groups : p.Groups x.kind) :
    x.again p = .ok p.exprs.size (p.pushExpr x.kind x.type x.category).2 := by
  unfold Justifies at h
  unfold Expr.again
  cases hk : x.kind with
  | integer value =>
      rw [hk] at h
      obtain ⟨hc, kind, hkind, hwrap⟩ := h
      dsimp only
      rw [integer, get_bind, hkind, hc]
      dsimp only
      rw [hwrap]
      rfl
  | floating value =>
      rw [hk] at h
      obtain ⟨hc, kind, hkind, hsingle⟩ := h
      have hvalue : (if kind = .float then value.toSingle else value) = value := by
        split
        · next hfloat => exact hsingle hfloat
        · rfl
      dsimp only
      rw [floating, get_bind, hkind, hc]
      dsimp only
      rw [hvalue]
      rfl
  | text value =>
      rw [hk] at h
      dsimp only
      rw [text_eq, bind_of_ok h.2, h.1]
      rfl
  | ref d =>
      rw [hk] at h
      obtain ⟨hc, -, htype⟩ := h
      dsimp only
      rw [declRef, get_bind, hc]
      cases hkind : (p.decl d).kind <;> rw [hkind] at htype <;> cases htype <;> rfl
  | paren inner =>
      rw [hk] at h
      rw [h.1, h.2]
      rfl
  | unary op operand =>
      rw [hk] at h groups
      dsimp only
      rw [unary, bind_of_ok h]
      dsimp only
      rw [bind_of_ok (parenBelow_self groups)]
      rfl
  | binary op lhs rhs =>
      rw [hk] at h
      rw [hk, Groups] at groups
      dsimp only
      rw [binary, bind_of_ok h.2, h.1]
      split
      · next ha =>
          rw [if_pos ha] at groups
          rw [bind_of_ok (parenUpTo_self groups.1), bind_of_ok (parenBelow_self groups.2)]
          rfl
      · next ha =>
          rw [if_neg ha] at groups
          rw [bind_of_ok (parenBelow_self groups.1), bind_of_ok (parenUpTo_self groups.2)]
          rfl
  | cast style c operand =>
      cases style with
      | implicit => rfl
      | explicit =>
          rw [hk] at h groups
          dsimp only at h ⊢
          rw [Check.cast, get_bind, h]
          exact bind_of_ok (parenBelow_self groups) _
  | initList elements =>
      rw [hk] at h groups
      dsimp only at h ⊢
      rw [initList, bind_of_ok (listed_self groups), h]
      rfl
  | call callee args =>
      rw [hk] at h groups
      obtain ⟨hc, result, params, isVariadic, hparts, hcount, htype⟩ := h
      dsimp only
      rw [call, get_bind]
      dsimp only
      rw [hparts]
      dsimp only
      rw [hcount, hc, htype]
      exact (bind_of_ok (parenBelow_self groups.1) _).trans (bind_of_ok (listed_self groups.2) _)

end again

/-! ### Coherent programs -/

/-- Every expression is justified, and the tables are such that it stays so. -/
structure Coherent (p : Program) : Prop where
  typed : p.WellTyped
  ordered : p.Ordered
  distinct : p.types.Distinct
  justified : ∀ e : ExprId, e < p.exprs.size → p.Justifies (p.expr e)

theorem coherent_empty (target : Target) : (empty target).Coherent where
  typed := wellTyped_empty target
  ordered := (represented_empty target).ordered
  distinct := Interned.distinct_empty
  justified e he := absurd he (Nat.not_lt_zero e)

theorem Change.distinct {p q : Program} (h : p.Change q) (hp : p.types.Distinct) :
    q.types.Distinct := by
  cases h with
  | intern node _ => exact hp.intern node
  | _ => exact hp

theorem Changes.distinct {p q : Program} (h : p.Changes q) (hp : p.types.Distinct) :
    q.types.Distinct := by
  induction h with
  | refl => exact hp
  | tail _ step ih => exact step.distinct ih

section Coherent

variable {p q : Program}

/-- A program stays coherent if what is new in it is justified. -/
theorem Coherent.changed (h : p.Coherent) (hc : p.Changes q) (ordered : q.Ordered)
    (new : ∀ e : ExprId, p.exprs.size ≤ e → e < q.exprs.size → q.Justifies (q.expr e)) :
    q.Coherent := by
  have hr := hc.retains
  have distinct := hc.distinct h.distinct
  refine ⟨hc.wellTyped h.typed, ordered, distinct, fun e he => ?_⟩
  by_cases hlt : e < p.exprs.size
  · rw [hr.exprsGrow.2 e hlt]
    refine (h.justified e hlt).mono hr h.typed h.ordered distinct (fun y hy => ?_) (h.typed.exprs e hlt)
    exact Nat.lt_trans (h.ordered e y hy) hlt
  · exact new e (Nat.le_of_not_lt hlt) he

/-- Changes that make no expression. -/
theorem Coherent.of_exprs_eq (h : p.Coherent) (hc : p.Changes q) (hexprs : q.exprs = p.exprs) :
    q.Coherent := by
  have hexpr : q.expr = p.expr := funext fun e => by rw [expr, expr, hexprs]
  refine h.changed hc (fun e x hx => h.ordered e x (hexpr ▸ hx)) fun e hge hlt => ?_
  rw [hexprs] at hlt
  exact absurd hlt (Nat.not_lt.mpr hge)

/-- A justified expression more. -/
theorem Coherent.push (h : p.Coherent) {k : ExprKind} {t : QualType} {c : ValueCategory}
    (known : ∀ x ∈ k.parts, x < p.exprs.size) (type : p.HasType t)
    (justified : p.Justifies ⟨p.exprs.size, p.stmts.size, k, t, c⟩) :
    (p.pushExpr k t c).2.Coherent := by
  have refs : ∀ d, k = .ref d → d < p.decls.size := by
    rintro d rfl
    exact justified.2.1
  have adds : p.Adds (p.pushExpr k t c).2 := .push .refl k t c known type refs
  have hsize : (p.pushExpr k t c).2.exprs.size = p.exprs.size + 1 := by simp [pushExpr, pushStmt]
  refine h.changed adds.changes (adds.ordered h.ordered) fun e hge hlt => ?_
  rw [hsize] at hlt
  obtain rfl : e = p.exprs.size := Nat.le_antisymm (Nat.le_of_lt_succ hlt) hge
  rw [p.expr_pushExpr_self k t c]
  exact justified.mono adds.changes.retains h.typed h.ordered (adds.changes.distinct h.distinct)
    known type

theorem StandsFor.trans {r : Program} {e x y : ExprId} (h : p.StandsFor e q x)
    (h' : q.StandsFor x r y) : p.StandsFor e r y :=
  ⟨h'.type.trans h.type, h'.category.trans h.category, h'.null.trans h.null⟩

/-- A step leads to a coherent program with an operand that can stand for `e`. -/
structure Operand (p : Program) (e : ExprId) (x : ExprId) (q : Program) : Prop where
  coherent : q.Coherent
  retains : p.Retains q
  known : x < q.exprs.size
  stands : p.StandsFor e q x

theorem Operand.mono {r : Program} {e x : ExprId} (h : p.Operand e x q) (hr : q.Retains r)
    (coherent : r.Coherent) : p.Operand e x r where
  coherent := coherent
  retains := h.retains.trans hr
  known := Nat.lt_of_lt_of_le h.known hr.exprsGrow.1
  stands := h.stands.trans (hr.standsFor h.coherent.ordered h.known)

end Coherent

end Program

open Program

namespace Check

variable {p : Program}

/-- Runs of the step keep the program coherent. -/
abbrev KeepsCoherent {α : Type} (m : Check α) (p : Program) : Prop :=
  Ensures m p (fun _ => Coherent) Coherent

/-! ### Operands in parentheses -/

theorem paren_operand (h : p.Coherent) {e : ExprId} (he : e < p.exprs.size)
    (hprec : p.precedence e < .primary) : Ensures (paren e) p (p.Operand e) Coherent := by
  have known : ∀ x ∈ (ExprKind.paren e).parts, x < p.exprs.size := by
    simpa [ExprKind.parts] using he
  have adds := Adds.push .refl (.paren e) (p.expr e).type (p.expr e).category known
    (h.typed.exprs e he) (by simp)
  have hself := p.expr_pushExpr_self (.paren e) (p.expr e).type (p.expr e).category
  have hq := h.push known (h.typed.exprs e he) (c := (p.expr e).category) ⟨rfl, rfl⟩
  refine .get_bind ⟨hq, adds.changes.retains, by simp, ?_⟩
  exact adds.changes.retains.standsFor_paren h.ordered hq.ordered he (by rw [hself])
    (by rw [hself]) (by rw [hself]) hprec

theorem unwrapped_operand (h : p.Coherent) {e : ExprId} (he : e < p.exprs.size) :
    Ensures (pure e : Check ExprId) p (p.Operand e) Coherent :=
  .pure ⟨h, .refl p, he, (Retains.refl p).standsFor h.ordered he⟩

theorem parenBelow_operand (h : p.Coherent) {e : ExprId} (he : e < p.exprs.size)
    (least : Precedence) : Ensures (parenBelow e least) p (p.Operand e) Coherent := by
  refine .get_bind ?_
  split
  · next hlt => exact paren_operand h he (Nat.lt_of_lt_of_le hlt (by cases least <;> decide))
  · exact unwrapped_operand h he

theorem parenUpTo_operand (h : p.Coherent) {e : ExprId} (he : e < p.exprs.size)
    {most : Precedence} (hm : most < .primary) :
    Ensures (parenUpTo e most) p (p.Operand e) Coherent := by
  refine .get_bind ?_
  split
  · next hle => exact paren_operand h he (Nat.lt_of_le_of_lt hle hm)
  · exact unwrapped_operand h he

theorem listed_operands (h : p.Coherent) {es : List ExprId} (hes : ∀ e ∈ es, e < p.exprs.size) :
    Ensures (listed es) p (fun xs q => q.Coherent ∧ p.Retains q ∧ xs.length = es.length ∧
      ∀ x ∈ xs, x < q.exprs.size) Coherent := by
  unfold listed
  induction es generalizing p with
  | nil => exact .pure ⟨h, .refl p, rfl, by simp⟩
  | cons e es ih =>
      rw [List.mapM_cons]
      refine (parenUpTo_operand h (hes e List.mem_cons_self) (by decide)).bind fun x q hx => ?_
      have hes' : ∀ y ∈ es, y < q.exprs.size := fun y hy =>
        Nat.lt_of_lt_of_le (hes y (List.mem_cons_of_mem e hy)) hx.retains.exprsGrow.1
      refine (ih hx.coherent hes').bind fun xs r ⟨hr, hqr, hlength, hxs⟩ => .pure ?_
      refine ⟨hr, hx.retains.trans hqr, by simp [hlength], fun y hy => ?_⟩
      obtain rfl | hy := List.mem_cons.mp hy
      · exact Nat.lt_of_lt_of_le hx.known hqr.exprsGrow.1
      · exact hxs y hy

/-! ### Making expressions -/

/-- After a step that decides a type, construction goes on with what the step gave. -/
theorem typed_coherent {α β : Type} (h : p.Coherent) {m : Check α} {Q : α → Program → Prop}
    (hm : Leads Adds m p Q) (only : Moves TypesOnly m) {f : α → Check β}
    (hf : ∀ a q, m p = .ok a q → q.Coherent → p.Retains q → Q a q → KeepsCoherent (f a) q) :
    KeepsCoherent (m >>= f) p := by
  have hexprs := (only p).exprs
  have coherent {q : Program} (hq : p.Adds q) (hexprs : q.exprs = p.exprs) : q.Coherent :=
    h.of_exprs_eq hq.changes hexprs
  refine Ensures.bind
    (P := fun a q => m p = .ok a q ∧ q.Coherent ∧ p.Retains q ∧ Q a q) ?_
    fun a q ⟨hok, hq, hr, ha⟩ => hf a q hok hq hr ha
  unfold Leads Ensures at hm
  unfold after at hexprs
  unfold Ensures
  cases hs : m p with
  | ok a q =>
      rw [hs] at hm hexprs
      exact ⟨rfl, coherent hm.1 hexprs, hm.1.changes.retains, hm.2⟩
  | error e q =>
      rw [hs] at hm hexprs
      exact coherent hm hexprs

theorem pushExpr_coherent (h : p.Coherent) {k : ExprKind} {t : QualType} {c : ValueCategory}
    (known : ∀ x ∈ k.parts, x < p.exprs.size) (type : p.HasType t)
    (justified : p.Justifies ⟨p.exprs.size, p.stmts.size, k, t, c⟩) :
    KeepsCoherent (pushExpr k t c) p := h.push known type justified

theorem declRef_coherent (h : p.Coherent) {d : DeclId} (hd : d < p.decls.size) :
    KeepsCoherent (declRef d) p := by
  have leaf (t : QualType) (htype : (p.decl d).type? = some t)
      (hvalue : (p.decl d).kind.valueType? = some t) :
      KeepsCoherent (pushExpr (.ref d) t .lvalue) p :=
    pushExpr_coherent h (by simp [ExprKind.parts]) (h.typed.decls d hd t htype) ⟨rfl, hd, hvalue⟩
  refine .get_bind ?_
  dsimp only
  split
  · next hk => exact leaf _ (by rw [Decl.type?, hk]) (by rw [hk]; rfl)
  · next hk => exact leaf _ (by rw [Decl.type?, hk]) (by rw [hk]; rfl)
  · next hk => exact leaf _ (by rw [Decl.type?, hk]) (by rw [hk]; rfl)
  · exact .throw _ h
  · exact .throw _ h

theorem paren_coherent (h : p.Coherent) {e : ExprId} (he : e < p.exprs.size) :
    KeepsCoherent (paren e) p :=
  .get_bind (pushExpr_coherent h (by simpa [ExprKind.parts] using he) (h.typed.exprs e he) ⟨rfl, rfl⟩)

theorem integer_coherent (h : p.Coherent) (value : Int) {t : QualType} (ht : p.HasType t) :
    KeepsCoherent (integer value t) p := by
  refine .get_bind ?_
  split
  · exact .throw _ h
  · next kind hkind =>
      exact pushExpr_coherent h (by simp [ExprKind.parts]) ht ⟨rfl, kind, hkind, wrap_wrap _ _ _⟩

theorem floating_coherent (h : p.Coherent) (value : Binary64) {t : QualType} (ht : p.HasType t) :
    KeepsCoherent (floating value t) p := by
  refine .get_bind ?_
  split
  · exact .throw _ h
  · next kind hkind =>
      refine pushExpr_coherent h (by simp [ExprKind.parts]) ht ⟨rfl, kind, hkind, fun hfloat => ?_⟩
      rw [if_pos hfloat, Binary64.toSingle_toSingle]

theorem text_coherent (h : p.Coherent) (value : String) : KeepsCoherent (text value) p := by
  rw [text_eq]
  refine typed_coherent h (textType_adds value p) (textType_moves value) fun t q hok hq hr ht => ?_
  exact pushExpr_coherent hq (by simp [ExprKind.parts]) ht
    ⟨rfl, textType_repeats hq.distinct value t q hok (.refl q)⟩

theorem cast_coherent (h : p.Coherent) (style : CastStyle) (c : Conversion) {t : QualType}
    (ht : p.HasType t) {e : ExprId} (he : e < p.exprs.size) (category : ValueCategory) :
    KeepsCoherent (cast style c t e category) p := by
  cases style with
  | implicit => exact pushExpr_coherent h (by simpa [ExprKind.parts] using he) ht trivial
  | explicit =>
      refine .get_bind (.guard h fun hcast => ?_)
      refine (parenBelow_operand h he .unary).bind fun x q hx => ?_
      refine pushExpr_coherent hx.coherent (by simpa [ExprKind.parts] using hx.known)
        (hx.retains.hasType ht) ?_
      show (q.isVoid t || q.isScalar t) = true
      rw [hx.retains.isVoid ht, hx.retains.isScalar ht]
      simpa only [Bool.not_eq_true', Bool.not_eq_false] using hcast

theorem unary_coherent (h : p.Coherent) (op : UnaryOp) {e : ExprId} (he : e < p.exprs.size) :
    KeepsCoherent (unary op e) p := by
  refine typed_coherent h (unaryType_adds h.typed op he) (unaryType_moves op e)
    fun ⟨t, c⟩ q hok hq hpq ht => ?_
  have he' := Nat.lt_of_lt_of_le he hpq.exprsGrow.1
  refine (parenBelow_operand hq he' op.precedence).bind fun x r hx => ?_
  refine pushExpr_coherent hx.coherent (by simpa [ExprKind.parts] using hx.known)
    (hx.retains.hasType ht) ?_
  exact unaryType_repeats hx.coherent.distinct h.typed (hpq.trans hx.retains) op he
    ((hpq.standsFor h.ordered he).trans hx.stands) _ _ hok hx.retains

theorem binary_coherent (h : p.Coherent) (op : BinaryOp) {lhs rhs : ExprId}
    (hl : lhs < p.exprs.size) (hr : rhs < p.exprs.size) : KeepsCoherent (binary op lhs rhs) p := by
  have hop : op.precedence < .primary := by cases op <;> decide
  refine typed_coherent h (binaryType_adds h.typed op hl hr) (binaryType_moves op lhs rhs)
    fun t q hok hq hpq ht => ?_
  have hl' := Nat.lt_of_lt_of_le hl hpq.exprsGrow.1
  have hr' {s : Program} (hs : q.Retains s) := Nat.lt_of_lt_of_le hr (hpq.trans hs).exprsGrow.1
  have push {l r : ExprId} {s u : Program} (hs : q.Operand lhs l s) (hu : s.Operand rhs r u) :
      KeepsCoherent (pushExpr (.binary op l r) t .rvalue) u := by
    have hlu := hs.mono hu.retains hu.coherent
    have hqu := hs.retains.trans hu.retains
    have hrhs := (hs.retains.standsFor hq.ordered (hr' (.refl q))).trans hu.stands
    refine pushExpr_coherent hu.coherent (by simpa [ExprKind.parts] using ⟨hlu.known, hu.known⟩)
      (hqu.hasType ht) ⟨rfl, ?_⟩
    exact binaryType_repeats hu.coherent.distinct h.typed (hpq.trans hqu) op hl hr
      ((hpq.standsFor h.ordered hl).trans hlu.stands) ((hpq.standsFor h.ordered hr).trans hrhs) _ _
      hok hqu
  split
  · refine (parenUpTo_operand hq hl' hop).bind fun l s hs => ?_
    exact (parenBelow_operand hs.coherent (hr' hs.retains) _).bind fun r u hu => push hs hu
  · refine (parenBelow_operand hq hl' _).bind fun l s hs => ?_
    exact (parenUpTo_operand hs.coherent (hr' hs.retains) hop).bind fun r u hu => push hs hu

theorem initList_coherent (h : p.Coherent) {t : QualType} (ht : p.HasType t) {es : List ExprId}
    (hes : ∀ e ∈ es, e < p.exprs.size) : KeepsCoherent (initList t es) p := by
  refine (listed_operands h hes).bind fun xs q ⟨hq, hpq, _, hxs⟩ => ?_
  exact pushExpr_coherent (k := .initList xs) hq hxs (hpq.hasType ht) rfl

theorem call_coherent (h : p.Coherent) {callee : ExprId} (hc : callee < p.exprs.size)
    {args : List ExprId} (ha : ∀ e ∈ args, e < p.exprs.size) : KeepsCoherent (call callee args) p := by
  refine .get_bind ?_
  dsimp only
  split
  · exact .throw _ h
  · next result params isVariadic hparts =>
      have htype := h.typed.exprs callee hc
      refine .guard h fun hcount => ?_
      refine (parenBelow_operand h hc .suffixed).bind fun x q hx => ?_
      have ha' : ∀ e ∈ args, e < q.exprs.size := fun e he =>
        Nat.lt_of_lt_of_le (ha e he) hx.retains.exprsGrow.1
      refine (listed_operands hx.coherent ha').bind fun xs r ⟨hr, hqr, hlength, hxs⟩ => ?_
      have hx' := hx.mono hqr hr
      have hresult : p.HasType result := calleeParts_hasType h.typed htype hparts
      refine pushExpr_coherent (k := .call x xs) hr ?_
        (hx'.retains.hasType (t := result.unqualified) hresult)
        ⟨rfl, result, params, isVariadic, ?_, ?_, rfl⟩
      · simpa [ExprKind.parts] using ⟨hx'.known, hxs⟩
      · rw [hx'.stands.type, hx'.retains.calleeParts? htype h.typed]
        exact hparts
      · rw [hlength]
        simpa using hcount

end Check

open Check in
/-- One call of construction keeps a program coherent. -/
theorem Construction.after_coherent (c : Construction) {p : Program} (h : p.Coherent)
    (known : c.Known p) : (c.after p).Coherent := by
  have changes := c.after_changes h.typed known
  obtain ⟨ht, hd, -, he⟩ := known
  have makes {α : Type} {m : Check α} (hm : KeepsCoherent m p) :
      (Step.after (discard m) p).Coherent := by
    rw [after_discard]
    exact hm.after
  cases c with
  | declRef d => exact makes (declRef_coherent h (hd d (by simp [decls])))
  | paren e => exact makes (paren_coherent h (he e (by simp [exprs])))
  | integer value type => exact makes (integer_coherent h value (ht type (by simp [types])))
  | floating value type => exact makes (floating_coherent h value (ht type (by simp [types])))
  | text value => exact makes (text_coherent h value)
  | cast style conversion type operand category =>
      exact makes (cast_coherent h style conversion (ht type (by simp [types]))
        (he operand (by simp [exprs])) category)
  | unary op operand => exact makes (unary_coherent h op (he operand (by simp [exprs])))
  | binary op lhs rhs =>
      exact makes (binary_coherent h op (he lhs (by simp [exprs])) (he rhs (by simp [exprs])))
  | initList type elements => exact makes (initList_coherent h (ht type (by simp [types])) he)
  | call callee args =>
      refine makes (call_coherent h (he callee (by simp [exprs])) fun e ha => ?_)
      exact he e (by simp [exprs, ha])
  | _ => exact h.of_exprs_eq changes (after_exprs _ p rfl)

namespace Program

theorem Constructed.coherent {p : Program} (h : p.Constructed) : p.Coherent := by
  induction h with
  | empty target => exact coherent_empty target
  | step c _ known ih => exact c.after_coherent ih known

/-- **Expressions are fixed points of their construction.** Over every target, making an expression
of a constructed program again from its operator, type and parts succeeds and appends just one node,
of the same kind, type and category: no parentheses, and no type that was not there. -/
theorem Constructed.again_eq {p : Program} (h : p.Constructed) {e : ExprId}
    (he : e < p.exprs.size) : (p.expr e).again p =
      .ok p.exprs.size (p.pushExpr (p.expr e).kind (p.expr e).type (p.expr e).category).2 :=
  (h.coherent.justified e he).remade_eq (h.wellGrouped.groups e)

/-- A comparison of a pointer with a zero in parentheses, which is a null pointer still. -/
theorem Constructed.again_eq_null :
    ∃ p q : Program, p.Constructed ∧ p.exprs.size = 4 ∧ (p.expr 2).kind = .paren 1 ∧
      (p.expr 3).kind = .binary .eq 0 2 ∧ (p.expr 3).again p = .ok p.exprs.size q ∧
      q.exprs.size = 5 ∧ q.types = p.types ∧ (q.expr 4).kind = .binary .eq 0 2 := by
  have h₀ := Constructed.empty ⟨"x86_64-unknown-linux-gnu", false, 16, 32, 64, 64, 64⟩
  have h₁ := h₀.step (.builtin .int) (by decide +kernel)
  have h₂ := h₁.step (.pointerTo (.plain 0)) (by decide +kernel)
  have h₃ := h₂.step (.varDecl .file "link" (.plain 1) .unspecified) (by decide +kernel)
  have h₄ := h₃.step (.declRef 0) (by decide +kernel)
  have h₅ := h₄.step (.integer 0 (.plain 0)) (by decide +kernel)
  have h₆ := h₅.step (.paren 1) (by decide +kernel)
  have h₇ := h₆.step (.binary .eq 0 2) (by decide +kernel)
  exact ⟨_, _, h₇, by decide +kernel, by decide +kernel, by decide +kernel,
    h₇.again_eq (by decide +kernel), by decide +kernel, rfl, by decide +kernel⟩

end Program

end Readback
