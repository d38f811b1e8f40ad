import Mathlib.Data.List.Forall2
import Readback.Proofs.Program.Term
import Readback.Proofs.Typing.Frame

/-! # What typing steps add

A step of construction never changes a node that is already there, save that declarations are
completed. The lemmas of this module say, for each step, which nodes it adds when it succeeds.

* `Program.Grows` is the relation that all steps keep: the nodes of the first program stand unchanged in
  the second one, but a declaration may have got its body, parameters, fields or initial value
  (`DeclKind.settled` is what cannot change any more, `DeclKind.sort` what kind of declaration it is).
* `Program.Extends` is growth without completed declarations, which is what all steps do that make
  expressions and statements. `Program.KeepsSlots` is the part of it that bodies and initial values are
  as they were.
* `Program.Twinned` says that an expression and its statement name each other. It is a part of `Extends`
  that every step keeps, so that asking whether a statement is an expression has the same answer later
  (`Grows.asExpr?`).
* Three changes append a node (`pushExpr_extends`, `pushStmt_extends`, `pushDecl_extends`), and one
  completes a declaration (`setDeclKind_grows`).

`Step.Gives` is a postcondition of success. Each construction step `f` has a lemma `f_gives` that says
which node is new (`IsNew`, `IsNewStmt`), what it consists of and that the program was extended. Operands
come back as `Wraps`: the operand itself, or new parentheses around it. A reference that is called is
never put in parentheses (`parenBelow_ref_gives`), so a call shows which declaration it calls. -/

namespace Readback

open Step

/-- Running the step on `s` establishes `Q` if it succeeds. -/
abbrev Step.Gives {ε σ α : Type} (m : EStateM ε σ α) (s : σ) (Q : α → σ → Prop) : Prop :=
  Ensures m s Q fun _ => True

theorem Step.Leads.gives {ε σ α : Type} {R : σ → σ → Prop} {m : EStateM ε σ α} {s : σ}
    {Q : α → σ → Prop} (h : Leads R m s Q) : Gives m s fun a t => R s t ∧ Q a t :=
  Ensures.mono h (fun _ _ ht => ht) fun _ _ => trivial

namespace DeclKind

/-- The declaration without the parts that are completed later. -/
def settled : DeclKind → DeclKind
  | .function type params _ _ => .function type params none []
  | .var type _ storage => .var type none storage
  | .record _ => .record []
  | kind => kind

/-- The declaration without anything that is set after it was made. -/
def sort : DeclKind → DeclKind
  | .function type _ _ _ => .function type [] none []
  | kind => kind.settled

/-- The body of a function or the initial value of a variable. -/
def slot : DeclKind → Option Nat
  | .function _ _ body _ => body
  | .var _ init _ => init
  | _ => none

/-- Whether expressions can refer to the declaration. -/
def IsValue : DeclKind → Prop
  | .record _ => False
  | .field _ _ => False
  | _ => True

theorem isValue_of_settled_eq {k k' : DeclKind} (h : k.settled = k'.settled) :
    k.IsValue ↔ k'.IsValue := by
  cases k <;> cases k' <;> simp_all [settled, IsValue]

theorem sort_of_settled_eq {k k' : DeclKind} (h : k.settled = k'.settled) : k.sort = k'.sort := by
  cases k <;> cases k' <;> simp_all [settled, sort]

end DeclKind

theorem Decl.type?_of_sort_eq {d d' : Decl} (h : d.kind.sort = d'.kind.sort) : d.type? = d'.type? := by
  obtain ⟨_, _, _, k⟩ := d
  obtain ⟨_, _, _, k'⟩ := d'
  cases k <;> cases k' <;> simp_all [DeclKind.sort, DeclKind.settled, Decl.type?]

namespace StmtKind

/-- The expression that a statement of the given kind stands for. -/
def expr? : StmtKind → Option ExprId
  | .expr e => some e
  | _ => none

/-- The statements directly inside a statement. -/
def inner : StmtKind → List StmtId
  | .compound body => body
  | .ifElse _ yes no => yes :: no.toList
  | .whileLoop _ body => [body]
  | .doLoop body _ => [body]
  | .forLoop init _ _ body => body :: init.toList
  | _ => []

end StmtKind

namespace Program

/-- Only a declaration that is there is not the default one. -/
theorem lt_of_kind_ne {p : Program} {d : DeclId} (h : (p.decl d).kind ≠ (default : Decl).kind) :
    d < p.decls.size := by
  by_contra hge
  exact h (by rw [decl, Array.getElem?_eq_none (Nat.le_of_not_lt hge)]; rfl)

/-! ### Growth -/

/-- The nodes of `p` stand unchanged in `q`, save that declarations may have been completed. -/
structure Grows (p q : Program) : Prop where
  exprs : p.ExprsGrow q
  stmts_size : p.stmts.size ≤ q.stmts.size
  stmts : ∀ i : Nat, i < p.stmts.size → q.stmts[i]? = p.stmts[i]?
  decls_size : p.decls.size ≤ q.decls.size
  decls : ∀ d : Nat, d < p.decls.size → (q.decl d).scope = (p.decl d).scope ∧
    (q.decl d).kind.settled = (p.decl d).kind.settled

theorem Grows.refl (p : Program) : p.Grows p :=
  ⟨.of_eq rfl, Nat.le_refl _, fun _ _ => rfl, Nat.le_refl _, fun _ _ => ⟨rfl, rfl⟩⟩

theorem Grows.trans {p q r : Program} (h₁ : p.Grows q) (h₂ : q.Grows r) : p.Grows r where
  exprs := h₁.exprs.trans h₂.exprs
  stmts_size := Nat.le_trans h₁.stmts_size h₂.stmts_size
  stmts i hi := (h₂.stmts i (Nat.lt_of_lt_of_le hi h₁.stmts_size)).trans (h₁.stmts i hi)
  decls_size := Nat.le_trans h₁.decls_size h₂.decls_size
  decls d hd := by
    have h := h₂.decls d (Nat.lt_of_lt_of_le hd h₁.decls_size)
    exact ⟨h.1.trans (h₁.decls d hd).1, h.2.trans (h₁.decls d hd).2⟩

/-- Bodies and initial values are as they were. -/
def KeepsSlots (p q : Program) : Prop :=
  ∀ d : Nat, d < p.decls.size → (q.decl d).kind.slot = (p.decl d).kind.slot

/-- The statement at `i` stands for the expression `e` if and only if `e` says so. -/
def Twinned (p : Program) : Prop :=
  ∀ (i e : Nat), p.asExpr? i = some e ↔ e < p.exprs.size ∧ (p.expr e).stmt = i

/-- A step leads from `p` to `q` without completing declarations. -/
structure Extends (p q : Program) : Prop where
  grows : p.Grows q
  slots : p.KeepsSlots q
  twinned : p.Twinned → q.Twinned

theorem Extends.refl (p : Program) : p.Extends p := ⟨.refl p, fun _ _ => rfl, id⟩

theorem Extends.trans {p q r : Program} (h₁ : p.Extends q) (h₂ : q.Extends r) : p.Extends r where
  grows := h₁.grows.trans h₂.grows
  slots d hd := (h₂.slots d (Nat.lt_of_lt_of_le hd h₁.grows.decls_size)).trans (h₁.slots d hd)
  twinned := h₂.twinned ∘ h₁.twinned

theorem asExpr?_eq {p : Program} {i : Nat} :
    p.asExpr? i = (p.stmts[i]?).bind fun s => s.kind.expr? := by
  unfold asExpr?
  cases p.stmts[i]? with
  | none => rfl
  | some s =>
      obtain ⟨id, kind⟩ := s
      cases kind <;> rfl

theorem Grows.asExpr? {p q : Program} (h : p.Grows q) {i : Nat} (hi : i < p.stmts.size) :
    q.asExpr? i = p.asExpr? i := by
  rw [asExpr?_eq, asExpr?_eq, h.stmts i hi]

theorem Grows.stmt {p q : Program} (h : p.Grows q) {i : Nat} (hi : i < p.stmts.size) :
    q.stmt i = p.stmt i := by
  rw [Program.stmt, Program.stmt, h.stmts i hi]

theorem TypesOnly.extends {p q : Program} (h : p.TypesOnly q) : p.Extends q := by
  unfold TypesOnly at h
  rw [h]
  exact ⟨⟨.of_eq rfl, Nat.le_refl _, fun _ _ => rfl, Nat.le_refl _, fun _ _ => ⟨rfl, rfl⟩⟩,
    fun _ _ => rfl, id⟩

/-! ### Appending nodes -/

theorem asExpr?_push {p q : Program} {k : StmtKind}
    (h : q.stmts = p.stmts.push ⟨p.stmts.size, k⟩) (i : Nat) :
    q.asExpr? i = if i = p.stmts.size then k.expr? else p.asExpr? i := by
  rw [asExpr?_eq, asExpr?_eq, h, Array.getElem?_push]
  split <;> rfl

theorem Twinned.lt {p : Program} (h : p.Twinned) {e : Nat} (he : e < p.exprs.size) :
    (p.expr e).stmt < p.stmts.size := by
  have := (h _ e).mpr ⟨he, rfl⟩
  rw [asExpr?_eq] at this
  obtain ⟨s, hs, -⟩ := Option.bind_eq_some_iff.mp this
  exact (Array.getElem?_eq_some_iff.mp hs).1

theorem pushExpr_extends (p : Program) (k : ExprKind) (t : QualType) (c : ValueCategory) :
    p.Extends (p.pushExpr k t c).2 where
  grows :=
    { exprs := p.pushExpr_grow k t c
      stmts_size := by simp [pushExpr, pushStmt]
      stmts i hi := by simp [pushExpr, pushStmt, Array.getElem?_push, Nat.ne_of_lt hi]
      decls_size := Nat.le_refl _
      decls _ _ := ⟨rfl, rfl⟩ }
  slots _ _ := rfl
  twinned h i e := by
    have hsize : (p.pushExpr k t c).2.exprs.size = p.exprs.size + 1 := by simp [pushExpr, pushStmt]
    have hnew : (StmtKind.expr p.exprs.size).expr? = some p.exprs.size := rfl
    rw [asExpr?_push (p := p) (k := .expr p.exprs.size) rfl, hnew, hsize]
    -- The new statement stands for the new expression, and the others as before.
    rcases Nat.lt_trichotomy e p.exprs.size with hlt | rfl | hgt
    · have hs := h.lt hlt
      rw [p.expr_pushExpr_of_lt k t c hlt]
      have := h i e
      grind
    · rw [expr_pushExpr_self]
      have := h i p.exprs.size
      grind
    · have := h i e
      grind

theorem pushStmt_extends (p : Program) {k : StmtKind} (hk : ∀ e, k ≠ .expr e) :
    p.Extends (p.pushStmt k).2 where
  grows :=
    { exprs := .of_eq rfl
      stmts_size := by simp [pushStmt]
      stmts i hi := by simp [pushStmt, Array.getElem?_push, Nat.ne_of_lt hi]
      decls_size := Nat.le_refl _
      decls _ _ := ⟨rfl, rfl⟩ }
  slots _ _ := rfl
  twinned h i e := by
    rw [asExpr?_push (p := p) (k := k) rfl]
    show _ ↔ e < p.exprs.size ∧ (p.expr e).stmt = i
    have hnone : k.expr? = none := by
      cases k <;> first | rfl | exact absurd rfl (hk _)
    split
    · next hi =>
        rw [hnone]
        refine iff_of_false (by simp) ?_
        rintro ⟨he, hs⟩
        exact absurd (h.lt he) (by rw [hs, hi]; exact Nat.lt_irrefl _)
    · exact h i e

theorem decl_pushDecl_of_lt (p : Program) (name : String) (scope : Scope) (k : DeclKind) {d : Nat}
    (hd : d < p.decls.size) : (p.pushDecl name scope k).2.decl d = p.decl d := by
  simp [pushDecl, decl, Array.getElem?_push, Nat.ne_of_lt hd]

theorem decl_pushDecl_self (p : Program) (name : String) (scope : Scope) (k : DeclKind) :
    (p.pushDecl name scope k).2.decl p.decls.size = ⟨p.decls.size, name, scope, k⟩ := by
  simp [pushDecl, decl]

theorem pushDecl_extends (p : Program) (name : String) (scope : Scope) (k : DeclKind) :
    p.Extends (p.pushDecl name scope k).2 where
  grows :=
    { exprs := .of_eq rfl
      stmts_size := Nat.le_refl _
      stmts _ _ := rfl
      decls_size := by simp [pushDecl]
      decls d hd := by
        rw [p.decl_pushDecl_of_lt name scope k hd]
        exact ⟨rfl, rfl⟩ }
  slots d hd := by rw [p.decl_pushDecl_of_lt name scope k hd]
  twinned := id

theorem decl_setDeclKind (p : Program) (d : DeclId) (k : DeclKind) (x : Nat) :
    (p.setDeclKind d k).decl x =
      if d = x ∧ x < p.decls.size then { p.decl x with kind := k } else p.decl x := by
  simp only [setDeclKind, decl, Array.getElem?_modify]
  grind

/-- Completing a declaration. -/
theorem setDeclKind_grows (p : Program) {d : DeclId} {k : DeclKind}
    (h : k.settled = (p.decl d).kind.settled) : p.Grows (p.setDeclKind d k) where
  exprs := .of_eq rfl
  stmts_size := Nat.le_refl _
  stmts _ _ := rfl
  decls_size := by simp [setDeclKind]
  decls x hx := by
    rw [decl_setDeclKind]
    split
    · next hd => exact ⟨rfl, hd.1 ▸ h⟩
    · exact ⟨rfl, rfl⟩

theorem setDeclKind_extends (p : Program) {d : DeclId} {k : DeclKind}
    (h : k.settled = (p.decl d).kind.settled) (hs : k.slot = (p.decl d).kind.slot) :
    p.Extends (p.setDeclKind d k) where
  grows := p.setDeclKind_grows h
  slots x hx := by
    rw [decl_setDeclKind]
    split
    · next hd => exact hd.1 ▸ hs
    · rfl
  twinned := id

/-! ### New nodes -/

/-- `e` is an expression of `q` that `p` does not have. -/
def IsNew (p q : Program) (e : Nat) : Prop := p.exprs.size ≤ e ∧ e < q.exprs.size

/-- `i` is a statement of `q` that `p` does not have. -/
def IsNewStmt (p q : Program) (i : Nat) : Prop := p.stmts.size ≤ i ∧ i < q.stmts.size

/-- `x` is `e`, or a new expression that puts parentheses around `e`. -/
def Wraps (p q : Program) (e x : Nat) : Prop :=
  x = e ∨ p.IsNew q x ∧ (q.expr x).kind = .paren e

theorem IsNew.mono {p p' q q' : Program} {e : Nat} (h : p'.IsNew q e) (hp : p.Grows p')
    (hq : q.Grows q') : p.IsNew q' e :=
  ⟨Nat.le_trans hp.exprs.1 h.1, Nat.lt_of_lt_of_le h.2 hq.exprs.1⟩

theorem IsNewStmt.mono {p p' q q' : Program} {i : Nat} (h : p'.IsNewStmt q i) (hp : p.Grows p')
    (hq : q.Grows q') : p.IsNewStmt q' i :=
  ⟨Nat.le_trans hp.stmts_size h.1, Nat.lt_of_lt_of_le h.2 hq.stmts_size⟩

theorem Wraps.mono {p p' q q' : Program} {e x : Nat} (h : p'.Wraps q e x) (hp : p.Grows p')
    (hq : q.Grows q') : p.Wraps q' e x := by
  obtain rfl | ⟨hx, hk⟩ := h
  · exact .inl rfl
  · refine .inr ⟨hx.mono hp hq, ?_⟩
    rw [hq.exprs.2 x hx.2]
    exact hk

end Program

open Program

namespace Check

variable {p : Program}

/-- After a step that decides a type, construction goes on from an extended program. -/
theorem typed_gives {α β : Type} {m : Check α} (hm : Moves TypesOnly m) {f : α → Check β}
    {Q : β → Program → Prop} (hf : ∀ a q, p.TypesOnly q → Gives (f a) q Q) :
    Gives (m >>= f) p Q :=
  Ensures.bind (P := fun _ q => p.TypesOnly q) (hm.ensures (fun _ _ h => h) fun _ _ => trivial) hf

/-! ### Expressions -/

theorem pushExpr_gives (k : ExprKind) (t : QualType) (c : ValueCategory) :
    Gives (pushExpr k t c) p fun e q => p.Extends q ∧ p.IsNew q e ∧ (q.expr e).kind = k ∧
      (q.expr e).type = t ∧ (q.expr e).category = c := by
  have hself := p.expr_pushExpr_self k t c
  exact ⟨p.pushExpr_extends k t c, ⟨Nat.le_refl _, by simp⟩, congrArg Expr.kind hself,
    congrArg Expr.type hself, congrArg Expr.category hself⟩

/-- Only functions, parameters and variables can be referred to. -/
theorem declRef_gives (d : DeclId) :
    Gives (declRef d) p fun e q => p.Extends q ∧ p.IsNew q e ∧ (q.expr e).kind = .ref d ∧
      (p.decl d).kind.IsValue := by
  have push : (p.decl d).kind.IsValue → ∀ t, Gives (pushExpr (.ref d) t .lvalue) p fun e q =>
      p.Extends q ∧ p.IsNew q e ∧ (q.expr e).kind = .ref d ∧ (p.decl d).kind.IsValue := fun hd t =>
    (pushExpr_gives _ t _).imp fun e q ⟨hq, he, hk, _⟩ => ⟨hq, he, hk, hd⟩
  refine .get_bind ?_
  dsimp only
  split
  · next hk => exact push (by rw [hk]; trivial) _
  · next hk => exact push (by rw [hk]; trivial) _
  · next hk => exact push (by rw [hk]; trivial) _
  · exact .throw _ trivial
  · exact .throw _ trivial

theorem paren_gives (e : ExprId) :
    Gives (paren e) p fun x q => p.Extends q ∧ p.Wraps q e x := by
  refine .get_bind ?_
  exact (pushExpr_gives _ _ _).imp fun x q ⟨hq, hx, hk, _⟩ => ⟨hq, .inr ⟨hx, hk⟩⟩

theorem parenBelow_gives (e : ExprId) (least : Precedence) :
    Gives (parenBelow e least) p fun x q => p.Extends q ∧ p.Wraps q e x := by
  refine .get_bind ?_
  split
  · exact paren_gives e
  · exact .pure ⟨.refl p, .inl rfl⟩

theorem parenUpTo_gives (e : ExprId) (most : Precedence) :
    Gives (parenUpTo e most) p fun x q => p.Extends q ∧ p.Wraps q e x := by
  refine .get_bind ?_
  split
  · exact paren_gives e
  · exact .pure ⟨.refl p, .inl rfl⟩

theorem listed_gives (es : List ExprId) :
    Gives (listed es) p fun xs q => p.Extends q ∧ List.Forall₂ (p.Wraps q) es xs := by
  unfold listed
  induction es generalizing p with
  | nil => exact .pure ⟨.refl p, .nil⟩
  | cons e es ih =>
      rw [List.mapM_cons]
      refine (parenUpTo_gives e .comma).bind ?_
      rintro x q ⟨hq, hx⟩
      refine ih.bind fun xs r ⟨hr, hxs⟩ => .pure ⟨hq.trans hr, ?_⟩
      refine .cons (hx.mono (.refl p) hr.grows) (hxs.imp fun _ _ h => ?_)
      exact h.mono hq.grows (.refl r)

theorem integer_gives (value : Int) (type : QualType) :
    Gives (integer value type) p fun e q => p.Extends q ∧ p.IsNew q e ∧
      (q.expr e).kind.parts = [] := by
  refine .get_bind ?_
  split
  · exact .throw _ trivial
  · exact (pushExpr_gives _ _ _).imp fun e q ⟨hq, he, hk, _⟩ => ⟨hq, he, by rw [hk]; rfl⟩

theorem floating_gives (value : Binary64) (type : QualType) :
    Gives (floating value type) p fun e q => p.Extends q ∧ p.IsNew q e ∧
      (q.expr e).kind.parts = [] := by
  refine .get_bind ?_
  split
  · exact .throw _ trivial
  · exact (pushExpr_gives _ _ _).imp fun e q ⟨hq, he, hk, _⟩ => ⟨hq, he, by rw [hk]; rfl⟩

theorem text_gives (value : String) :
    Gives (text value) p fun e q => p.Extends q ∧ p.IsNew q e ∧ (q.expr e).kind.parts = [] := by
  refine typed_gives (internNode_moves _) fun _ q hq => ?_
  refine typed_gives (internNode_moves _) fun _ r hr => ?_
  have hpr := hq.extends.trans hr.extends
  exact (pushExpr_gives _ _ _).imp fun e u ⟨hu, he, hk, _⟩ =>
    ⟨hpr.trans hu, he.mono hpr.grows (.refl u), by rw [hk]; rfl⟩

theorem cast_gives (style : CastStyle) (c : Conversion) (type : QualType) (operand : ExprId)
    (category : ValueCategory) :
    Gives (cast style c type operand category) p fun e q => p.Extends q ∧ p.IsNew q e ∧
      (q.expr e).type = type ∧ (q.expr e).category = category ∧
      ∃ x, (q.expr e).kind = .cast style c x ∧ p.Wraps q operand x := by
  cases style with
  | implicit =>
      exact (pushExpr_gives _ _ _).imp fun e q ⟨hq, he, hk, ht, hc⟩ =>
        ⟨hq, he, ht, hc, operand, hk, .inl rfl⟩
  | explicit =>
      refine .get_bind (.guard trivial fun _ => ?_)
      refine (parenBelow_gives operand .unary).bind ?_
      rintro x q ⟨hq, hx⟩
      exact (pushExpr_gives _ _ _).imp fun e r ⟨hr, he, hk, ht, hc⟩ =>
        ⟨hq.trans hr, he.mono hq.grows (.refl r), ht, hc, x, hk, hx.mono (.refl p) hr.grows⟩

theorem unary_gives (op : UnaryOp) (operand : ExprId) :
    Gives (unary op operand) p fun e q => p.Extends q ∧ p.IsNew q e ∧
      ∃ x, (q.expr e).kind = .unary op x ∧ p.Wraps q operand x := by
  refine typed_gives (unaryType_moves op operand) fun ⟨type, category⟩ q hq => ?_
  refine (parenBelow_gives operand op.precedence).bind ?_
  rintro x r ⟨hr, hx⟩
  have hpr := hq.extends.trans hr
  exact (pushExpr_gives _ _ _).imp fun e u ⟨hu, he, hk, _⟩ =>
    ⟨hpr.trans hu, he.mono hpr.grows (.refl u), x, hk, hx.mono hq.extends.grows hu.grows⟩

theorem binary_gives (op : BinaryOp) (lhs rhs : ExprId) :
    Gives (binary op lhs rhs) p fun e q => p.Extends q ∧ p.IsNew q e ∧
      ∃ l r, (q.expr e).kind = .binary op l r ∧ p.Wraps q lhs l ∧ p.Wraps q rhs r := by
  refine typed_gives (binaryType_moves op lhs rhs) fun type q hq => ?_
  have hpq := hq.extends
  have push : ∀ {l r : ExprId} {s u : Program}, q.Extends s → q.Wraps s lhs l → s.Extends u →
      s.Wraps u rhs r → Gives (pushExpr (.binary op l r) type .rvalue) u fun e q => p.Extends q ∧
        p.IsNew q e ∧ ∃ l r, (q.expr e).kind = .binary op l r ∧ p.Wraps q lhs l ∧
          p.Wraps q rhs r := by
    intro l r s u hs hl hu hr
    have hpu := hpq.trans (hs.trans hu)
    exact (pushExpr_gives _ _ _).imp fun e v ⟨hv, he, hk, _⟩ =>
      ⟨hpu.trans hv, he.mono hpu.grows (.refl v), l, r, hk,
        hl.mono hpq.grows (hu.trans hv).grows, hr.mono (hpq.trans hs).grows hv.grows⟩
  split
  · exact (parenUpTo_gives lhs _).bind fun l s ⟨hs, hl⟩ =>
      (parenBelow_gives rhs _).bind fun r u ⟨hu, hr⟩ => push hs hl hu hr
  · exact (parenBelow_gives lhs _).bind fun l s ⟨hs, hl⟩ =>
      (parenUpTo_gives rhs _).bind fun r u ⟨hu, hr⟩ => push hs hl hu hr

theorem initList_gives (type : QualType) (es : List ExprId) :
    Gives (initList type es) p fun e q => p.Extends q ∧ p.IsNew q e ∧
      ∃ xs, (q.expr e).kind = .initList xs ∧ List.Forall₂ (p.Wraps q) es xs := by
  refine (listed_gives es).bind ?_
  rintro xs q ⟨hq, hxs⟩
  exact (pushExpr_gives _ _ _).imp fun e r ⟨hr, he, hk, _⟩ =>
    ⟨hq.trans hr, he.mono hq.grows (.refl r), xs, hk,
      hxs.imp fun _ _ h => h.mono (.refl p) hr.grows⟩

/-- A reference is never put in parentheses below a call. -/
theorem parenBelow_ref_gives {e : ExprId} {d : DeclId} (he : (p.expr e).kind = .ref d) :
    Gives (parenBelow e .suffixed) p fun x q => x = e ∧ q = p := by
  have hprec : p.precedence e = .primary := by
    rw [precedence, skipCasts_self (by simp [he]), he]
    rfl
  refine .get_bind ?_
  rw [hprec]
  exact .pure ⟨rfl, rfl⟩

theorem call_gives {callee : ExprId} {d : DeclId} (hc : (p.expr callee).kind = .ref d)
    (args : List ExprId) :
    Gives (call callee args) p fun e q => p.Extends q ∧ p.IsNew q e ∧
      ∃ xs, (q.expr e).kind = .call callee xs ∧ List.Forall₂ (p.Wraps q) args xs := by
  refine .get_bind ?_
  dsimp only
  split
  · exact .throw _ trivial
  · refine .guard trivial fun _ => (parenBelow_ref_gives hc).bind ?_
    rintro f q ⟨rfl, rfl⟩
    refine (listed_gives args).bind ?_
    rintro xs r ⟨hr, hxs⟩
    exact (pushExpr_gives _ _ _).imp fun e u ⟨hu, he, hk, _⟩ =>
      ⟨hr.trans hu, he.mono hr.grows (.refl u), xs, hk,
        hxs.imp fun _ _ h => h.mono (.refl q) hu.grows⟩

/-! ### Statements -/

theorem pushStmt_gives {k : StmtKind} (hk : ∀ e, k ≠ .expr e) :
    Gives (pushStmt k) p fun i q => p.Extends q ∧ p.IsNewStmt q i ∧ (q.stmt i).kind = k := by
  refine ⟨p.pushStmt_extends hk, ⟨Nat.le_refl _, by simp⟩, ?_⟩
  simp [stmt]

theorem condition_gives (e : ExprId) : Gives (condition e) p fun x q => p.TypesOnly q ∧ x = e := by
  refine typed_gives (m := get) .get fun _ q hq => ?_
  refine typed_gives (decay_moves _) fun _ r hr => ?_
  refine .get_bind ?_
  split
  · exact .pure ⟨IsTrans.trans _ _ _ hq hr, rfl⟩
  · exact .throw _ trivial

/-- A statement after its condition. -/
theorem condition_pushStmt_gives (e : ExprId) {k : ExprId → StmtKind} (hk : ∀ x y, k x ≠ .expr y) :
    Gives (condition e >>= fun x => pushStmt (k x)) p fun i q =>
      p.Extends q ∧ p.IsNewStmt q i ∧ (q.stmt i).kind = k e := by
  refine (condition_gives e).bind ?_
  rintro x q ⟨hq, rfl⟩
  exact (pushStmt_gives (hk x)).imp fun i r ⟨hr, hi, hki⟩ =>
    ⟨hq.extends.trans hr, hi.mono hq.extends.grows (.refl r), hki⟩

theorem forLoop_gives (init : Option StmtId) (cond inc : Option ExprId) (body : StmtId) :
    Gives (forLoop init cond inc body) p fun i q =>
      p.Extends q ∧ p.IsNewStmt q i ∧ (q.stmt i).kind = .forLoop init cond inc body := by
  cases cond with
  | none => exact pushStmt_gives (k := .forLoop init none inc body) nofun
  | some e =>
      refine Ensures.bind (P := fun x q => p.TypesOnly q ∧ x = some e) ?_ ?_
      · exact ((condition_gives e).imp fun x q ⟨hq, hx⟩ => ⟨hq, congrArg some hx⟩).map
      · rintro x q ⟨hq, rfl⟩
        exact (pushStmt_gives (k := .forLoop init (some e) inc body) nofun).imp
          fun i r ⟨hr, hi, hk⟩ => ⟨hq.extends.trans hr, hi.mono hq.extends.grows (.refl r), hk⟩

theorem returns_gives (function : DeclId) (value : Option ExprId) :
    Gives (returns function value) p fun i q =>
      p.Extends q ∧ p.IsNewStmt q i ∧ (q.stmt i).kind = .returns value := by
  refine .get_bind ?_
  dsimp only
  split
  · split
    · refine typed_gives (returnable_moves _ _ _) fun _ q hq => ?_
      exact (pushStmt_gives (k := .returns value) nofun).imp fun i r ⟨hr, hi, hk⟩ =>
        ⟨hq.extends.trans hr, hi.mono hq.extends.grows (.refl r), hk⟩
    · exact .throw _ trivial
  · exact .throw _ trivial

/-! ### Declarations -/

theorem pushDecl_gives (name : String) (scope : Scope) (k : DeclKind) :
    Gives (pushDecl name scope k) p fun d q => p.Extends q ∧ d = p.decls.size ∧
      q.decls.size = d + 1 ∧ q.decl d = ⟨d, name, scope, k⟩ := by
  refine ⟨p.pushDecl_extends name scope k, rfl, by simp, ?_⟩
  simp [decl]

theorem addDecl_gives (scope : Scope) (d : DeclId) :
    Gives (addDecl scope d) p fun _ q => p.Extends q ∧ q.decls.size = p.decls.size := by
  cases scope with
  | file =>
      refine ⟨⟨⟨.of_eq rfl, Nat.le_refl _, fun _ _ => rfl, Nat.le_refl _, fun _ _ => ⟨rfl, rfl⟩⟩,
        fun _ _ => rfl, id⟩, rfl⟩
  | function f =>
      refine .get_bind ?_
      split
      · next hk =>
          exact ⟨p.setDeclKind_extends (by rw [hk]; rfl) (by rw [hk]; rfl), by simp [setDeclKind]⟩
      · exact .throw _ trivial
  | record r =>
      refine .get_bind ?_
      split
      · next hk =>
          exact ⟨p.setDeclKind_extends (by rw [hk]; rfl) (by rw [hk]; rfl), by simp [setDeclKind]⟩
      · exact .throw _ trivial

theorem functionDecl_gives (scope : Scope) (name : String) (type : QualType) :
    Gives (functionDecl scope name type) p fun d q => p.Extends q ∧ d = p.decls.size ∧
      q.decls.size = d + 1 ∧ q.decl d = ⟨d, name, scope, .function type [] none []⟩ :=
  .get_bind (.guard trivial fun _ => pushDecl_gives name scope _)

theorem param_gives (function : DeclId) (name : String) (type : QualType) (index : Nat) :
    Gives (param function name type index) p fun d q => p.Extends q ∧ d = p.decls.size ∧
      q.decls.size = d + 1 ∧ q.decl d = ⟨d, name, .function function, .param type index⟩ :=
  .get_bind (.guard trivial fun _ => pushDecl_gives name _ _)

theorem varDecl_gives (scope : Scope) (name : String) (type : QualType) (storage : Storage) :
    Gives (varDecl scope name type storage) p fun d q => p.Extends q ∧ d = p.decls.size ∧
      q.decls.size = d + 1 ∧ q.decl d = ⟨d, name, scope, .var type none storage⟩ :=
  .get_bind (.guard trivial fun _ => pushDecl_gives name scope _)

theorem fieldDecl_gives (record : DeclId) (name : String) (type : QualType) :
    Gives (fieldDecl record name type) p fun d q => p.Extends q ∧ d = p.decls.size ∧
      q.decls.size = d + 1 ∧ ¬ (q.decl d).kind.IsValue := by
  refine .get_bind ?_
  dsimp only
  split
  · refine .guard trivial fun _ => (pushDecl_gives name _ _).bind ?_
    rintro d q ⟨hq, hd, hs, hdecl⟩
    refine (addDecl_gives _ d).bind fun _ r ⟨hr, hsize⟩ => .pure ⟨hq.trans hr, hd, hsize.trans hs, ?_⟩
    have hkind := (hr.grows.decls d (by omega)).2
    rw [DeclKind.isValue_of_settled_eq hkind, hdecl]
    exact id
  · exact .throw _ trivial

theorem setParams_gives (function : DeclId) (params : List DeclId) :
    Gives (setParams function params) p fun _ q => ∃ type old body locals,
      (p.decl function).kind = .function type old body locals ∧
      q = p.setDeclKind function (.function type params body locals) := by
  refine .get_bind ?_
  dsimp only
  split
  · next type old body locals hk =>
      split
      · split
        · exact .throw _ trivial
        · exact ⟨type, old, body, locals, hk, rfl⟩
      · exact .throw _ trivial
  · exact .throw _ trivial

theorem setBody_gives (function : DeclId) (body : StmtId) :
    Gives (setBody function body) p fun _ q => ∃ type params old locals,
      (p.decl function).kind = .function type params old locals ∧
      q = p.setDeclKind function (.function type params (some body) locals) := by
  refine .get_bind ?_
  dsimp only
  split
  · next type params old locals hk => exact ⟨type, params, old, locals, hk, rfl⟩
  · exact .throw _ trivial

theorem setInit_gives (var : DeclId) (init : ExprId) :
    Gives (setInit var init) p fun _ q => ∃ r type old storage, p.TypesOnly r ∧
      (p.decl var).kind = .var type old storage ∧
      q = r.setDeclKind var (.var type (some init) storage) := by
  refine .get_bind ?_
  dsimp only
  split
  · next type old storage hk =>
      refine typed_gives (initializable_moves _ _) fun _ r hr => ?_
      exact ⟨r, type, old, storage, hr, hk, rfl⟩
  · exact .throw _ trivial

end Check

end Readback
