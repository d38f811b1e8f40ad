import Readback.Proofs.Data.Interned
import Readback.Proofs.Typing.Growth

/-! # Adding types and expressions

Deciding a type and building an expression come down to two steps: interning a type over types that are
there, and appending an expression of a type that is there over expressions that are there.
`Program.Adds p q` says that such steps lead from `p` to `q`. It is an inductive relation, so a property
that both steps keep is kept by everything in this module.

* `TypeArena.Ordered` says that every type stands after its parts, and `Program.WellTyped` that in
  addition the types of expressions and declarations exist. Additions keep both (`Adds.wellTyped`,
  `Adds.ordered`), and in ordered arenas unfolding a type needs no bound beyond its position
  (`Ordered.treeAux_eq`).
* Types that are known keep their nodes (`Adds.node`), and declarations and what is listed stay as they
  are (`Adds.decls`, `Adds.topLevel`).
* `AddsType`, `AddsExpr` and `AddsNew` are the postconditions of steps: additions lead to a program
  where the type, the expression, or the new expression is.

Then there is one lemma `f_adds` per step `f`, in the order in which they build on each other: making
types (`pointerTo_adds`, `functionType_adds`), conversions (`decay_adds`, `promote_adds`,
`usualConversions_adds`), checks (`assignable_adds`, `condition_adds`), operators (`binaryType_adds`)
and at last expressions (`cast_adds`, `binary_adds`, `call_adds`). A step that fails has made additions
up to the point where it failed, and the lemmas say so too, since types that were interned stay.

`Program.RefsKnown` is about references, which have to name declarations that are there; it is separate
because additions know nothing of declarations. -/

namespace Readback

open Step

/-- The types directly inside a type. -/
def TypeNode.parts : TypeNode → List QualType
  | .pointer pointee => [pointee]
  | .array element _ => [element]
  | .function result params _ => result :: params
  | _ => []

/-! ### Interned types -/

namespace TypeArena

/-- Every type stands after its parts. -/
def Ordered (a : TypeArena) : Prop :=
  ∀ (i : TypeRef) (node : TypeNode), a.get? i = some node → ∀ t ∈ node.parts, t.ref < i

theorem Ordered.part {a : TypeArena} (h : a.Ordered) {t x : QualType} (hx : x ∈ (a.node t).parts) :
    x.ref < t.ref := by
  unfold node at hx
  cases hn : a.get? t.ref with
  | none =>
      rw [hn] at hx
      cases hx
  | some n =>
      rw [hn] at hx
      exact h t.ref n hn x hx

/-- Unfolding a type needs no bound beyond its position. -/
theorem Ordered.treeAux_eq {a : TypeArena} (h : a.Ordered) :
    ∀ (m n : Nat) (t : QualType), t.ref < m → t.ref < n → a.treeAux m t = a.treeAux n t := by
  intro m
  induction m with
  | zero => exact fun n t hm => absurd hm (Nat.not_lt_zero _)
  | succ m ih =>
      intro n t hm hn
      obtain ⟨n, rfl⟩ := Nat.exists_eq_add_one_of_ne_zero (Nat.ne_zero_of_lt hn)
      have hpart : ∀ x ∈ (a.node t).parts, a.treeAux m x = a.treeAux n x := fun x hx =>
        ih n x (Nat.lt_of_lt_of_le (h.part hx) (Nat.le_of_lt_succ hm))
          (Nat.lt_of_lt_of_le (h.part hx) (Nat.le_of_lt_succ hn))
      unfold treeAux
      cases hnode : a.node t with
      | builtin kind => rfl
      | record decl => rfl
      | pointer pointee => simp only [hpart pointee (by simp [hnode, TypeNode.parts])]
      | array element size => simp only [hpart element (by simp [hnode, TypeNode.parts])]
      | function result params isVariadic =>
          have hparams : params.map (a.treeAux m) = params.map (a.treeAux n) :=
            List.map_congr_left fun x hx => hpart x (by simp [hnode, TypeNode.parts, hx])
          simp only [hpart result (by simp [hnode, TypeNode.parts]), hparams]

theorem Ordered.intern {a : TypeArena} (h : a.Ordered) {node : TypeNode}
    (hnode : ∀ t ∈ node.parts, t.ref < a.size) : Ordered (a.intern node).2 := by
  intro i n hn t ht
  rcases Interned.get?_intern_eq_some hn with hold | ⟨rfl, rfl⟩
  · exact h i n hold t ht
  · exact hnode t ht

end TypeArena

/-! ### Programs -/

namespace Program

/-- The type is there. -/
def HasType (p : Program) (t : QualType) : Prop := t.ref < p.types.size

/-- The types inside a node and the declaration that it names are there. -/
structure Knows (p : Program) (node : TypeNode) : Prop where
  parts : ∀ t ∈ node.parts, p.HasType t
  record : ∀ d, node = .record d → d < p.decls.size

/-- Types stand after their parts, and the types of expressions and declarations are there. -/
structure WellTyped (p : Program) : Prop where
  types : p.types.Ordered
  exprs : ∀ e : Nat, e < p.exprs.size → p.HasType (p.expr e).type
  decls : ∀ d : Nat, d < p.decls.size → ∀ t, (p.decl d).type? = some t → p.HasType t

theorem WellTyped.part {p : Program} (h : p.WellTyped) {t x : QualType} (ht : p.HasType t)
    (hx : x ∈ (p.node t).parts) : p.HasType x := Nat.lt_trans (h.types.part hx) ht

theorem WellTyped.pointee {p : Program} (h : p.WellTyped) {t x : QualType} (ht : p.HasType t)
    (hx : p.pointee? t = some x) : p.HasType x := by
  unfold pointee? at hx
  split at hx
  · next hn =>
      cases hx
      exact h.part ht (by simp [hn, TypeNode.parts])
  · next hn =>
      cases hx
      exact h.part ht (by simp [hn, TypeNode.parts])
  · cases hx

theorem WellTyped.result {p : Program} (h : p.WellTyped) {t result : QualType}
    {params : List QualType} {isVariadic : Bool} (ht : p.HasType t)
    (hparts : p.functionParts? t = some (result, params, isVariadic)) : p.HasType result := by
  unfold functionParts? at hparts
  split at hparts
  · next hn =>
      cases hparts
      exact h.part ht (by simp [hn, TypeNode.parts])
  · cases hparts

theorem wellTyped_empty (target : Target) : (empty target).WellTyped where
  types i node h := by simp [empty, Interned.empty, Interned.get?] at h
  exprs e he := absurd he (Nat.not_lt_zero e)
  decls d hd := absurd hd (Nat.not_lt_zero d)

/-- References name declarations that are there. -/
def RefsKnown (p : Program) : Prop := ∀ e d, (p.expr e).kind = .ref d → d < p.decls.size

/-- Interning types over known types and appending expressions over known nodes lead from `p` to
`q`. -/
inductive Adds (p : Program) : Program → Prop where
  | refl : Adds p p
  | intern {q : Program} (before : Adds p q) (node : TypeNode) (known : q.Knows node) :
      Adds p (q.internNode node).2
  | push {q : Program} (before : Adds p q) (k : ExprKind) (t : QualType) (c : ValueCategory)
      (known : ∀ x ∈ k.parts, x < q.exprs.size) (type : q.HasType t)
      (refs : ∀ d, k = .ref d → d < q.decls.size) : Adds p (q.pushExpr k t c).2

namespace Adds

variable {p q r : Program}

theorem trans (h : p.Adds q) (h' : q.Adds r) : p.Adds r := by
  induction h' with
  | refl => exact h
  | intern _ node known ih => exact ih.intern node known
  | push _ k t c known type refs ih => exact ih.push k t c known type refs

instance : Std.Refl Adds := ⟨fun _ => .refl⟩

instance : IsTrans Program Adds := ⟨fun _ _ _ h h' => h.trans h'⟩

theorem decls (h : p.Adds q) : q.decls = p.decls := by
  induction h with
  | refl => rfl
  | intern _ _ _ ih => exact ih
  | push _ _ _ _ _ _ _ ih => exact ih

theorem topLevel (h : p.Adds q) : q.topLevel = p.topLevel := by
  induction h with
  | refl => rfl
  | intern _ _ _ ih => exact ih
  | push _ _ _ _ _ _ _ ih => exact ih

theorem types_size (h : p.Adds q) : p.types.size ≤ q.types.size := by
  induction h with
  | refl => exact Nat.le_refl _
  | intern _ node _ ih => exact Nat.le_trans ih (Interned.size_le_intern _ node)
  | push _ _ _ _ _ _ _ ih => exact ih

theorem hasType (h : p.Adds q) {t : QualType} (ht : p.HasType t) : q.HasType t :=
  Nat.lt_of_lt_of_le ht h.types_size

/-- The node of a known type stays as it is. -/
theorem node (h : p.Adds q) {t : QualType} (ht : p.HasType t) : q.node t = p.node t := by
  induction h with
  | refl => rfl
  | push _ _ _ _ _ _ _ ih => exact ih
  | @intern q before n _ ih =>
      rw [← ih]
      have hlt : t.ref < q.types.size := before.hasType ht
      show TypeArena.node (q.types.intern n).2 t = TypeArena.node q.types t
      unfold TypeArena.node
      rw [q.types.get?_intern_of_lt n hlt]

theorem «extends» (h : p.Adds q) : p.Extends q := by
  induction h with
  | refl => exact .refl p
  | intern _ node _ ih => exact ih.trans (TypesOnly.extends rfl)
  | push _ k t c _ _ _ ih => exact ih.trans (pushExpr_extends _ k t c)

theorem exprs_size (h : p.Adds q) : p.exprs.size ≤ q.exprs.size := h.extends.grows.exprs.1

theorem wellTyped (h : p.Adds q) (hp : p.WellTyped) : q.WellTyped := by
  induction h with
  | refl => exact hp
  | @intern q _ node known ih =>
      have hle := Interned.size_le_intern q.types node
      exact ⟨ih.types.intern known.parts, fun e he => Nat.lt_of_lt_of_le (ih.exprs e he) hle,
        fun d hd t ht => Nat.lt_of_lt_of_le (ih.decls d hd t ht) hle⟩
  | @push q _ k t c _ type _ ih =>
      refine ⟨ih.types, fun e he => ?_, ih.decls⟩
      have hsize : (q.pushExpr k t c).2.exprs.size = q.exprs.size + 1 := by simp [pushExpr, pushStmt]
      show ((q.pushExpr k t c).2.expr e).type.ref < q.types.size
      obtain hlt | rfl := Nat.lt_or_eq_of_le (Nat.le_of_lt_succ (hsize ▸ he))
      · rw [q.expr_pushExpr_of_lt k t c hlt]
        exact ih.exprs e hlt
      · rw [q.expr_pushExpr_self k t c]
        exact type

theorem ordered (h : p.Adds q) (hp : p.Ordered) : q.Ordered := by
  induction h with
  | refl => exact hp
  | intern _ _ _ ih => exact ih
  | @push q _ k t c known _ _ ih =>
      intro e x hx
      rcases Nat.lt_trichotomy e q.exprs.size with hlt | rfl | hgt
      · rw [q.expr_pushExpr_of_lt k t c hlt] at hx
        exact ih e x hx
      · rw [q.expr_pushExpr_self k t c] at hx
        exact known x hx
      · rw [expr_of_size_le (by simp [pushExpr, pushStmt]; omega)] at hx
        cases hx

theorem refsKnown (h : p.Adds q) (hp : p.RefsKnown) : q.RefsKnown := by
  induction h with
  | refl => exact hp
  | intern _ _ _ ih => exact ih
  | @push q _ k t c _ _ refs ih =>
      intro e d he
      rcases Nat.lt_trichotomy e q.exprs.size with hlt | rfl | hgt
      · rw [q.expr_pushExpr_of_lt k t c hlt] at he
        exact ih e d he
      · rw [q.expr_pushExpr_self k t c] at he
        exact refs d he
      · rw [expr_of_size_le (by simp [pushExpr, pushStmt]; omega)] at he
        cases he

end Adds

/-- Additions lead from `p` to `q`, where the type is. -/
def AddsType (p : Program) (t : QualType) (q : Program) : Prop := p.Adds q ∧ q.HasType t

/-- Additions lead from `p` to `q`, where the expression is. -/
def AddsExpr (p : Program) (e : ExprId) (q : Program) : Prop := p.Adds q ∧ e < q.exprs.size

/-- Additions lead from `p` to `q`, where the expression is new. -/
def AddsNew (p : Program) (e : ExprId) (q : Program) : Prop := p.Adds q ∧ p.IsNew q e

theorem AddsNew.addsExpr {p q : Program} {e : ExprId} (h : p.AddsNew e q) : p.AddsExpr e q :=
  ⟨h.1, h.2.2⟩

theorem Adds.new {p q r : Program} {e : ExprId} (h : p.Adds q) (h' : q.AddsNew e r) :
    p.AddsNew e r := ⟨h.trans h'.1, h'.2.mono h.extends.grows (.refl r)⟩

end Program

open Program

namespace Check

variable {p : Program}

/-! ### Types -/

theorem internNode_adds {node : TypeNode} (hn : p.Knows node) :
    Leads Adds (internNode node) p fun t q => q.HasType t :=
  ⟨.intern .refl node hn, Interned.intern_lt _ node⟩

theorem builtin_adds (kind : Builtin) : Leads Adds (builtin kind) p fun t q => q.HasType t :=
  internNode_adds ⟨by simp [TypeNode.parts], nofun⟩

theorem pointerTo_adds {t : QualType} (ht : p.HasType t) :
    Leads Adds (pointerTo t) p fun t q => q.HasType t :=
  internNode_adds ⟨by simpa [TypeNode.parts] using ht, nofun⟩

theorem arrayOf_adds {t : QualType} (ht : p.HasType t) (size : Option Nat) :
    Leads Adds (arrayOf t size) p fun t q => q.HasType t :=
  internNode_adds ⟨by simpa [TypeNode.parts] using ht, nofun⟩

theorem functionType_adds {result : QualType} (hr : p.HasType result) {params : List QualType}
    (hp : ∀ t ∈ params, p.HasType t) (isVariadic : Bool) :
    Leads Adds (functionType result params isVariadic) p fun t q => q.HasType t :=
  internNode_adds ⟨by simpa [TypeNode.parts] using ⟨hr, hp⟩, nofun⟩

theorem recordType_adds (d : DeclId) : Leads Adds (recordType d) p fun t q => q.HasType t := by
  refine .get_bind ?_
  dsimp only
  split
  · next hk =>
      refine internNode_adds ⟨by simp [TypeNode.parts], ?_⟩
      rintro _ ⟨⟩
      exact lt_of_kind_ne (by rw [hk]; exact nofun)
  · exact .throw _

theorem decay_adds (h : p.WellTyped) {t : QualType} (ht : p.HasType t) :
    Leads Adds (decay t) p fun t q => q.HasType t := by
  refine .get_bind ?_
  split
  · next element size hn =>
      exact pointerTo_adds (h.part ht (by simp [hn, TypeNode.parts]))
  · exact pointerTo_adds ht
  · exact .pure ht

theorem promote_adds {t : QualType} (ht : p.HasType t) :
    Leads Adds (promote t) p fun t q => q.HasType t := by
  refine .get_bind ?_
  split
  · split
    · exact builtin_adds _
    · exact .pure ht
  · exact .pure ht

theorem commonInteger_adds {lhs rhs : QualType} (hl : p.HasType lhs) (hr : p.HasType rhs) :
    Leads Adds (commonInteger lhs rhs) p fun t q => q.HasType t := by
  refine .get_bind ?_
  dsimp only
  repeat' split
  all_goals first
    | exact builtin_adds _
    | exact .pure hl
    | exact .pure hr

theorem usualConversions_adds {lhs rhs : QualType} (hl : p.HasType lhs) (hr : p.HasType rhs) :
    Leads Adds (usualConversions lhs rhs) p fun t q => q.HasType t := by
  refine .get_bind ?_
  have promoted : Leads Adds (do
      let lhs ← promote lhs
      let rhs ← promote rhs
      commonInteger lhs rhs) p fun t q => q.HasType t := by
    refine (promote_adds hl).bind fun l q hq hl => ?_
    refine (promote_adds (hq.hasType hr)).bind fun r u hu hr => ?_
    exact commonInteger_adds (hu.hasType hl) hr
  repeat' split
  all_goals first
    | exact promoted
    | exact .pure hl
    | exact .pure hr

/-! ### Checks -/

theorem storable_adds (e : ExprId) : Leads Adds (storable e) p fun _ q => q = p := by
  refine .get_bind ?_
  split
  · exact .throw _
  · exact .pure rfl

theorem assignable_adds (h : p.WellTyped) (target : QualType) {e : ExprId} (he : e < p.exprs.size) :
    Leads Adds (assignable target e) p fun _ _ => True := by
  refine .get_bind ((decay_adds h (h.exprs e he)).bind fun source q _ _ => .get_bind ?_)
  split
  · exact .throw _
  · exact .pure trivial

theorem initializable_adds (h : p.WellTyped) (target : QualType) {e : ExprId}
    (he : e < p.exprs.size) : Leads Adds (initializable target e) p fun _ _ => True := by
  refine .get_bind ?_
  split
  · exact .pure trivial
  · split
    · exact .pure trivial
    · exact assignable_adds h _ he
  · exact assignable_adds h _ he

theorem condition_adds (h : p.WellTyped) {e : ExprId} (he : e < p.exprs.size) :
    Leads Adds (condition e) p fun x _ => x = e := by
  refine .get_bind ((decay_adds h (h.exprs e he)).bind fun source q _ _ => .get_bind ?_)
  split
  · exact .pure rfl
  · exact .throw _

theorem returnable_adds (h : p.WellTyped) (name : String) (result : QualType)
    {value : Option ExprId} (hv : ∀ e, value = some e → e < p.exprs.size) :
    Leads Adds (returnable name result value) p fun _ _ => True := by
  refine .get_bind ?_
  cases value with
  | none =>
      dsimp only
      split
      · exact .throw _
      · exact .pure trivial
  | some e =>
      dsimp only
      split
      · split
        · exact .throw _
        · exact .pure trivial
      · exact assignable_adds h _ (hv e rfl)

/-! ### Operators -/

theorem unaryType_adds (h : p.WellTyped) (op : UnaryOp) {e : ExprId} (he : e < p.exprs.size) :
    Leads Adds (unaryType op e) p fun x q => q.HasType x.1 := by
  have ht := h.exprs e he
  refine .get_bind ?_
  cases op with
  | postInc | postDec | preInc | preDec =>
      exact (storable_adds e).bind fun _ q hq _ => .guard fun _ => .pure (hq.hasType ht)
  | addressOf => exact .guard fun _ => (pointerTo_adds ht).bind fun t q _ ht => .pure ht
  | deref =>
      refine (decay_adds h ht).bind fun t q hq ht => .get_bind ?_
      split
      · next hp => exact .pure ((hq.wellTyped h).pointee ht hp)
      · exact .throw _
  | plus | minus | bitNot =>
      exact .guard fun _ => (promote_adds ht).bind fun t q _ ht => .pure ht
  | logicalNot =>
      refine (decay_adds h ht).bind fun t q _ _ => .get_bind (.guard fun _ => ?_)
      exact (builtin_adds _).bind fun t r _ ht => .pure ht

theorem operatorType?_adds (h : p.WellTyped) (op : BinaryOp) {l r : QualType} (hl : p.HasType l)
    (hr : p.HasType r) (lhs : ExprId) {rhs : ExprId} (he : rhs < p.exprs.size) :
    Leads Adds (operatorType? op l r lhs rhs) p fun x q => ∀ t, x = some t → q.HasType t := by
  have decided {m : Check QualType} (hm : Leads Adds m p fun t q => q.HasType t) :
      Leads Adds (some <$> m) p fun x q => ∀ t, x = some t → q.HasType t :=
    .map (hm.imp fun t q _ ht => by rintro _ ⟨⟩; exact ht)
  have known {t : QualType} (ht : p.HasType t) :
      Leads Adds (pure (some t) : Check (Option QualType)) p fun x q =>
        ∀ t, x = some t → q.HasType t :=
    .pure (by rintro _ ⟨⟩; exact ht)
  refine .get_bind ?_
  dsimp only
  repeat' split
  all_goals first
    | exact decided (usualConversions_adds hl hr)
    | exact decided (promote_adds hl)
    | exact decided (builtin_adds _)
    | exact known hl
    | exact known hr
    | exact known (h.exprs rhs he)
    | exact .pure nofun

theorem operatorType_adds (h : p.WellTyped) (op : BinaryOp) {lhs rhs : ExprId}
    (hl : lhs < p.exprs.size) (hr : rhs < p.exprs.size) :
    Leads Adds (operatorType op lhs rhs) p fun t q => q.HasType t := by
  refine .get_bind ?_
  refine (decay_adds h (h.exprs lhs hl)).bind fun l q hq hl' => ?_
  refine (decay_adds (hq.wellTyped h) (hq.hasType (h.exprs rhs hr))).bind fun r u hu hr' => ?_
  have hpu := hq.trans hu
  refine (operatorType?_adds (hpu.wellTyped h) op (hu.hasType hl') hr' lhs
    (Nat.lt_of_lt_of_le hr hpu.exprs_size)).bind fun x v _ hx => ?_
  split
  · exact .pure (hx _ rfl)
  · exact .get_bind (.throw _)

theorem binaryType_adds (h : p.WellTyped) (op : BinaryOp) {lhs rhs : ExprId}
    (hl : lhs < p.exprs.size) (hr : rhs < p.exprs.size) :
    Leads Adds (binaryType op lhs rhs) p fun t q => q.HasType t := by
  have ht := h.exprs lhs hl
  refine .get_bind ?_
  dsimp only
  split
  · refine (storable_adds lhs).bind ?_
    rintro _ _ _ rfl
    exact (assignable_adds h _ hr).bind fun _ r hr _ => .pure (hr.hasType ht)
  · split
    · next base _ =>
        refine (storable_adds lhs).bind ?_
        rintro _ _ _ rfl
        exact (operatorType_adds h base hl hr).bind fun _ r hr _ => .pure (hr.hasType ht)
    · exact operatorType_adds h op hl hr

/-! ### Expressions -/

theorem pushExpr_adds {k : ExprKind} {t : QualType} (c : ValueCategory)
    (hk : ∀ x ∈ k.parts, x < p.exprs.size) (ht : p.HasType t)
    (refs : ∀ d, k = .ref d → d < p.decls.size) :
    Leads Adds (pushExpr k t c) p fun e q => p.IsNew q e :=
  ⟨.push .refl k t c hk ht refs, Nat.le_refl _, by simp⟩

theorem declRef_adds (h : p.WellTyped) {d : DeclId} (hd : d < p.decls.size) :
    Leads Adds (declRef d) p fun e q => p.IsNew q e := by
  have leaf (t : QualType) (ht : (p.decl d).type? = some t) :
      Leads Adds (pushExpr (.ref d) t .lvalue) p fun e q => p.IsNew q e :=
    pushExpr_adds _ (by simp [ExprKind.parts]) (h.decls d hd t ht) fun _ heq =>
      ExprKind.ref.inj heq ▸ hd
  refine .get_bind ?_
  dsimp only
  split
  · next hk => exact leaf _ (by rw [Decl.type?, hk])
  · next hk => exact leaf _ (by rw [Decl.type?, hk])
  · next hk => exact leaf _ (by rw [Decl.type?, hk])
  · exact .throw _
  · exact .throw _

theorem paren_adds (h : p.WellTyped) {e : ExprId} (he : e < p.exprs.size) :
    Leads Adds (paren e) p fun x q => p.IsNew q x :=
  .get_bind (pushExpr_adds _ (by simpa [ExprKind.parts] using he) (h.exprs e he) nofun)

theorem parenBelow_adds (h : p.WellTyped) {e : ExprId} (he : e < p.exprs.size) (least : Precedence) :
    Leads Adds (parenBelow e least) p fun x q => x < q.exprs.size := by
  refine .get_bind ?_
  split
  · exact (paren_adds h he).imp fun _ _ _ hx => hx.2
  · exact .pure he

theorem parenUpTo_adds (h : p.WellTyped) {e : ExprId} (he : e < p.exprs.size) (most : Precedence) :
    Leads Adds (parenUpTo e most) p fun x q => x < q.exprs.size := by
  refine .get_bind ?_
  split
  · exact (paren_adds h he).imp fun _ _ _ hx => hx.2
  · exact .pure he

theorem listed_adds (h : p.WellTyped) {es : List ExprId} (hes : ∀ e ∈ es, e < p.exprs.size) :
    Leads Adds (listed es) p fun xs q => ∀ x ∈ xs, x < q.exprs.size := by
  unfold listed
  induction es generalizing p with
  | nil => exact .pure (by simp)
  | cons e es ih =>
      rw [List.mapM_cons]
      refine (parenUpTo_adds h (hes e List.mem_cons_self) .comma).bind fun x q hq hx => ?_
      have hes' : ∀ y ∈ es, y < q.exprs.size := fun y hy =>
        Nat.lt_of_lt_of_le (hes y (List.mem_cons_of_mem e hy)) hq.exprs_size
      refine (ih (hq.wellTyped h) hes').bind fun xs r hr hxs => .pure fun y hy => ?_
      obtain rfl | hy := List.mem_cons.mp hy
      · exact Nat.lt_of_lt_of_le hx hr.exprs_size
      · exact hxs y hy

theorem integer_adds (value : Int) {t : QualType} (ht : p.HasType t) :
    Leads Adds (integer value t) p fun e q => p.IsNew q e := by
  refine .get_bind ?_
  split
  · exact .throw _
  · exact pushExpr_adds _ (by simp [ExprKind.parts]) ht nofun

theorem floating_adds (value : Binary64) {t : QualType} (ht : p.HasType t) :
    Leads Adds (floating value t) p fun e q => p.IsNew q e := by
  refine .get_bind ?_
  split
  · exact .throw _
  · exact pushExpr_adds _ (by simp [ExprKind.parts]) ht nofun

/-- What is new after additions was not there before them. -/
theorem adds_since {q : Program} {m : Check ExprId} (hq : p.Adds q)
    (hm : Leads Adds m q fun e r => q.IsNew r e) : Leads Adds m q fun e r => p.IsNew r e :=
  hm.imp fun _ r _ he => he.mono hq.extends.grows (.refl r)

theorem text_adds (value : String) : Leads Adds (text value) p fun e q => p.IsNew q e := by
  refine (builtin_adds _).bind fun char q hq hc => ?_
  refine (arrayOf_adds hc _).bind fun t r hr ht => ?_
  exact adds_since (hq.trans hr) (pushExpr_adds _ (by simp [ExprKind.parts]) ht nofun)

theorem cast_adds (h : p.WellTyped) (style : CastStyle) (c : Conversion) {t : QualType}
    (ht : p.HasType t) {e : ExprId} (he : e < p.exprs.size) (category : ValueCategory) :
    Leads Adds (cast style c t e category) p fun e q => p.IsNew q e := by
  cases style with
  | implicit => exact pushExpr_adds _ (by simpa [ExprKind.parts] using he) ht (by simp)
  | explicit =>
      refine .get_bind (.guard fun _ => ?_)
      refine (parenBelow_adds h he .unary).bind fun x q hq hx => ?_
      exact adds_since hq
        (pushExpr_adds _ (by simpa [ExprKind.parts] using hx) (hq.hasType ht) (by simp))

theorem unary_adds (h : p.WellTyped) (op : UnaryOp) {e : ExprId} (he : e < p.exprs.size) :
    Leads Adds (unary op e) p fun e q => p.IsNew q e := by
  refine (unaryType_adds h op he).bind fun ⟨t, c⟩ q hq ht => ?_
  refine (parenBelow_adds (hq.wellTyped h) (Nat.lt_of_lt_of_le he hq.exprs_size) _).bind
    fun x r hr hx => ?_
  exact adds_since (hq.trans hr)
    (pushExpr_adds _ (by simpa [ExprKind.parts] using hx) (hr.hasType ht) nofun)

theorem binary_adds (h : p.WellTyped) (op : BinaryOp) {lhs rhs : ExprId} (hl : lhs < p.exprs.size)
    (hr : rhs < p.exprs.size) : Leads Adds (binary op lhs rhs) p fun e q => p.IsNew q e := by
  refine (binaryType_adds h op hl hr).bind fun t q hq ht => ?_
  have push {l r : ExprId} {s u : Program} (hs : q.Adds s) (hl : l < s.exprs.size) (hu : s.Adds u)
      (hr : r < u.exprs.size) :
      Leads Adds (pushExpr (.binary op l r) t .rvalue) u fun e q => p.IsNew q e := by
    have hl := Nat.lt_of_lt_of_le hl hu.exprs_size
    exact adds_since (hq.trans (hs.trans hu))
      (pushExpr_adds _ (by simpa [ExprKind.parts] using ⟨hl, hr⟩) ((hs.trans hu).hasType ht) nofun)
  have hl' := Nat.lt_of_lt_of_le hl hq.exprs_size
  have hr' {s : Program} (hs : q.Adds s) := Nat.lt_of_lt_of_le hr (hq.trans hs).exprs_size
  have hq' := hq.wellTyped h
  split
  · refine (parenUpTo_adds hq' hl' _).bind fun l s hs hl => ?_
    refine (parenBelow_adds (hs.wellTyped hq') (hr' hs) _).bind fun r u hu hr => ?_
    exact push hs hl hu hr
  · refine (parenBelow_adds hq' hl' _).bind fun l s hs hl => ?_
    refine (parenUpTo_adds (hs.wellTyped hq') (hr' hs) _).bind fun r u hu hr => ?_
    exact push hs hl hu hr

theorem initList_adds (h : p.WellTyped) {t : QualType} (ht : p.HasType t) {es : List ExprId}
    (hes : ∀ e ∈ es, e < p.exprs.size) :
    Leads Adds (initList t es) p fun e q => p.IsNew q e := by
  refine (listed_adds h hes).bind fun xs q hq hxs => ?_
  exact adds_since hq (pushExpr_adds (k := .initList xs) _ hxs (hq.hasType ht) nofun)

/-- The result of what is called is there. -/
theorem calleeParts_hasType (h : p.WellTyped) {t result : QualType} {params : List QualType}
    {isVariadic : Bool} (ht : p.HasType t)
    (hparts : calleeParts? p t = some (result, params, isVariadic)) : p.HasType result := by
  unfold calleeParts? at hparts
  split at hparts
  · exact h.result ht hparts
  · obtain ⟨x, hx, hparts⟩ := Option.bind_eq_some_iff.mp hparts
    exact h.result (h.pointee ht hx) hparts

theorem call_adds (h : p.WellTyped) {callee : ExprId} (hc : callee < p.exprs.size)
    {args : List ExprId} (ha : ∀ e ∈ args, e < p.exprs.size) :
    Leads Adds (call callee args) p fun e q => p.IsNew q e := by
  refine .get_bind ?_
  dsimp only
  split
  · exact .throw _
  · next result params isVariadic hparts =>
      have ht := calleeParts_hasType h (h.exprs callee hc) hparts
      refine .guard fun _ => ?_
      refine (parenBelow_adds h hc .suffixed).bind fun x q hq hx => ?_
      have ha' : ∀ e ∈ args, e < q.exprs.size := fun e he => Nat.lt_of_lt_of_le (ha e he) hq.exprs_size
      refine (listed_adds (hq.wellTyped h) ha').bind fun xs r hr hxs => ?_
      have hx := Nat.lt_of_lt_of_le hx hr.exprs_size
      have hresult : r.HasType result.unqualified := (hq.trans hr).hasType ht
      refine adds_since (hq.trans hr) (pushExpr_adds (k := .call x xs) _ ?_ hresult nofun)
      simpa [ExprKind.parts] using ⟨hx, hxs⟩

end Check

end Readback
