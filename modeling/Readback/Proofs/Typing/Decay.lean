import Readback.Proofs.Program.Types
import Readback.Proofs.Typing.Atomicity
import Readback.Proofs.Typing.Repetition

/-! # Elements of arrays

The qualifiers of an array are printed as those of its elements. Decay does not see it so: a pointer to
an element points to the element type alone, and the qualifiers of the array are lost on the way to an
element. So an element can be stored to unless its own type forbids it, whatever qualifiers the array
has.

* `WellTyped.declarator_array` is the first half: an array with qualifiers is declared as its elements
  with these qualifiers in addition, as it is in C.
* Decay gives a pointer to the element type as it stands in the array (`decay_array`). Following that
  pointer (`unaryType_deref`) and moving it by an integer (`operatorType_pointer`) keep the type that it
  points to, in either order of the operands (`operatorType?_pointer`).
* The checks of an operation are over once its type is known: putting parentheses around operands and
  making the expression cannot fail (`unary_ok`, `binary_ok`). So whether an operation that stores is
  accepted is said by its checks alone (`step_ok_iff`, `assign_ok_iff`, `compound_ok_iff`).
* `Program.StoredAs` puts these together: the expression is a place of a type, and every operation that
  stores to it is judged by that type alone. `Program.LeadsTo` says of a pointer that following it leads
  to such a place.

The main result is `Program.Constructed.element_type`: for an array `x` with any qualifiers, `*x` is a
place of just the element type, and so is what a pointer that was moved within the array leads to. The
elements of a constant array can be changed for that reason (`Constructed.element_type_const`). -/

namespace Readback

open Step

namespace Program

variable {p : Program}

theorem node_internNode_self (p : Program) (node : TypeNode) :
    (p.internNode node).2.node (p.internNode node).1 = node := by
  show ((p.types.intern node).2.get? (p.types.intern node).1).getD _ = node
  rw [Interned.get?_intern_self]
  rfl

theorem node_internNode {t : QualType} (ht : p.HasType t) (node : TypeNode) :
    (p.internNode node).2.node t = p.node t := by
  show ((p.types.intern node).2.get? t.ref).getD _ = (p.types.get? t.ref).getD _
  rw [Interned.get?_intern_of_lt _ _ ht]

/-- An array is declared as its elements with its qualifiers. -/
theorem WellTyped.declarator_array (h : p.WellTyped) {t element : QualType} {size : Option Nat}
    (ht : p.node t = .array element size) (name : String) :
    p.declarator t name =
      p.declarator (element.withQuals t.quals) (name ++ "[" ++ size.elim "" toString ++ "]") := by
  have htree : p.types.tree t = .array t.quals (p.types.tree element) size := by
    rw [h.types.tree_eq, show p.types.node t = _ from ht]
  rw [declarator, declarator, htree, TypeArena.tree_withQuals, CType.declarator_qualified,
    CType.declarator]

end Program

namespace Check

open Program

variable {p : Program} {t element : QualType}

/-! ### Types of pointers into an array -/

theorem decay_array {size : Option Nat} (ht : p.node t = .array element size) :
    decay t p = .ok (p.internNode (.pointer element)).1 (p.internNode (.pointer element)).2 := by
  unfold decay
  rw [get_bind, ht]
  rfl

theorem decay_pointer (ht : p.node t = .pointer element) : decay t p = .ok t p := by
  unfold decay
  rw [get_bind, ht]
  rfl

theorem decay_integer (ht : p.isInteger t = true) : decay t p = .ok t p := by
  unfold isInteger builtin? at ht
  unfold decay
  rw [get_bind]
  cases hn : p.node t with
  | builtin kind => rfl
  | _ =>
      rw [hn] at ht
      cases ht

theorem unaryType_deref {x : ExprId} {ptr : QualType} {q : Program}
    (hdecay : decay (p.expr x).type p = .ok ptr q) (hptr : q.node ptr = .pointer element) :
    unaryType .deref x p = .ok (element, .lvalue) q := by
  unfold unaryType
  rw [get_bind]
  dsimp only
  rw [bind_of_ok hdecay, get_bind, pointee?, hptr]
  rfl

/-- A pointer and an integer, in the order in which the operator takes them. -/
theorem operatorType?_pointer {l r : QualType} (hl : p.node l = .pointer element)
    (hr : p.isInteger r = true) (lhs rhs : ExprId) :
    operatorType? .add l r lhs rhs p = .ok (some l.unqualified) p ∧
      operatorType? .sub l r lhs rhs p = .ok (some l.unqualified) p ∧
      operatorType? .add r l lhs rhs p = .ok (some l.unqualified) p := by
  have hpointer : p.isPointer l = true := by rw [isPointer, hl]
  have harithmetic : p.isArithmetic l = false := by rw [isArithmetic, builtin?, hl]; rfl
  have hother : p.isPointer r = false := by
    unfold isInteger builtin? at hr
    unfold isPointer
    cases hn : p.node r with
    | pointer _ =>
        rw [hn] at hr
        cases hr
    | _ => rfl
  refine ⟨?_, ?_, ?_⟩
  · show (if (p.isArithmetic l && p.isArithmetic r) = true then _
      else if (p.isPointer l && p.isInteger r) = true then _ else _ : Check (Option QualType)) p = _
    rw [harithmetic, hpointer, hr]
    rfl
  · show (if (p.isArithmetic l && p.isArithmetic r) = true then _
      else if (p.isPointer l && p.isInteger r) = true then _ else _ : Check (Option QualType)) p = _
    rw [harithmetic, hpointer, hr]
    rfl
  · show (if (p.isArithmetic r && p.isArithmetic l) = true then _
      else if (p.isPointer r && p.isInteger l) = true then _
      else if (p.isInteger r && p.isPointer l) = true then _ else _ : Check (Option QualType)) p = _
    rw [harithmetic, hpointer, hr, hother, Bool.and_false]
    rfl

/-- The type of a pointer into an array, moved by an integer. -/
theorem operatorType_pointer {x i : ExprId} {ptr : QualType} {q : Program}
    (hdecay : decay (p.expr x).type p = .ok ptr q) (hptr : q.node ptr = .pointer element)
    (hi : p.isInteger (p.expr i).type = true) (hi' : q.isInteger (p.expr i).type = true) :
    operatorType .add x i p = .ok ptr.unqualified q ∧
      operatorType .sub x i p = .ok ptr.unqualified q ∧
      operatorType .add i x p = .ok ptr.unqualified q := by
  have forward : ∀ op, operatorType? op ptr (p.expr i).type x i q = .ok (some ptr.unqualified) q →
      operatorType op x i p = .ok ptr.unqualified q := by
    intro op hop
    show (decay (p.expr x).type >>= fun l => decay (p.expr i).type >>= fun r =>
      operatorType? op l r x i >>= fun _ => _ : Check QualType) p = _
    rw [bind_of_ok hdecay, bind_of_ok (decay_integer hi'), bind_of_ok hop]
    rfl
  obtain ⟨hadd, hsub, -⟩ := operatorType?_pointer hptr hi' x i
  obtain ⟨-, -, hback⟩ := operatorType?_pointer hptr hi' i x
  refine ⟨forward .add hadd, forward .sub hsub, ?_⟩
  show (decay (p.expr i).type >>= fun l => decay (p.expr x).type >>= fun r =>
    operatorType? .add l r i x >>= fun _ => _ : Check QualType) p = _
  rw [bind_of_ok (decay_integer hi), bind_of_ok hdecay, bind_of_ok hback]
  rfl

/-! ### Accepted operations -/

/-- Parentheses can always be made and intern no type. -/
theorem parenBelow_ok (e : ExprId) (least : Precedence) (p : Program) :
    ∃ x q, parenBelow e least p = .ok x q ∧ q.types = p.types := by
  show ∃ x q, (if p.precedence e < least then _ else _ : Check ExprId) p = .ok x q ∧ _
  split
  · exact ⟨_, _, rfl, rfl⟩
  · exact ⟨_, _, rfl, rfl⟩

theorem parenUpTo_ok (e : ExprId) (most : Precedence) (p : Program) :
    ∃ x q, parenUpTo e most p = .ok x q ∧ q.types = p.types := by
  show ∃ x q, (if p.precedence e ≤ most then _ else _ : Check ExprId) p = .ok x q ∧ _
  split
  · exact ⟨_, _, rfl, rfl⟩
  · exact ⟨_, _, rfl, rfl⟩

/-- An operator application is made once its type is known. -/
theorem unary_ok {op : UnaryOp} {x : ExprId} {c : ValueCategory} {q : Program}
    (htype : unaryType op x p = .ok (t, c) q) :
    ∃ e r, unary op x p = .ok e r ∧ r.types = q.types ∧ (r.expr e).type = t ∧
      (r.expr e).category = c := by
  obtain ⟨x', r, hparen, htypes⟩ := parenBelow_ok x op.precedence q
  refine ⟨r.exprs.size, (r.pushExpr (.unary op x') t c).2, ?_, htypes, ?_, ?_⟩
  · show (unaryType op x >>= fun _ => _ : Check ExprId) p = _
    rw [bind_of_ok htype]
    exact bind_of_ok hparen _
  · rw [expr_pushExpr_self]
  · rw [expr_pushExpr_self]

theorem binary_ok {op : BinaryOp} {x y : ExprId} {q : Program}
    (htype : binaryType op x y p = .ok t q) :
    ∃ e r, binary op x y p = .ok e r ∧ r.types = q.types ∧ (r.expr e).type = t := by
  have made : ∀ x' y' r, r.types = q.types → ∃ e s,
      pushExpr (.binary op x' y') t .rvalue r = .ok e s ∧ s.types = q.types ∧ (s.expr e).type = t :=
    fun x' y' r hr => ⟨r.exprs.size, (r.pushExpr (.binary op x' y') t .rvalue).2, rfl, hr, by
      rw [expr_pushExpr_self]⟩
  show ∃ e r, (binaryType op x y >>= fun _ => _ : Check ExprId) p = .ok e r ∧ _
  rw [bind_of_ok htype]
  split
  · obtain ⟨x', r, hx, hr⟩ := parenUpTo_ok x op.precedence q
    obtain ⟨y', r', hy, hr'⟩ := parenBelow_ok y op.precedence r
    rw [bind_of_ok hx, bind_of_ok hy]
    exact made x' y' r' (hr'.trans hr)
  · obtain ⟨x', r, hx, hr⟩ := parenBelow_ok x op.precedence q
    obtain ⟨y', r', hy, hr'⟩ := parenUpTo_ok y op.precedence r
    rw [bind_of_ok hx, bind_of_ok hy]
    exact made x' y' r' (hr'.trans hr)

/-- What is made after a type is known cannot fail. -/
theorem unary_ok_iff {op : UnaryOp} {x : ExprId} :
    (∃ e r, unary op x p = .ok e r) ↔ ∃ t q, unaryType op x p = .ok t q := by
  constructor
  · rintro ⟨e, r, h⟩
    obtain ⟨t, q, hq, -⟩ := bind_eq_ok.mp h
    exact ⟨t, q, hq⟩
  · rintro ⟨⟨t, c⟩, q, h⟩
    obtain ⟨e, r, hr, -⟩ := unary_ok h
    exact ⟨e, r, hr⟩

theorem binary_ok_iff {op : BinaryOp} {x y : ExprId} :
    (∃ e r, binary op x y p = .ok e r) ↔ ∃ t q, binaryType op x y p = .ok t q := by
  constructor
  · rintro ⟨e, r, h⟩
    obtain ⟨t, q, hq, -⟩ := bind_eq_ok.mp h
    exact ⟨t, q, hq⟩
  · rintro ⟨t, q, h⟩
    obtain ⟨e, r, hr, -⟩ := binary_ok h
    exact ⟨e, r, hr⟩

/-! ### Operations that store -/

theorem storable_eq_ok {x : ExprId} {q : Program} :
    storable x p = .ok () q ↔ p.storeFault? x = none ∧ q = p := by
  unfold storable
  rw [get_bind]
  cases p.storeFault? x with
  | some fault =>
      constructor
      · intro h
        cases h
      · rintro ⟨h, -⟩
        cases h
  | none =>
      constructor
      · intro h
        cases h
        exact ⟨rfl, rfl⟩
      · rintro ⟨-, rfl⟩
        rfl

theorem step_ok_iff {op : UnaryOp} (hop : op.isStep = true) {x : ExprId} :
    (∃ e r, unary op x p = .ok e r) ↔
      p.storeFault? x = none ∧ p.isScalar (p.expr x).type = true := by
  have htype : unaryType op x p = (storable x >>= fun _ =>
      if (!p.isScalar (p.expr x).type) = true then throw (operandFault p op (p.expr x).type)
      else pure ((p.expr x).type.unqualified, .rvalue) : Check (QualType × ValueCategory)) p := by
    cases op <;> first | rfl | cases hop
  rw [unary_ok_iff, htype]
  constructor
  · rintro ⟨a, q, h⟩
    obtain ⟨_, r, hstore, hrest⟩ := bind_eq_ok.mp h
    cases hscalar : p.isScalar (p.expr x).type with
    | true => exact ⟨(storable_eq_ok.mp hstore).1, rfl⟩
    | false =>
        rw [hscalar] at hrest
        cases hrest
  · rintro ⟨hstore, hscalar⟩
    rw [bind_of_ok (storable_eq_ok.mpr ⟨hstore, rfl⟩), hscalar]
    exact ⟨_, _, rfl⟩

theorem assign_ok_iff {x v : ExprId} :
    (∃ e r, binary .assign x v p = .ok e r) ↔ p.storeFault? x = none ∧
      ∃ r, assignable (p.expr x).type.unqualified v p = .ok () r := by
  rw [binary_ok_iff]
  show (∃ t q, (storable x >>= fun _ => assignable (p.expr x).type.unqualified v >>= fun _ =>
    pure (p.expr x).type.unqualified : Check QualType) p = .ok t q) ↔ _
  constructor
  · rintro ⟨t, q, h⟩
    obtain ⟨_, r, hstore, hrest⟩ := bind_eq_ok.mp h
    obtain ⟨hnone, rfl⟩ := storable_eq_ok.mp hstore
    obtain ⟨_, r', hassign, -⟩ := bind_eq_ok.mp hrest
    exact ⟨hnone, r', hassign⟩
  · rintro ⟨hnone, r, hassign⟩
    rw [bind_of_ok (storable_eq_ok.mpr ⟨hnone, rfl⟩), bind_of_ok hassign]
    exact ⟨_, _, rfl⟩

theorem compound_ok_iff {op base : BinaryOp} (hop : op.compoundBase? = some base) {x v : ExprId} :
    (∃ e r, binary op x v p = .ok e r) ↔ p.storeFault? x = none ∧
      ∃ t r, operatorType base x v p = .ok t r := by
  have htype : binaryType op x v p = (storable x >>= fun _ => operatorType base x v >>= fun _ =>
      pure (p.expr x).type.unqualified : Check QualType) p := by
    cases op <;> cases hop <;> rfl
  rw [binary_ok_iff, htype]
  constructor
  · rintro ⟨t, q, h⟩
    obtain ⟨_, r, hstore, hrest⟩ := bind_eq_ok.mp h
    obtain ⟨hnone, rfl⟩ := storable_eq_ok.mp hstore
    obtain ⟨t', r', htype, -⟩ := bind_eq_ok.mp hrest
    exact ⟨hnone, t', r', htype⟩
  · rintro ⟨hnone, t, r, htype⟩
    rw [bind_of_ok (storable_eq_ok.mpr ⟨hnone, rfl⟩), bind_of_ok htype]
    exact ⟨_, _, rfl⟩

end Check

/-! ### Elements -/

namespace Program

variable {p : Program} {t element : QualType}

/-- Objects of the type can be stored to. -/
def Modifiable (p : Program) (t : QualType) : Prop :=
  t.isConst = false ∧ p.isArray t = false ∧ p.isFunction t = false

/-- The expression is a place of the type, and stores to it are judged by that type alone. -/
structure StoredAs (p : Program) (d : ExprId) (t : QualType) : Prop where
  type : (p.expr d).type = t
  category : (p.expr d).category = .lvalue
  step : ∀ op : UnaryOp, op.isStep = true → ((∃ e r, Check.unary op d p = .ok e r) ↔
    t.isConst = false ∧ p.isScalar t = true)
  assign : ∀ v, (∃ e r, Check.binary .assign d v p = .ok e r) ↔
    p.Modifiable t ∧ ∃ r, Check.assignable t.unqualified v p = .ok () r
  compound : ∀ (op base : BinaryOp) (v : ExprId), op.compoundBase? = some base →
    ((∃ e r, Check.binary op d v p = .ok e r) ↔
      p.Modifiable t ∧ ∃ u r, Check.operatorType base d v p = .ok u r)

theorem storedAs {d : ExprId} (type : (p.expr d).type = t)
    (category : (p.expr d).category = .lvalue) : p.StoredAs d t := by
  subst type
  have hfault : p.storeFault? d = none ↔ p.Modifiable (p.expr d).type := by
    rw [Check.storeFault?_eq_none_iff, Expr.isLvalue, category, Modifiable]
    simp only [beq_self_eq_true, true_and]
    tauto
  have hscalar : p.isScalar (p.expr d).type = true →
      p.isArray (p.expr d).type = false ∧ p.isFunction (p.expr d).type = false := by
    unfold isScalar isArithmetic builtin? isPointer isArray isFunction
    cases p.node (p.expr d).type <;> simp
  refine ⟨rfl, category, fun op hop => ?_, fun v => ?_, fun op base v hop => ?_⟩
  · rw [Check.step_ok_iff hop, hfault]
    exact ⟨fun h => ⟨h.1.1, h.2⟩, fun h => ⟨⟨h.1, hscalar h.2⟩, h.2⟩⟩
  · rw [Check.assign_ok_iff, hfault]
  · rw [Check.compound_ok_iff hop, hfault]

/-- Following a pointer leads to a place of the type that it points to. -/
theorem deref_ok {x : ExprId} {ptr : QualType} {q : Program}
    (hdecay : Check.decay (p.expr x).type p = .ok ptr q) (hptr : q.node ptr = .pointer element) :
    ∃ d r, Check.unary .deref x p = .ok d r ∧ r.types = q.types ∧ r.StoredAs d element := by
  obtain ⟨d, r, hr, htypes, htype, hcategory⟩ := Check.unary_ok (Check.unaryType_deref hdecay hptr)
  exact ⟨d, r, hr, htypes, storedAs htype hcategory⟩

/-- The expression is a pointer to the type, and following it leads to a place of that type. -/
def LeadsTo (p : Program) (e : ExprId) (t : QualType) : Prop :=
  p.node (p.expr e).type = .pointer t ∧
    ∃ d q, Check.unary .deref e p = .ok d q ∧ q.node t = p.node t ∧ q.StoredAs d t

/-- **Elements of arrays.** An array with qualifiers is printed as one of elements that have them in
addition. But an element of the array, `*x`, has the element type alone: it is a place of just that
type, and so is what a pointer leads to that was moved along the array, `x + i`, `i + x` or `x - i`.
Stores to either, by assignment, compound assignment, increment or decrement, are refused for the
qualifiers of the element type only and never for those of the array. -/
theorem Constructed.element_type {p : Program} (h : p.Constructed) {x : ExprId}
    (hx : x < p.exprs.size) {element : QualType} {size : Option Nat}
    (ht : p.node (p.expr x).type = .array element size) :
    (∀ name, p.declarator (p.expr x).type name =
      p.declarator (element.withQuals (p.expr x).type.quals)
        (name ++ "[" ++ size.elim "" toString ++ "]")) ∧
    (∃ d q, Check.unary .deref x p = .ok d q ∧ q.node element = p.node element ∧
      q.StoredAs d element) ∧
    ∀ i, i < p.exprs.size → p.isInteger (p.expr i).type = true →
      (∃ e q, Check.binary .add x i p = .ok e q ∧ q.node element = p.node element ∧
        q.LeadsTo e element) ∧
      (∃ e q, Check.binary .sub x i p = .ok e q ∧ q.node element = p.node element ∧
        q.LeadsTo e element) ∧
      (∃ e q, Check.binary .add i x p = .ok e q ∧ q.node element = p.node element ∧
        q.LeadsTo e element) := by
  have typed := h.wellTyped
  have helement : p.HasType element :=
    typed.part (typed.exprs x hx) (by rw [ht]; exact List.mem_cons_self)
  let q := (p.internNode (.pointer element)).2
  let ptr := (p.internNode (.pointer element)).1
  have hdecay : Check.decay (p.expr x).type p = .ok ptr q := Check.decay_array ht
  have hptr : q.node ptr = .pointer element := p.node_internNode_self _
  have hnode : q.node element = p.node element := node_internNode helement _
  refine ⟨typed.declarator_array ht, ?_, fun i hi hinteger => ?_⟩
  · obtain ⟨d, r, hr, htypes, hstored⟩ := deref_ok hdecay hptr
    exact ⟨d, r, hr, by rw [Program.node, htypes]; exact hnode, hstored⟩
  · have hinteger' : q.isInteger (p.expr i).type = true := by
      rw [isInteger, builtin?, node_internNode (typed.exprs i hi)]
      exact hinteger
    -- The result of a move is a pointer to an element, which is then followed.
    have moved : ∀ op y z, Check.binaryType op y z p = .ok ptr.unqualified q →
        ∃ e r, Check.binary op y z p = .ok e r ∧ r.node element = p.node element ∧
          r.LeadsTo e element := by
      intro op y z htype
      obtain ⟨e, r, hr, htypes, hte⟩ := Check.binary_ok htype
      have hpointer : r.node (r.expr e).type = .pointer element := by
        rw [hte, Program.node, htypes]
        exact hptr
      obtain ⟨d, s, hs, hsame, hstored⟩ := deref_ok (Check.decay_pointer hpointer) hpointer
      refine ⟨e, r, hr, by rw [Program.node, htypes]; exact hnode, hpointer, d, s, hs, ?_, hstored⟩
      rw [Program.node, hsame]
      rfl
    obtain ⟨hadd, hsub, hback⟩ := Check.operatorType_pointer hdecay hptr hinteger hinteger'
    exact ⟨moved .add x i hadd, moved .sub x i hsub, moved .add i x hback⟩

/-- The elements of `const int table[2]` can be changed: `++*table` is accepted. -/
theorem Constructed.element_type_const :
    ∃ p x, p.Constructed ∧ p.declarator (p.expr x).type "table" = "const int table[2]" ∧
      ∃ d q e r, Check.unary .deref x p = .ok d q ∧ Check.unary .preInc d q = .ok e r := by
  have h₀ := Constructed.empty ⟨"x86_64-unknown-linux-gnu", false, 16, 32, 64, 64, 64⟩
  have h₁ := h₀.step (.builtin .int) (by decide +kernel)
  have h₂ := h₁.step (.arrayOf (.plain 0) (some 2)) (by decide +kernel)
  have h₃ := h₂.step (.varDecl .file "table" ⟨1, .const⟩ .unspecified) (by decide +kernel)
  have h₄ := h₃.step (.declRef 0) (by decide +kernel)
  obtain ⟨-, ⟨d, q, hd, hnode, hstored⟩, -⟩ :=
    @Constructed.element_type _ h₄ 0 (by decide +kernel) (.plain 0) (some 2) (by decide +kernel)
  refine ⟨_, 0, h₄, by decide +kernel, d, q, ?_⟩
  have hscalar : q.isScalar (.plain 0) = true := by
    rw [isScalar, isArithmetic, builtin?, isPointer, hnode]
    decide +kernel
  obtain ⟨e, r, her⟩ := (hstored.step .preInc rfl).mpr ⟨rfl, hscalar⟩
  exact ⟨e, r, hd, her⟩

end Program

end Readback
