import Readback.Proofs.Program.Term
import Readback.Proofs.Typing.Construction
import Readback.Proofs.Typing.Frame

/-! # Operands bind tightly enough

Construction puts parentheses around an operand where it is needed, so that the text of an expression
can be read back without looking at anything but the precedences of its operators.

* `Program.Groups` says of the kind of an expression that its operands bind as tightly as their places
  demand: both sides of a binary operator (one of them strictly, depending on how the operator
  associates), the operand of a unary operator or a cast, what is called, and elements and arguments,
  which may be anything but a comma expression.
* `Program.WellGrouped` says so of all expressions of a program, and that parts of expressions stand
  before them. Further expressions do not change how the known ones group (`ExprsGrow.groups`), so only
  what is new has to be looked at (`WellGrouped.of_grow`, `WellGrouped.pushExpr`).
* `Fitting` is the postcondition of the steps that may put parentheses around an operand: the program
  stays well grouped, and the operand that comes back binds as demanded (`parenBelow_fitting`,
  `parenUpTo_fitting`, `listed_fitting`). New parentheses bind like a literal.

Deciding a type makes no expressions (`typed_wellGrouped`), and neither do steps for statements and
declarations (`Program.SameExprs`), so there is one lemma per kind of expression, and the others are
about programs whose expressions stay as they are.

The main result is `Program.Constructed.wellGrouped`: every constructed program is well grouped,
whatever calls were made and whichever of them failed. -/

namespace Readback

open Step

namespace Program

/-- The operands bind as tightly as their places demand. -/
def Groups (p : Program) : ExprKind → Prop
  | .unary op operand => op.precedence ≤ p.precedence operand
  | .binary op lhs rhs =>
    if op.isAssignment then op.precedence < p.precedence lhs ∧ op.precedence ≤ p.precedence rhs
    else op.precedence ≤ p.precedence lhs ∧ op.precedence < p.precedence rhs
  | .cast .explicit _ operand => .unary ≤ p.precedence operand
  | .initList elements => ∀ x ∈ elements, .comma < p.precedence x
  | .call callee args =>
    .suffixed ≤ p.precedence callee ∧ ∀ x ∈ args, .comma < p.precedence x
  | _ => True

/-- All parts of expressions stand before them and bind as tightly as their places demand. -/
structure WellGrouped (p : Program) : Prop where
  ordered : p.Ordered
  groups : ∀ e : Nat, p.Groups (p.expr e).kind

/-- Further expressions do not change how the known ones group. -/
theorem ExprsGrow.groups {p q : Program} (hg : p.ExprsGrow q) (hp : p.Ordered)
    {k : ExprKind} (hk : ∀ x ∈ k.parts, x < p.exprs.size) (h : p.Groups k) : q.Groups k := by
  have eq : ∀ x ∈ k.parts, q.precedence x = p.precedence x := fun x hx =>
    hg.precedence_eq hp (hk x hx)
  cases k with
  | unary op operand =>
      simp only [Groups, eq operand (by simp [ExprKind.parts])]
      exact h
  | binary op lhs rhs =>
      simp only [Groups, eq lhs (by simp [ExprKind.parts]), eq rhs (by simp [ExprKind.parts])]
      exact h
  | cast style c operand =>
      cases style with
      | implicit => trivial
      | explicit =>
          simp only [Groups, eq operand (by simp [ExprKind.parts])]
          exact h
  | initList elements =>
      intro x hx
      rw [eq x hx]
      exact h x hx
  | call callee args =>
      refine ⟨?_, fun x hx => ?_⟩
      · rw [eq callee (by simp [ExprKind.parts])]
        exact h.1
      · rw [eq x (by simp [ExprKind.parts, hx])]
        exact h.2 x hx
  | _ => trivial

/-- A program stays well grouped if each further expression stands after its parts and groups. -/
theorem WellGrouped.of_grow {p q : Program} (h : p.WellGrouped) (hg : p.ExprsGrow q)
    (parts : ∀ e : Nat, p.exprs.size ≤ e → ∀ x ∈ (q.expr e).kind.parts, x < e)
    (groups : ∀ e : Nat, p.exprs.size ≤ e → q.Groups (q.expr e).kind) :
    q.WellGrouped := by
  have ordered : q.Ordered := by
    intro e x hx
    rcases Nat.lt_or_ge e p.exprs.size with hlt | hge
    · exact h.ordered e x (hg.2 e hlt ▸ hx)
    · exact parts e hge x hx
  refine ⟨ordered, fun e => ?_⟩
  rcases Nat.lt_or_ge e p.exprs.size with hlt | hge
  · rw [hg.2 e hlt]
    refine hg.groups h.ordered (fun x hx => ?_) (h.groups e)
    exact Nat.lt_trans (h.ordered e x hx) hlt
  · exact groups e hge

theorem wellGrouped_empty (target : Target) : (empty target).WellGrouped where
  ordered e x hx := by
    rw [expr_of_size_le (p := empty target) (Nat.zero_le e)] at hx
    cases hx
  groups e := by
    rw [expr_of_size_le (p := empty target) (Nat.zero_le e)]
    trivial

/-- Being well grouped is about expressions only. -/
theorem WellGrouped.of_exprs_eq {p q : Program} (h : p.WellGrouped) (hq : q.exprs = p.exprs) :
    q.WellGrouped := by
  have none : ∀ e : Nat, p.exprs.size ≤ e → q.expr e = default := fun e he =>
    expr_of_size_le (hq ▸ he)
  refine h.of_grow (.of_eq hq) (fun e he x hx => ?_) (fun e he => ?_)
  · rw [none e he] at hx
    cases hx
  · rw [none e he]
    trivial

/-! ### Appending an expression -/

theorem precedence_pushExpr_paren (p : Program) (e : ExprId) (t : QualType) (c : ValueCategory) :
    (p.pushExpr (.paren e) t c).2.precedence p.exprs.size = .primary := by
  rw [precedence_self (by simp [expr_pushExpr_self]), expr_pushExpr_self]
  rfl

/-- Appending an expression that groups keeps a program well grouped. -/
theorem WellGrouped.pushExpr {p : Program} (h : p.WellGrouped) {k : ExprKind} (t : QualType)
    (c : ValueCategory) (hk : ∀ x ∈ k.parts, x < p.exprs.size) (groups : p.Groups k) :
    (p.pushExpr k t c).2.WellGrouped := by
  have hsize : (p.pushExpr k t c).2.exprs.size = p.exprs.size + 1 := by
    simp [Program.pushExpr, pushStmt]
  have hnew : ∀ e : Nat, p.exprs.size < e → (p.pushExpr k t c).2.expr e = default :=
    fun e he => expr_of_size_le (by omega)
  refine h.of_grow (p.pushExpr_grow k t c) (fun e he x hx => ?_) (fun e he => ?_)
  · obtain rfl | hlt := Nat.eq_or_lt_of_le he
    · rw [expr_pushExpr_self] at hx
      exact hk x hx
    · rw [hnew e hlt] at hx
      cases hx
  · obtain rfl | hlt := Nat.eq_or_lt_of_le he
    · rw [expr_pushExpr_self]
      exact (p.pushExpr_grow k t c).groups h.ordered hk groups
    · rw [hnew e hlt]
      trivial

/-- A step keeps a program well grouped and gives an expression that binds as `fits` demands. -/
def Fitting (p : Program) (fits : Precedence → Prop) (x : ExprId) (q : Program) : Prop :=
  q.WellGrouped ∧ p.ExprsGrow q ∧ x < q.exprs.size ∧ fits (q.precedence x)

theorem Fitting.mono {p q r : Program} {fits : Precedence → Prop} {x : ExprId}
    (h : p.Fitting fits x q) (hr : r.WellGrouped) (hg : q.ExprsGrow r) : p.Fitting fits x r := by
  obtain ⟨hq, hpq, hx, hf⟩ := h
  refine ⟨hr, hpq.trans hg, Nat.lt_of_lt_of_le hx hg.1, ?_⟩
  rw [hg.precedence_eq hq.ordered hx]
  exact hf

end Program

open Program

/-! ### Parentheses -/

namespace Check

variable {p : Program}

theorem paren_fitting (h : p.WellGrouped) {e : Nat} (he : e < p.exprs.size)
    {fits : Precedence → Prop} (hf : fits .primary) :
    Ensures (paren e) p (p.Fitting fits) WellGrouped := by
  refine .get_bind ?_
  have hq := h.pushExpr (k := .paren e) (p.expr e).type (p.expr e).category
    (by simpa [ExprKind.parts] using he) trivial
  exact ⟨hq, p.pushExpr_grow _ _ _, by simp, (p.precedence_pushExpr_paren e _ _).symm ▸ hf⟩

theorem paren_wellGrouped (h : p.WellGrouped) {e : Nat} (he : e < p.exprs.size) :
    Ensures (paren e) p (fun _ => WellGrouped) WellGrouped := by
  refine .get_bind ?_
  exact h.pushExpr _ _ (by simpa [ExprKind.parts] using he) trivial

theorem parenBelow_fitting (h : p.WellGrouped) {e : Nat} (he : e < p.exprs.size)
    (least : Precedence) :
    Ensures (parenBelow e least) p (p.Fitting (least ≤ ·)) WellGrouped := by
  refine .get_bind ?_
  split
  · exact paren_fitting h he (by cases least <;> decide)
  · next hlt => exact .pure ⟨h, .of_eq rfl, he, Nat.le_of_not_lt hlt⟩

theorem parenUpTo_fitting (h : p.WellGrouped) {e : Nat} (he : e < p.exprs.size)
    {most : Precedence} (hm : most < .primary) :
    Ensures (parenUpTo e most) p (p.Fitting (most < ·)) WellGrouped := by
  refine .get_bind ?_
  split
  · exact paren_fitting h he hm
  · next hle => exact .pure ⟨h, .of_eq rfl, he, Nat.lt_of_not_le hle⟩

theorem listed_fitting (h : p.WellGrouped) {es : List Nat} (hes : ∀ e ∈ es, e < p.exprs.size) :
    Ensures (listed es) p (fun xs q => q.WellGrouped ∧ p.ExprsGrow q ∧
      ∀ x ∈ xs, x < q.exprs.size ∧ .comma < q.precedence x) WellGrouped := by
  unfold listed
  induction es generalizing p with
  | nil => exact .pure ⟨h, .of_eq rfl, fun x hx => by cases hx⟩
  | cons e es ih =>
      rw [List.mapM_cons]
      refine (parenUpTo_fitting h (hes e List.mem_cons_self) (by decide)).bind fun x q hx => ?_
      have hes' : ∀ y ∈ es, y < q.exprs.size := fun y hy =>
        Nat.lt_of_lt_of_le (hes y (List.mem_cons_of_mem e hy)) hx.2.1.1
      refine (ih hx.1 hes').bind fun xs r ⟨hr, hqr, hxs⟩ => .pure ⟨hr, hx.2.1.trans hqr, ?_⟩
      intro y hy
      obtain rfl | hy := List.mem_cons.mp hy
      · exact (hx.mono hr hqr).2.2
      · exact hxs y hy

/-! ### Expressions -/

/-- Appending an expression keeps a program well grouped if the expression groups. -/
theorem pushExpr_wellGrouped (h : p.WellGrouped) {k : ExprKind} (t : QualType) (c : ValueCategory)
    (hk : ∀ x ∈ k.parts, x < p.exprs.size) (groups : p.Groups k) :
    Ensures (pushExpr k t c) p (fun _ => WellGrouped) WellGrouped :=
  h.pushExpr t c hk groups

/-- After a step that decides a type, construction goes on with the same expressions. -/
theorem typed_wellGrouped {α β : Type} (h : p.WellGrouped) {m : Check α} (hm : Moves TypesOnly m)
    {f : α → Check β} (hf : ∀ a q, q.WellGrouped → q.exprs = p.exprs →
      Ensures (f a) q (fun _ => WellGrouped) WellGrouped) :
    Ensures (m >>= f) p (fun _ => WellGrouped) WellGrouped := by
  refine Ensures.bind (P := fun _ q => TypesOnly p q) ?_ fun a q hq =>
    hf a q (h.of_exprs_eq hq.exprs) hq.exprs
  exact hm.ensures (fun _ _ hq => hq) fun q hq => h.of_exprs_eq hq.exprs

theorem declRef_wellGrouped (h : p.WellGrouped) (d : DeclId) :
    Ensures (declRef d) p (fun _ => WellGrouped) WellGrouped := by
  have leaf : ∀ t, Ensures (pushExpr (.ref d) t .lvalue) p (fun _ => WellGrouped) WellGrouped :=
    fun t => pushExpr_wellGrouped h t _ (by simp [ExprKind.parts]) trivial
  refine .get_bind ?_
  dsimp only
  split
  · exact leaf _
  · exact leaf _
  · exact leaf _
  · exact .throw _ h
  · exact .throw _ h

theorem integer_wellGrouped (h : p.WellGrouped) (value : Int) (type : QualType) :
    Ensures (integer value type) p (fun _ => WellGrouped) WellGrouped := by
  refine .get_bind ?_
  split
  · exact .throw _ h
  · exact pushExpr_wellGrouped h _ _ (by simp [ExprKind.parts]) trivial

theorem floating_wellGrouped (h : p.WellGrouped) (value : Binary64) (type : QualType) :
    Ensures (floating value type) p (fun _ => WellGrouped) WellGrouped := by
  refine .get_bind ?_
  split
  · exact .throw _ h
  · exact pushExpr_wellGrouped h _ _ (by simp [ExprKind.parts]) trivial

theorem text_wellGrouped (h : p.WellGrouped) (value : String) :
    Ensures (text value) p (fun _ => WellGrouped) WellGrouped := by
  refine typed_wellGrouped h (internNode_moves _) fun _ q hq _ => ?_
  refine typed_wellGrouped hq (internNode_moves _) fun _ r hr _ => ?_
  exact pushExpr_wellGrouped hr _ _ (by simp [ExprKind.parts]) trivial

theorem cast_wellGrouped (h : p.WellGrouped) (style : CastStyle) (c : Conversion) (type : QualType)
    {operand : Nat} (ho : operand < p.exprs.size) (category : ValueCategory) :
    Ensures (cast style c type operand category) p (fun _ => WellGrouped) WellGrouped := by
  cases style with
  | implicit =>
      exact pushExpr_wellGrouped h _ _ (by simpa [ExprKind.parts] using ho) trivial
  | explicit =>
      refine .get_bind (.guard h fun _ => ?_)
      refine (parenBelow_fitting h ho .unary).bind ?_
      rintro x q ⟨hq, _, hx, hf⟩
      exact pushExpr_wellGrouped hq _ _ (by simpa [ExprKind.parts] using hx) hf

theorem unary_wellGrouped (h : p.WellGrouped) (op : UnaryOp) {operand : Nat}
    (ho : operand < p.exprs.size) :
    Ensures (unary op operand) p (fun _ => WellGrouped) WellGrouped := by
  refine typed_wellGrouped h (unaryType_moves op operand) fun ⟨type, category⟩ q hq he => ?_
  refine (parenBelow_fitting hq (he ▸ ho) op.precedence).bind ?_
  rintro x r ⟨hr, _, hx, hf⟩
  exact pushExpr_wellGrouped hr _ _ (by simpa [ExprKind.parts] using hx) hf

theorem binary_wellGrouped (h : p.WellGrouped) (op : BinaryOp) {lhs rhs : Nat}
    (hl : lhs < p.exprs.size) (hr : rhs < p.exprs.size) :
    Ensures (binary op lhs rhs) p (fun _ => WellGrouped) WellGrouped := by
  have hop : op.precedence < .primary := by cases op <;> decide
  refine typed_wellGrouped h (binaryType_moves op lhs rhs) fun type q hq he => ?_
  rw [← he] at hl hr
  split
  · next ha =>
      refine (parenUpTo_fitting hq hl hop).bind fun x r hx => ?_
      refine (parenBelow_fitting hx.1 (Nat.lt_of_lt_of_le hr hx.2.1.1) op.precedence).bind
        fun y s hy => ?_
      have hx' := hx.mono hy.1 hy.2.1
      refine pushExpr_wellGrouped hy.1 _ _ ?_ ?_
      · simpa [ExprKind.parts] using ⟨hx'.2.2.1, hy.2.2.1⟩
      · simpa [Groups, ha] using ⟨hx'.2.2.2, hy.2.2.2⟩
  · next ha =>
      refine (parenBelow_fitting hq hl op.precedence).bind fun x r hx => ?_
      refine (parenUpTo_fitting hx.1 (Nat.lt_of_lt_of_le hr hx.2.1.1) hop).bind
        fun y s hy => ?_
      have hx' := hx.mono hy.1 hy.2.1
      refine pushExpr_wellGrouped hy.1 _ _ ?_ ?_
      · simpa [ExprKind.parts] using ⟨hx'.2.2.1, hy.2.2.1⟩
      · simpa [Groups, ha] using ⟨hx'.2.2.2, hy.2.2.2⟩

theorem initList_wellGrouped (h : p.WellGrouped) (type : QualType) {es : List Nat}
    (hes : ∀ e ∈ es, e < p.exprs.size) :
    Ensures (initList type es) p (fun _ => WellGrouped) WellGrouped := by
  refine (listed_fitting h hes).bind ?_
  rintro xs q ⟨hq, _, hxs⟩
  exact pushExpr_wellGrouped hq _ _ (fun x hx => (hxs x hx).1) fun x hx => (hxs x hx).2

theorem call_wellGrouped (h : p.WellGrouped) {callee : Nat} (hc : callee < p.exprs.size)
    {args : List Nat} (ha : ∀ e ∈ args, e < p.exprs.size) :
    Ensures (call callee args) p (fun _ => WellGrouped) WellGrouped := by
  refine .get_bind ?_
  dsimp only
  split
  · exact .throw _ h
  · refine .guard h fun _ => ?_
    refine (parenBelow_fitting h hc .suffixed).bind fun x q hx => ?_
    have ha' : ∀ e ∈ args, e < q.exprs.size := fun e he => Nat.lt_of_lt_of_le (ha e he) hx.2.1.1
    refine (listed_fitting hx.1 ha').bind ?_
    rintro xs r ⟨hr, hqr, hxs⟩
    have hx' := hx.mono hr hqr
    refine pushExpr_wellGrouped hr _ _ (fun y hy => ?_) ⟨hx'.2.2.2, fun y hy => (hxs y hy).2⟩
    obtain rfl | hy := List.mem_cons.mp hy
    · exact hx'.2.2.1
    · exact (hxs y hy).1

/-! ### Declarations and statements -/

end Check

/-- The expressions of the program stay as they are. -/
abbrev Program.SameExprs : Program → Program → Prop := Same Program.exprs

theorem Step.Moves.sameExprs {α : Type} {m : Check α} (h : Moves TypesOnly m) :
    Moves SameExprs m := h.mono fun _ _ ht => ht.exprs

namespace Check

theorem pushStmt_sameExprs (k : StmtKind) : Moves SameExprs (pushStmt k) := .modifyGet fun _ => rfl

theorem pushDecl_sameExprs (name : String) (scope : Scope) (k : DeclKind) :
    Moves SameExprs (pushDecl name scope k) := .modifyGet fun _ => rfl

theorem addDecl_sameExprs (scope : Scope) (d : DeclId) : Moves SameExprs (addDecl scope d) := by
  cases scope with
  | file => exact .modify fun _ => rfl
  | function f =>
      refine .bind .get fun p => ?_
      split
      · exact .modify fun _ => rfl
      · exact .throw _
  | record r =>
      refine .bind .get fun p => ?_
      split
      · exact .modify fun _ => rfl
      · exact .throw _

theorem functionDecl_sameExprs (scope : Scope) (name : String) (type : QualType) :
    Moves SameExprs (functionDecl scope name type) :=
  .bind .get fun _ => .guard (pushDecl_sameExprs _ _ _)

theorem param_sameExprs (function : DeclId) (name : String) (type : QualType) (index : Nat) :
    Moves SameExprs (param function name type index) :=
  .bind .get fun _ => .guard (pushDecl_sameExprs _ _ _)

theorem setParams_sameExprs (function : DeclId) (params : List DeclId) :
    Moves SameExprs (setParams function params) := by
  refine .bind .get fun p => ?_
  dsimp only
  repeat' split
  all_goals first | exact .throw _ | exact .modify fun _ => rfl

theorem setBody_sameExprs (function : DeclId) (body : StmtId) :
    Moves SameExprs (setBody function body) := by
  refine .bind .get fun p => ?_
  dsimp only
  split
  · exact .modify fun _ => rfl
  · exact .throw _

theorem varDecl_sameExprs (scope : Scope) (name : String) (type : QualType) (storage : Storage) :
    Moves SameExprs (varDecl scope name type storage) :=
  .bind .get fun _ => .guard (pushDecl_sameExprs _ _ _)

theorem setInit_sameExprs (var : DeclId) (init : ExprId) :
    Moves SameExprs (setInit var init) := by
  refine .bind .get fun p => ?_
  dsimp only
  split
  · exact .bind (initializable_moves _ _).sameExprs fun _ => .modify fun _ => rfl
  · exact .throw _

theorem fieldDecl_sameExprs (record : DeclId) (name : String) (type : QualType) :
    Moves SameExprs (fieldDecl record name type) := by
  refine .bind .get fun p => ?_
  dsimp only
  split
  · exact .guard (.bind (pushDecl_sameExprs _ _ _) fun _ =>
      .bind (addDecl_sameExprs _ _) fun _ => .pure _)
  · exact .throw _

theorem returns_sameExprs (function : DeclId) (value : Option ExprId) :
    Moves SameExprs (returns function value) := by
  refine .bind .get fun p => ?_
  dsimp only
  split
  · split
    · exact .bind (returnable_moves _ _ _).sameExprs fun _ => pushStmt_sameExprs _
    · exact .throw _
  · exact .throw _

theorem forLoop_sameExprs (init : Option StmtId) (cond inc : Option ExprId) (body : StmtId) :
    Moves SameExprs (forLoop init cond inc body) := by
  refine .bind ?_ fun _ => pushStmt_sameExprs _
  cases cond with
  | none => exact .pure _
  | some e => exact .map (condition_moves e).sameExprs _

end Check

/-! ### Every construction -/

namespace Construction

/-- Whether the call makes an expression. -/
def makesExpr : Construction → Bool
  | .declRef _ | .paren _ | .integer _ _ | .floating _ _ | .text _ | .cast _ _ _ _ _ | .unary _ _
  | .binary _ _ _ | .initList _ _ | .call _ _ => true
  | _ => false

open Check in
/-- The other calls leave the expressions alone. -/
theorem after_exprs (c : Construction) (p : Program) (hc : c.makesExpr = false) :
    (c.after p).exprs = p.exprs := by
  have keeps {α : Type} {m : Check α} (hm : Moves SameExprs m) : (Step.after m p).exprs = p.exprs :=
    hm p
  unfold Construction.after
  cases c with
  | addDecl => exact keeps (addDecl_sameExprs _ _)
  | setParams => exact keeps (setParams_sameExprs _ _)
  | setBody => exact keeps (setBody_sameExprs _ _)
  | setInit => exact keeps (setInit_sameExprs _ _)
  | builtin | pointerTo | arrayOf | functionType =>
      rw [run, after_discard]
      exact keeps (internNode_moves _).sameExprs
  | recordType =>
      rw [run, after_discard]
      exact keeps (recordType_moves _).sameExprs
  | functionDecl =>
      rw [run, after_discard]
      exact keeps (functionDecl_sameExprs _ _ _)
  | param =>
      rw [run, after_discard]
      exact keeps (param_sameExprs _ _ _ _)
  | varDecl =>
      rw [run, after_discard]
      exact keeps (varDecl_sameExprs _ _ _ _)
  | recordDecl =>
      rw [run, after_discard]
      exact keeps (pushDecl_sameExprs _ _ _)
  | fieldDecl =>
      rw [run, after_discard]
      exact keeps (fieldDecl_sameExprs _ _ _)
  | condition e =>
      rw [run, after_discard]
      exact keeps (condition_moves e).sameExprs
  | returns =>
      rw [run, after_discard]
      exact keeps (returns_sameExprs _ _)
  | ifElse | whileLoop | doLoop =>
      rw [run, after_discard]
      exact keeps (.bind (condition_moves _).sameExprs fun _ => pushStmt_sameExprs _)
  | forLoop =>
      rw [run, after_discard]
      exact keeps (forLoop_sameExprs _ _ _ _)
  | compound | breaks | continues | empty | declares =>
      rw [run, after_discard]
      exact keeps (pushStmt_sameExprs _)
  | _ => cases hc

open Check in
/-- One call of construction keeps a program well grouped. -/
theorem after_wellGrouped (c : Construction) {p : Program} (h : p.WellGrouped) (known : c.Known p) :
    (c.after p).WellGrouped := by
  obtain ⟨-, -, -, he⟩ := known
  have makes {α : Type} {m : Check α} (hm : Ensures m p (fun _ => WellGrouped) WellGrouped) :
      (Step.after (discard m) p).WellGrouped := by
    rw [after_discard]
    exact hm.after
  cases c with
  | declRef d => exact makes (declRef_wellGrouped h d)
  | paren e => exact makes (paren_wellGrouped h (he e (by simp [exprs])))
  | integer value type => exact makes (integer_wellGrouped h value type)
  | floating value type => exact makes (floating_wellGrouped h value type)
  | text value => exact makes (text_wellGrouped h value)
  | cast style conversion type operand category =>
      exact makes (cast_wellGrouped h style conversion type (he operand (by simp [exprs])) category)
  | unary op operand => exact makes (unary_wellGrouped h op (he operand (by simp [exprs])))
  | binary op lhs rhs =>
      exact makes (binary_wellGrouped h op (he lhs (by simp [exprs])) (he rhs (by simp [exprs])))
  | initList type elements => exact makes (initList_wellGrouped h type he)
  | call callee args =>
      refine makes (call_wellGrouped h (he callee (by simp [exprs])) fun e ha => ?_)
      exact he e (by simp [exprs, ha])
  | _ => exact h.of_exprs_eq (after_exprs _ p rfl)

end Construction

/-- **Operands of constructed programs bind as tightly as their places demand.** -/
theorem Program.Constructed.wellGrouped {p : Program} (h : p.Constructed) : p.WellGrouped := by
  induction h with
  | empty target => exact wellGrouped_empty target
  | step c _ known ih => exact c.after_wellGrouped ih known

end Readback
