import Mathlib.Logic.Relation
import Readback.Proofs.Typing.Additions
import Readback.Proofs.Typing.Construction

/-! # What construction can do to a program

Every call of typed construction, successful or not, is a sequence of elementary changes: a type is
interned, a node is appended, a declaration is completed, or a declaration is listed at file level. Each
is made over types and nodes that are there. An invariant of constructed programs therefore needs a
proof for six changes instead of thirty-five calls.

* `Program.Change` lists the changes. Appending an expression and completing a declaration come with
  conditions that every call meets: the parts and the type of the expression are known, and a
  declaration stays of its sort.
* `Program.Changes` is its closure. Additions of types and expressions are such sequences
  (`Adds.changes`), so only the calls for statements and declarations are gone through here
  (`forLoop_changes`, `returns_changes`, `functionDecl_changes`, `setDeclKind_changes` and so on). A
  call that fails has made the changes up to the point where it failed.
* `Construction.after_changes` joins them: every call over known nodes is a sequence of elementary
  changes.

From there, `Program.Constructed.induct` is the induction principle of constructed programs: what empty
programs have and elementary changes keep, all constructed programs have. That types stand after their
parts and that all nodes are known is the first thing proved by it (`Constructed.wellTyped`), together
with the fact that record types belong to declarations (`Constructed.tagged`); other invariants are
proved where they are used. -/

namespace Readback

open Step

namespace Program

/-- An elementary change. -/
inductive Change (p : Program) : Program → Prop where
  | intern (node : TypeNode) (known : p.Knows node) : Change p (p.internNode node).2
  | pushExpr (k : ExprKind) (t : QualType) (c : ValueCategory)
      (known : ∀ x ∈ k.parts, x < p.exprs.size) (type : p.HasType t)
      (refs : ∀ d, k = .ref d → d < p.decls.size) : Change p (p.pushExpr k t c).2
  | pushStmt (k : StmtKind) (own : ∀ e, k ≠ .expr e) (known : ∀ i ∈ k.inner, i < p.stmts.size) :
      Change p (p.pushStmt k).2
  | pushDecl (name : String) (scope : Scope) (k : DeclKind)
      (type : ∀ t, (Decl.mk p.decls.size name scope k).type? = some t → p.HasType t) :
      Change p (p.pushDecl name scope k).2
  | complete (d : DeclId) (k : DeclKind) (sort : k.sort = (p.decl d).kind.sort) :
      Change p (p.setDeclKind d k)
  | list (d : DeclId) : Change p { p with topLevel := p.topLevel ++ [d] }

/-- Elementary changes lead from `p` to `q`. -/
def Changes : Program → Program → Prop := Relation.ReflTransGen Change

instance : Std.Refl Changes := ⟨fun _ => .refl⟩

instance : IsTrans Program Changes := ⟨fun _ _ _ h h' => h.trans h'⟩

theorem Adds.changes {p q : Program} (h : p.Adds q) : p.Changes q := by
  induction h with
  | refl => exact .refl
  | intern _ node known ih => exact ih.tail (.intern node known)
  | push _ k t c known type refs ih => exact ih.tail (.pushExpr k t c known type refs)

/-! ### Types stay there -/

theorem Change.wellTyped {p q : Program} (h : p.Change q) (hp : p.WellTyped) : q.WellTyped := by
  cases h with
  | intern node known => exact (Adds.intern .refl node known).wellTyped hp
  | pushExpr k t c known type refs =>
      exact (Adds.push .refl k t c known type refs).wellTyped hp
  | pushStmt k => exact ⟨hp.types, hp.exprs, hp.decls⟩
  | list d => exact ⟨hp.types, hp.exprs, hp.decls⟩
  | pushDecl name scope k type =>
      refine ⟨hp.types, hp.exprs, fun d hd t ht => ?_⟩
      have hsize : (p.pushDecl name scope k).2.decls.size = p.decls.size + 1 := by
        simp [Program.pushDecl]
      obtain hlt | rfl := Nat.lt_or_eq_of_le (Nat.le_of_lt_succ (hsize ▸ hd))
      · rw [p.decl_pushDecl_of_lt name scope k hlt] at ht
        exact hp.decls d hlt t ht
      · rw [p.decl_pushDecl_self name scope k] at ht
        exact type t ht
  | complete d k sort =>
      refine ⟨hp.types, hp.exprs, fun x hx t ht => ?_⟩
      have hsize : (p.setDeclKind d k).decls.size = p.decls.size := by simp [setDeclKind]
      have hsort : ((p.setDeclKind d k).decl x).kind.sort = (p.decl x).kind.sort := by
        rw [decl_setDeclKind]
        split
        · next hd => exact hd.1 ▸ sort
        · rfl
      rw [Decl.type?_of_sort_eq hsort] at ht
      exact hp.decls x (hsize ▸ hx) t ht

end Program

open Program

namespace Check

variable {p : Program}

/-! ### Statements -/

theorem pushStmt_changes {k : StmtKind} (own : ∀ e, k ≠ .expr e)
    (known : ∀ i ∈ k.inner, i < p.stmts.size) :
    Leads Changes (pushStmt k) p fun _ _ => True :=
  ⟨.single (.pushStmt k own known), trivial⟩

/-- A statement after additions, for one after its condition was checked. -/
theorem adds_pushStmt_changes {α : Type} {m : Check α} {P : α → Prop}
    (hm : Leads Adds m p fun a _ => P a) {k : α → StmtKind} (own : ∀ a e, k a ≠ .expr e)
    (known : ∀ a, P a → ∀ i ∈ (k a).inner, i < p.stmts.size) :
    Leads Changes (m >>= fun a => pushStmt (k a)) p fun _ _ => True := by
  have adds : Leads Changes m p fun a q => P a ∧ p.Adds q :=
    Ensures.mono hm (fun _ _ ⟨hq, ha⟩ => ⟨hq.changes, ha, hq⟩) fun _ hq => hq.changes
  refine adds.bind fun a q _ ⟨ha, hq⟩ => pushStmt_changes (own a) fun i hi => ?_
  exact Nat.lt_of_lt_of_le (known a ha i hi) hq.extends.grows.stmts_size

theorem returns_changes (h : p.WellTyped) (function : DeclId) {value : Option ExprId}
    (hv : ∀ e, value = some e → e < p.exprs.size) :
    Leads Changes (returns function value) p fun _ _ => True := by
  refine .get_bind ?_
  dsimp only
  split
  · split
    · exact adds_pushStmt_changes (P := fun _ => True) (returnable_adds h _ _ hv)
        (k := fun _ => .returns value) nofun (by simp [StmtKind.inner])
    · exact .throw _
  · exact .throw _

theorem forLoop_changes (h : p.WellTyped) {init : Option StmtId} {cond : Option ExprId}
    (inc : Option ExprId) {body : StmtId} (hc : ∀ e, cond = some e → e < p.exprs.size)
    (known : ∀ i ∈ body :: init.toList, i < p.stmts.size) :
    Leads Changes (forLoop init cond inc body) p fun _ _ => True := by
  refine adds_pushStmt_changes (P := fun _ => True) (k := fun x => .forLoop init x inc body) ?_
    nofun fun _ _ => known
  cases cond with
  | none => exact .pure trivial
  | some e => exact .map ((condition_adds h (hc e rfl)).imp fun _ _ _ _ => trivial)

/-! ### Declarations -/

theorem pushDecl_changes (name : String) (scope : Scope) {k : DeclKind}
    (type : ∀ t, (Decl.mk p.decls.size name scope k).type? = some t → p.HasType t) :
    Leads Changes (pushDecl name scope k) p fun _ q => q = (p.pushDecl name scope k).2 :=
  ⟨.single (.pushDecl name scope k type), rfl⟩

/-- Completing a declaration. -/
theorem setDeclKind_changes {d : DeclId} {k : DeclKind} (sort : k.sort = (p.decl d).kind.sort) :
    Leads Changes (modify fun p => p.setDeclKind d k : Check Unit) p fun _ _ => True :=
  ⟨.single (.complete d k sort), trivial⟩

theorem addDecl_changes (scope : Scope) (d : DeclId) :
    Leads Changes (addDecl scope d) p fun _ _ => True := by
  cases scope with
  | file => exact ⟨.single (.list d), trivial⟩
  | function f =>
      refine .get_bind ?_
      split
      · next hk => exact setDeclKind_changes (by rw [hk]; rfl)
      · exact .throw _
  | record r =>
      refine .get_bind ?_
      split
      · next hk => exact setDeclKind_changes (by rw [hk]; rfl)
      · exact .throw _

theorem functionDecl_changes (scope : Scope) (name : String) {type : QualType}
    (ht : p.HasType type) : Leads Changes (functionDecl scope name type) p fun _ _ => True := by
  refine .get_bind (.guard fun _ => (pushDecl_changes name scope ?_).imp fun _ _ _ _ => trivial)
  rintro t ⟨⟩
  exact ht

theorem param_changes (function : DeclId) (name : String) {type : QualType} (ht : p.HasType type)
    (index : Nat) : Leads Changes (param function name type index) p fun _ _ => True := by
  refine .get_bind (.guard fun _ => (pushDecl_changes name _ ?_).imp fun _ _ _ _ => trivial)
  rintro t ⟨⟩
  exact ht

theorem varDecl_changes (scope : Scope) (name : String) {type : QualType} (ht : p.HasType type)
    (storage : Storage) : Leads Changes (varDecl scope name type storage) p fun _ _ => True := by
  refine .get_bind (.guard fun _ => (pushDecl_changes name scope ?_).imp fun _ _ _ _ => trivial)
  rintro t ⟨⟩
  exact ht

theorem recordDecl_changes (scope : Scope) (name : String) :
    Leads Changes (recordDecl scope name) p fun _ _ => True :=
  (pushDecl_changes name scope (k := .record []) nofun).imp fun _ _ _ _ => trivial

theorem fieldDecl_changes (record : DeclId) (name : String) {type : QualType}
    (ht : p.HasType type) : Leads Changes (fieldDecl record name type) p fun _ _ => True := by
  refine .get_bind ?_
  dsimp only
  split
  · refine .guard fun _ => (pushDecl_changes name (.record record) ?_).bind fun d q _ _ => ?_
    · rintro t ⟨⟩
      exact ht
    · exact (addDecl_changes _ d).bind fun _ _ _ _ => .pure trivial
  · exact .throw _

theorem setParams_changes (function : DeclId) (params : List DeclId) :
    Leads Changes (setParams function params) p fun _ _ => True := by
  refine .get_bind ?_
  dsimp only
  split
  · next hk =>
      split
      · split
        · exact .throw _
        · exact setDeclKind_changes (by rw [hk]; rfl)
      · exact .throw _
  · exact .throw _

theorem setBody_changes (function : DeclId) (body : StmtId) :
    Leads Changes (setBody function body) p fun _ _ => True := by
  refine .get_bind ?_
  dsimp only
  split
  · next hk => exact setDeclKind_changes (by rw [hk]; rfl)
  · exact .throw _

theorem setInit_changes (h : p.WellTyped) (var : DeclId) {init : ExprId}
    (hinit : init < p.exprs.size) : Leads Changes (setInit var init) p fun _ _ => True := by
  refine .get_bind ?_
  dsimp only
  split
  · next type old storage hk =>
      have adds : Leads Changes (initializable type init) p fun _ q => p.Adds q :=
        Ensures.mono (initializable_adds h type hinit) (fun _ _ ⟨hq, _⟩ => ⟨hq.changes, hq⟩)
          fun _ hq => hq.changes
      refine adds.bind fun _ q _ hq => setDeclKind_changes ?_
      rw [decl, hq.decls, ← decl, hk]
      rfl
  · exact .throw _

end Check

/-! ### Every call -/

open Check in
/-- Every call over known nodes is a sequence of elementary changes. -/
theorem Construction.after_changes (c : Construction) {p : Program} (h : p.WellTyped)
    (known : c.Known p) : p.Changes (c.after p) := by
  obtain ⟨ht, hd, hs, he⟩ := known
  have makes {α : Type} {m : Check α} (hm : Leads Changes m p fun _ _ => True) :
      p.Changes (Step.after (discard m) p) := by
    rw [after_discard]
    exact hm.after
  have adds {α : Type} {m : Check α} {Q : α → Program → Prop} (hm : Leads Adds m p Q) :
      p.Changes (Step.after (discard m) p) := by
    rw [after_discard]
    exact hm.after.changes
  cases c with
  | addDecl scope d => exact (addDecl_changes scope d).after
  | setParams function params => exact (setParams_changes function params).after
  | setBody function body => exact (setBody_changes function body).after
  | setInit var init => exact (setInit_changes h var (he init (by simp [exprs]))).after
  | builtin kind => exact adds (builtin_adds kind)
  | pointerTo t => exact adds (pointerTo_adds (ht t (by simp [types])))
  | arrayOf t size => exact adds (arrayOf_adds (ht t (by simp [types])) size)
  | functionType result params isVariadic =>
      refine adds (functionType_adds (ht result (by simp [types])) (fun t hp => ?_) isVariadic)
      exact ht t (by simp [types, hp])
  | recordType d => exact adds (recordType_adds d)
  | functionDecl scope name type =>
      exact makes (functionDecl_changes scope name (ht type (by simp [types])))
  | param function name type index =>
      exact makes (param_changes function name (ht type (by simp [types])) index)
  | varDecl scope name type storage =>
      exact makes (varDecl_changes scope name (ht type (by simp [types])) storage)
  | recordDecl scope name => exact makes (recordDecl_changes scope name)
  | fieldDecl record name type =>
      exact makes (fieldDecl_changes record name (ht type (by simp [types])))
  | declRef d => exact adds (declRef_adds h (hd d (by simp [decls])))
  | paren e => exact adds (paren_adds h (he e (by simp [exprs])))
  | integer value type => exact adds (integer_adds value (ht type (by simp [types])))
  | floating value type => exact adds (floating_adds value (ht type (by simp [types])))
  | text value => exact adds (text_adds value)
  | cast style conversion type operand category =>
      exact adds (cast_adds h style conversion (ht type (by simp [types]))
        (he operand (by simp [exprs])) category)
  | unary op operand => exact adds (unary_adds h op (he operand (by simp [exprs])))
  | binary op lhs rhs =>
      exact adds (binary_adds h op (he lhs (by simp [exprs])) (he rhs (by simp [exprs])))
  | initList type elements => exact adds (initList_adds h (ht type (by simp [types])) he)
  | call callee args =>
      refine adds (call_adds h (he callee (by simp [exprs])) fun e ha => ?_)
      exact he e (by simp [exprs, ha])
  | condition e => exact adds (condition_adds h (he e (by simp [exprs])))
  | returns function value =>
      refine makes (returns_changes h function ?_)
      rintro e rfl
      exact he e (by simp [exprs])
  | ifElse cond yes no =>
      exact makes (adds_pushStmt_changes (condition_adds h (he cond (by simp [exprs])))
        (k := fun x => .ifElse x yes no) nofun fun _ _ => hs)
  | whileLoop cond body =>
      exact makes (adds_pushStmt_changes (condition_adds h (he cond (by simp [exprs])))
        (k := fun x => .whileLoop x body) nofun fun _ _ => hs)
  | doLoop body cond =>
      exact makes (adds_pushStmt_changes (condition_adds h (he cond (by simp [exprs])))
        (k := fun x => .doLoop body x) nofun fun _ _ => hs)
  | forLoop init cond inc body =>
      refine makes (forLoop_changes h inc ?_ hs)
      rintro e rfl
      exact he e (by simp [exprs])
  | compound body => exact makes (pushStmt_changes (k := .compound body) nofun hs)
  | breaks => exact makes (pushStmt_changes (k := .breaks) nofun nofun)
  | continues => exact makes (pushStmt_changes (k := .continues) nofun nofun)
  | empty => exact makes (pushStmt_changes (k := .empty) nofun nofun)
  | declares decls => exact makes (pushStmt_changes (k := .declares decls) nofun nofun)

namespace Program

theorem Changes.wellTyped {p q : Program} (h : p.Changes q) (hp : p.WellTyped) : q.WellTyped := by
  induction h with
  | refl => exact hp
  | tail _ step ih => exact step.wellTyped ih

theorem Constructed.wellTyped {p : Program} (h : p.Constructed) : p.WellTyped := by
  induction h with
  | empty target => exact wellTyped_empty target
  | step c _ known ih => exact (c.after_changes ih known).wellTyped ih

/-- What each elementary change keeps, a sequence of them keeps. -/
theorem Changes.keep {P : Program → Prop}
    (change : ∀ p q, p.WellTyped → p.Change q → P p → P q) {p q : Program} (h : p.Changes q)
    (typed : p.WellTyped) (hp : P p) : P q := by
  induction h with
  | refl => exact hp
  | tail before step ih => exact change _ _ (Changes.wellTyped before typed) step ih

/-- What empty programs have and elementary changes keep, all constructed programs have. -/
theorem Constructed.induct {P : Program → Prop} (empty : ∀ target, P (.empty target))
    (change : ∀ p q, p.WellTyped → p.Change q → P p → P q) {p : Program} (h : p.Constructed) :
    P p := by
  induction h with
  | empty target => exact empty target
  | step c h known ih => exact (c.after_changes h.wellTyped known).keep change h.wellTyped ih

/-- Record types belong to declarations that are there. -/
def Tagged (p : Program) : Prop :=
  ∀ (i : TypeRef) (d : DeclId), p.types.get? i = some (.record d) → d < p.decls.size

theorem Change.tagged {p q : Program} (h : p.Change q) (hp : p.Tagged) : q.Tagged := by
  cases h with
  | intern node known =>
      intro i d hi
      obtain hold | ⟨-, hnew⟩ := Interned.get?_intern_eq_some hi
      · exact hp i d hold
      · exact known.record d hnew.symm
  | pushDecl name scope k =>
      intro i d hi
      show d < (p.decls.push _).size
      rw [Array.size_push]
      exact Nat.lt_succ_of_lt (hp i d hi)
  | complete d k =>
      intro i x hi
      show x < (p.decls.modify d _).size
      rw [Array.size_modify]
      exact hp i x hi
  | pushExpr => exact hp
  | pushStmt => exact hp
  | list => exact hp

theorem Constructed.tagged {p : Program} (h : p.Constructed) : p.Tagged :=
  h.induct (fun _ i d hi => by simp [Program.empty, Interned.empty, Interned.get?] at hi)
    fun _ _ _ change hp => change.tagged hp

end Program

end Readback
