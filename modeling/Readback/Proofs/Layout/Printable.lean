import Readback.Proofs.Typing.Additions

/-! # Programs that can be written

`Program.Printable` collects what writing a program relies on: types, expressions and statements stand
after their parts, references name declarations that are there, only variables and records are declared
inside bodies, only functions, variables and records stand at file level, functions have function types,
the members of records are fields, and counting loops have no initial part.

Construction allows more than that: a statement may declare a function, and a member of a record may be
any declaration. A lift uses construction in a narrower way, so the lemmas of this module say for each
step which use of it keeps a program printable.

* `LaidStmt` and `LaidDecl` are what is asked of one statement and of one declaration. Positions where
  nothing stands count as an empty statement, which can be written (`Printable.laid`).
* `Program.Enlarges` is what all steps do to the program: nodes stay, and declarations stay of the same
  sort. What is laid stays laid (`LaidStmt.mono`, `LaidDecl.mono`), so a program stays printable if what
  is new in it can be written (`Printable.of_enlarges`).
* Additions of types and expressions are always fine (`Adds.printable`). Statements, declarations, their
  completion and listing each come with a condition (`Printable.pushStmt`, `Printable.pushDecl`,
  `Printable.setDeclKind`, `Printable.listed`).
* `Program.Lays` is the postcondition of a step: it leads to a printable program that has all that the
  first one has. The lemmas `f_lays` state it for the steps `f` that make statements
  (`condition_pushStmt_lays`, `forLoop_lays`, `returns_lays`) and declarations (`functionDecl_lays`,
  `setBody_lays`, `fieldDecl_lays`). -/

namespace Readback

open Step

namespace DeclKind

/-- Whether the declaration may stand in a body. -/
def IsLocal : DeclKind → Prop
  | .var _ _ _ => True
  | .record _ => True
  | _ => False

/-- Whether the declaration may stand at file level. -/
def IsUnit : DeclKind → Prop
  | .function _ _ _ _ => True
  | kind => kind.IsLocal

/-- Whether a member of a record is declared. -/
def IsField : DeclKind → Prop
  | .field _ _ => True
  | _ => False

theorem IsLocal.isUnit {k : DeclKind} (h : k.IsLocal) : k.IsUnit := by
  cases k with
  | function => exact h.elim
  | _ => exact h

theorem isLocal_of_sort_eq {k k' : DeclKind} (h : k.sort = k'.sort) : k.IsLocal ↔ k'.IsLocal := by
  cases k <;> cases k' <;> simp_all [sort, settled, IsLocal]

theorem isUnit_of_sort_eq {k k' : DeclKind} (h : k.sort = k'.sort) : k.IsUnit ↔ k'.IsUnit := by
  cases k <;> cases k' <;> simp_all [sort, settled, IsUnit, IsLocal]

theorem isField_of_sort_eq {k k' : DeclKind} (h : k.sort = k'.sort) : k.IsField ↔ k'.IsField := by
  cases k <;> cases k' <;> simp_all [sort, settled, IsField]

end DeclKind

namespace StmtKind

/-- The declarations that a statement makes. -/
def declared : StmtKind → List DeclId
  | .declares decls => decls
  | _ => []

/-- The initial part of a counting loop. -/
def initial? : StmtKind → Option StmtId
  | .forLoop init _ _ _ => init
  | _ => none

end StmtKind

namespace Program

/-- All nodes of `p` are there in `q`, and its declarations are of the same sort. -/
structure Enlarges (p q : Program) : Prop where
  types : p.types.size ≤ q.types.size
  nodes : ∀ t, p.HasType t → q.node t = p.node t
  exprs : p.exprs.size ≤ q.exprs.size
  stmts : p.stmts.size ≤ q.stmts.size
  decls : p.decls.size ≤ q.decls.size
  sorts : ∀ d : Nat, d < p.decls.size → (q.decl d).kind.sort = (p.decl d).kind.sort

theorem Enlarges.refl (p : Program) : p.Enlarges p :=
  ⟨Nat.le_refl _, fun _ _ => rfl, Nat.le_refl _, Nat.le_refl _, Nat.le_refl _, fun _ _ => rfl⟩

theorem Enlarges.hasType {p q : Program} (h : p.Enlarges q) {t : QualType} (ht : p.HasType t) :
    q.HasType t := Nat.lt_of_lt_of_le ht h.types

theorem Enlarges.trans {p q r : Program} (h : p.Enlarges q) (h' : q.Enlarges r) : p.Enlarges r where
  types := Nat.le_trans h.types h'.types
  nodes t ht := (h'.nodes t (h.hasType ht)).trans (h.nodes t ht)
  exprs := Nat.le_trans h.exprs h'.exprs
  stmts := Nat.le_trans h.stmts h'.stmts
  decls := Nat.le_trans h.decls h'.decls
  sorts d hd := (h'.sorts d (Nat.lt_of_lt_of_le hd h.decls)).trans (h.sorts d hd)

/-- A statement at `i` that can be written. -/
structure LaidStmt (p : Program) (i : StmtId) (k : StmtKind) : Prop where
  inner : ∀ x ∈ k.inner, x < i
  initial : k.initial? = none
  declared : ∀ d ∈ k.declared, d < p.decls.size ∧ (p.decl d).kind.IsLocal
  single : ∀ ds, k = .declares ds → ∃ d, ds = [d]

/-- A declaration that can be written where it stands. -/
def LaidDecl (p : Program) : DeclKind → Prop
  | .function type _ body _ => p.isFunction type ∧ ∀ i, body = some i → i < p.stmts.size
  | .record fields => ∀ f ∈ fields, f < p.decls.size ∧ (p.decl f).kind.IsField
  | _ => True

/-- The program can be written. -/
structure Printable (p : Program) : Prop where
  typed : p.WellTyped
  ordered : p.Ordered
  refs : p.RefsKnown
  twinned : p.Twinned
  stmts : ∀ (i : Nat) (s : Stmt), p.stmts[i]? = some s → p.LaidStmt i s.kind
  decls : ∀ d : Nat, d < p.decls.size → p.LaidDecl (p.decl d).kind
  topLevel : ∀ d ∈ p.topLevel, d < p.decls.size ∧ (p.decl d).kind.IsUnit

/-- Positions where no statement stands count as an empty one, which can be written. -/
theorem Printable.laid {p : Program} (h : p.Printable) (i : StmtId) :
    p.LaidStmt i (p.stmt i).kind := by
  unfold Program.stmt
  cases hs : p.stmts[i]? with
  | none => exact ⟨nofun, rfl, nofun, nofun⟩
  | some s => exact h.stmts i s hs

section Steps

variable {p q : Program}

theorem Enlarges.isFunction (h : p.Enlarges q) {t : QualType} (ht : p.isFunction t = true) :
    q.isFunction t = true := by
  -- What is not there counts as `void`.
  have hknown : p.HasType t := by
    by_contra hlt
    have hnone : p.types.get? t.ref = none := Array.getElem?_eq_none (Nat.le_of_not_lt hlt)
    simp [Program.isFunction, node, TypeArena.node, hnone] at ht
  unfold Program.isFunction at ht ⊢
  rw [h.nodes t hknown]
  exact ht

theorem Enlarges.isLocal (h : p.Enlarges q) {d : Nat} (hd : d < p.decls.size)
    (hlocal : (p.decl d).kind.IsLocal) : (q.decl d).kind.IsLocal :=
  (DeclKind.isLocal_of_sort_eq (h.sorts d hd)).mpr hlocal

theorem LaidStmt.mono {i : StmtId} {k : StmtKind} (h : p.LaidStmt i k) (hg : p.Enlarges q) :
    q.LaidStmt i k where
  inner := h.inner
  initial := h.initial
  declared d hd := by
    obtain ⟨hlt, hlocal⟩ := h.declared d hd
    exact ⟨Nat.lt_of_lt_of_le hlt hg.decls, hg.isLocal hlt hlocal⟩
  single := h.single

theorem LaidDecl.mono {k : DeclKind} (h : p.LaidDecl k) (hg : p.Enlarges q) : q.LaidDecl k := by
  cases k with
  | function type params body locals =>
      exact ⟨hg.isFunction h.1, fun i hi => Nat.lt_of_lt_of_le (h.2 i hi) hg.stmts⟩
  | record fields =>
      intro f hf
      obtain ⟨hlt, hfield⟩ := h f hf
      exact ⟨Nat.lt_of_lt_of_le hlt hg.decls, (DeclKind.isField_of_sort_eq (hg.sorts f hlt)).mpr hfield⟩
  | _ => trivial

/-- A program stays printable if what is new in it can be written. -/
theorem Printable.of_enlarges (h : p.Printable) (hg : p.Enlarges q) (typed : q.WellTyped)
    (ordered : q.Ordered) (refs : q.RefsKnown) (twinned : q.Twinned)
    (stmts : ∀ (i : Nat) (s : Stmt), q.stmts[i]? = some s →
      p.stmts[i]? = some s ∨ q.LaidStmt i s.kind)
    (decls : ∀ d : Nat, d < q.decls.size →
      d < p.decls.size ∧ (q.decl d).kind = (p.decl d).kind ∨ q.LaidDecl (q.decl d).kind)
    (topLevel : ∀ d ∈ q.topLevel, d ∈ p.topLevel ∨ d < q.decls.size ∧ (q.decl d).kind.IsUnit) :
    q.Printable where
  typed := typed
  ordered := ordered
  refs := refs
  twinned := twinned
  stmts i s hs := by
    obtain hold | hnew := stmts i s hs
    · exact (h.stmts i s hold).mono hg
    · exact hnew
  decls d hd := by
    obtain ⟨hlt, hsame⟩ | hnew := decls d hd
    · rw [hsame]
      exact (h.decls d hlt).mono hg
    · exact hnew
  topLevel d hd := by
    obtain hold | hnew := topLevel d hd
    · obtain ⟨hlt, hunit⟩ := h.topLevel d hold
      exact ⟨Nat.lt_of_lt_of_le hlt hg.decls, (DeclKind.isUnit_of_sort_eq (hg.sorts d hlt)).mpr hunit⟩
    · exact hnew

theorem printable_empty (target : Target) : (empty target).Printable where
  typed := wellTyped_empty target
  ordered e x hx := by
    rw [expr_of_size_le (p := empty target) (Nat.zero_le e)] at hx
    cases hx
  refs e d he := by
    rw [expr_of_size_le (p := empty target) (Nat.zero_le e)] at he
    cases he
  twinned i e := by simp [empty, asExpr?]
  stmts i s hs := by simp [empty] at hs
  decls d hd := absurd hd (Nat.not_lt_zero d)
  topLevel d hd := absurd hd List.not_mem_nil

/-! ### Types and expressions -/

theorem Adds.enlarges (h : p.Adds q) : p.Enlarges q where
  types := h.types_size
  nodes _ ht := h.node ht
  exprs := h.exprs_size
  stmts := h.extends.grows.stmts_size
  decls := h.extends.grows.decls_size
  sorts d hd := DeclKind.sort_of_settled_eq (h.extends.grows.decls d hd).2

/-- Additions append only statements that stand for expressions. -/
theorem Adds.stmts_new (h : p.Adds q) {i : Nat} {s : Stmt} (hs : q.stmts[i]? = some s) :
    p.stmts[i]? = some s ∨ ∃ e, s.kind = .expr e := by
  induction h with
  | refl => exact .inl hs
  | intern _ _ _ ih => exact ih hs
  | @push q _ k t c _ _ _ ih =>
      change (q.stmts.push ⟨q.stmts.size, .expr q.exprs.size⟩)[i]? = some s at hs
      rw [Array.getElem?_push] at hs
      split at hs
      · cases hs
        exact .inr ⟨_, rfl⟩
      · exact ih hs

theorem Adds.printable (h : p.Adds q) (hp : p.Printable) : q.Printable := by
  have hdecl : ∀ d : Nat, q.decl d = p.decl d := fun d => by rw [decl, decl, h.decls]
  refine hp.of_enlarges h.enlarges (h.wellTyped hp.typed) (h.ordered hp.ordered)
    (h.refsKnown hp.refs) (h.extends.twinned hp.twinned) (fun i s hs => ?_) (fun d hd => ?_) fun d hd => ?_
  · refine (h.stmts_new hs).imp_right ?_
    rintro ⟨e, he⟩
    rw [he]
    exact ⟨by simp [StmtKind.inner], rfl, by simp [StmtKind.declared], by simp⟩
  · exact .inl ⟨h.decls ▸ hd, by rw [hdecl]⟩
  · exact .inl (h.topLevel ▸ hd)

/-! ### Statements -/

theorem Printable.pushStmt (h : p.Printable) {k : StmtKind} (hk : ∀ e, k ≠ .expr e)
    (hlaid : p.LaidStmt p.stmts.size k) : (p.pushStmt k).2.Printable ∧ p.Enlarges (p.pushStmt k).2 := by
  have hg : p.Enlarges (p.pushStmt k).2 :=
    ⟨Nat.le_refl _, fun _ _ => rfl, Nat.le_refl _, by simp [Program.pushStmt], Nat.le_refl _,
      fun _ _ => rfl⟩
  refine ⟨h.of_enlarges hg ⟨h.typed.types, h.typed.exprs, h.typed.decls⟩ h.ordered h.refs
    ((p.pushStmt_extends hk).twinned h.twinned) (fun i s hs => ?_) (fun d hd => .inl ⟨hd, rfl⟩)
    fun d hd => .inl hd, hg⟩
  change (p.stmts.push ⟨p.stmts.size, k⟩)[i]? = some s at hs
  rw [Array.getElem?_push] at hs
  split at hs
  · next hi =>
      cases hs
      exact .inr (hi ▸ hlaid.mono hg)
  · exact .inl hs

/-! ### Declarations -/

theorem Printable.pushDecl (h : p.Printable) (name : String) (scope : Scope) {k : DeclKind}
    (ht : ∀ t, (Decl.mk p.decls.size name scope k).type? = some t → p.HasType t)
    (hk : p.LaidDecl k) :
    (p.pushDecl name scope k).2.Printable ∧ p.Enlarges (p.pushDecl name scope k).2 := by
  have hsize : (p.pushDecl name scope k).2.decls.size = p.decls.size + 1 := by
    simp [Program.pushDecl]
  have hold : ∀ {d : Nat}, d < p.decls.size → (p.pushDecl name scope k).2.decl d = p.decl d :=
    fun hd => p.decl_pushDecl_of_lt name scope k hd
  have hg : p.Enlarges (p.pushDecl name scope k).2 :=
    ⟨Nat.le_refl _, fun _ _ => rfl, Nat.le_refl _, Nat.le_refl _, by omega,
      fun d hd => by rw [hold hd]⟩
  refine ⟨h.of_enlarges hg ⟨h.typed.types, h.typed.exprs, fun d hd t htype => ?_⟩ h.ordered
    (fun e d he => Nat.lt_of_lt_of_le (h.refs e d he) hg.decls) h.twinned
    (fun i s hs => .inl hs) (fun d hd => ?_) fun d hd => .inl hd, hg⟩
  · obtain hlt | rfl := Nat.lt_or_eq_of_le (Nat.le_of_lt_succ (hsize ▸ hd))
    · rw [hold hlt] at htype
      exact h.typed.decls d hlt t htype
    · rw [decl_pushDecl_self] at htype
      exact ht t htype
  · obtain hlt | rfl := Nat.lt_or_eq_of_le (Nat.le_of_lt_succ (hsize ▸ hd))
    · exact .inl ⟨hlt, by rw [hold hlt]⟩
    · rw [decl_pushDecl_self]
      exact .inr (hk.mono hg)

/-- Completing a declaration. -/
theorem Printable.setDeclKind (h : p.Printable) {d : DeclId} {k : DeclKind}
    (hsort : k.sort = (p.decl d).kind.sort) (hk : d < p.decls.size → p.LaidDecl k) :
    (p.setDeclKind d k).Printable ∧ p.Enlarges (p.setDeclKind d k) := by
  have hsize : (p.setDeclKind d k).decls.size = p.decls.size := by simp [Program.setDeclKind]
  have hsorts : ∀ x : Nat, ((p.setDeclKind d k).decl x).kind.sort = (p.decl x).kind.sort := by
    intro x
    rw [decl_setDeclKind]
    split
    · next hx => exact hx.1 ▸ hsort
    · rfl
  have hg : p.Enlarges (p.setDeclKind d k) :=
    ⟨Nat.le_refl _, fun _ _ => rfl, Nat.le_refl _, Nat.le_refl _, by omega, fun x _ => hsorts x⟩
  refine ⟨h.of_enlarges hg ⟨h.typed.types, h.typed.exprs, fun x hx t ht => ?_⟩ h.ordered
    (fun e d he => Nat.lt_of_lt_of_le (h.refs e d he) hg.decls) h.twinned (fun i s hs => .inl hs) (fun x hx => ?_) fun d hd => .inl hd, hg⟩
  · rw [Decl.type?_of_sort_eq (hsorts x)] at ht
    exact h.typed.decls x (hsize ▸ hx) t ht
  · rw [decl_setDeclKind]
    split
    · next hd => exact .inr ((hk (hd.1 ▸ hd.2)).mono hg)
    · exact .inl ⟨hsize ▸ hx, rfl⟩

/-- Listing a declaration at file level. -/
theorem Printable.listed (h : p.Printable) {d : DeclId} (hd : d < p.decls.size)
    (hunit : (p.decl d).kind.IsUnit) :
    Printable { p with topLevel := p.topLevel ++ [d] } ∧
      p.Enlarges { p with topLevel := p.topLevel ++ [d] } := by
  have hg : p.Enlarges { p with topLevel := p.topLevel ++ [d] } :=
    ⟨Nat.le_refl _, fun _ _ => rfl, Nat.le_refl _, Nat.le_refl _, Nat.le_refl _, fun _ _ => rfl⟩
  refine ⟨h.of_enlarges hg ⟨h.typed.types, h.typed.exprs, h.typed.decls⟩ h.ordered h.refs h.twinned
    (fun i s hs => .inl hs) (fun x hx => .inl ⟨hx, rfl⟩) fun x hx => ?_, hg⟩
  obtain hx | hx := List.mem_append.mp hx
  · exact .inl hx
  · cases List.mem_singleton.mp hx
    exact .inr ⟨hd, hunit⟩

/-- A step of construction leads from `p` to a printable program that has all that `p` has. -/
def Lays (p q : Program) : Prop := q.Printable ∧ p.Enlarges q

theorem Lays.trans {r : Program} (h : p.Lays q) (h' : q.Lays r) : p.Lays r :=
  ⟨h'.1, h.2.trans h'.2⟩

theorem Adds.lays (h : p.Adds q) (hp : p.Printable) : p.Lays q := ⟨h.printable hp, h.enlarges⟩

end Steps

end Program

open Program

namespace Check

variable {p : Program}

/-! ### Steps for statements -/

theorem pushStmt_lays (h : p.Printable) {k : StmtKind} (hk : ∀ e, k ≠ .expr e)
    (hlaid : p.LaidStmt p.stmts.size k) :
    Gives (pushStmt k) p fun i q => p.Lays q ∧ i < q.stmts.size :=
  ⟨h.pushStmt hk hlaid, by simp⟩

theorem laidStmt_of_inner {k : StmtKind} (hk : ∀ x ∈ k.inner, x < p.stmts.size)
    (hinit : k.initial? = none) (hdecl : ∀ ds, k ≠ .declares ds) : p.LaidStmt p.stmts.size k where
  inner := hk
  initial := hinit
  declared d hd := by
    cases k with
    | declares ds => exact absurd rfl (hdecl ds)
    | _ => cases hd
  single ds hds := absurd hds (hdecl ds)

/-- A statement after its condition. -/
theorem condition_pushStmt_lays (h : p.Printable) {e : ExprId} (he : e < p.exprs.size)
    {k : ExprId → StmtKind} (hexpr : ∀ y, k e ≠ .expr y)
    (hk : ∀ x ∈ (k e).inner, x < p.stmts.size) (hinit : (k e).initial? = none)
    (hdecl : ∀ ds, k e ≠ .declares ds) :
    Gives (condition e >>= fun x => pushStmt (k x)) p fun i q => p.Lays q ∧ i < q.stmts.size := by
  refine (condition_adds h.typed he).gives.bind ?_
  rintro x q ⟨hq, rfl⟩
  have hpq := hq.lays h
  refine (pushStmt_lays hpq.1 hexpr (laidStmt_of_inner (fun x hx => ?_) hinit hdecl)).imp
    fun i r ⟨hr, hi⟩ => ⟨hpq.trans hr, hi⟩
  exact Nat.lt_of_lt_of_le (hk x hx) hpq.2.stmts

theorem forLoop_lays (h : p.Printable) {cond : Option ExprId}
    (hcond : ∀ e, cond = some e → e < p.exprs.size) (inc : Option ExprId) {body : StmtId}
    (hbody : body < p.stmts.size) :
    Gives (forLoop none cond inc body) p fun i q => p.Lays q ∧ i < q.stmts.size := by
  cases cond with
  | none =>
      refine pushStmt_lays h (k := .forLoop none none inc body) nofun (laidStmt_of_inner ?_ rfl nofun)
      simpa [StmtKind.inner] using hbody
  | some e =>
      refine Ensures.bind (P := fun x q => p.Lays q ∧ x = some e) ?_ ?_
      · exact ((condition_adds h.typed (hcond e rfl)).gives.imp fun x q ⟨hq, hx⟩ =>
          ⟨hq.lays h, congrArg some hx⟩).map
      · rintro x q ⟨hq, rfl⟩
        have hbody := Nat.lt_of_lt_of_le hbody hq.2.stmts
        refine (pushStmt_lays hq.1 (k := .forLoop none (some e) inc body) nofun
          (laidStmt_of_inner ?_ rfl nofun)).imp fun i r ⟨hr, hi⟩ => ⟨hq.trans hr, hi⟩
        simpa [StmtKind.inner] using hbody

theorem returns_lays (h : p.Printable) (function : DeclId) {value : Option ExprId}
    (hv : ∀ e, value = some e → e < p.exprs.size) :
    Gives (returns function value) p fun i q => p.Lays q ∧ i < q.stmts.size := by
  refine .get_bind ?_
  dsimp only
  split
  · split
    · refine (returnable_adds h.typed _ _ hv).gives.bind fun _ q ⟨hq, _⟩ => ?_
      have hpq := hq.lays h
      exact (pushStmt_lays hpq.1 (k := .returns value) nofun
        (laidStmt_of_inner (by simp [StmtKind.inner]) rfl nofun)).imp
        fun i r ⟨hr, hi⟩ => ⟨hpq.trans hr, hi⟩
    · exact .throw _ trivial
  · exact .throw _ trivial

/-! ### Steps for declarations -/

theorem pushDecl_lays (h : p.Printable) (name : String) (scope : Scope) {k : DeclKind}
    (ht : ∀ t, (Decl.mk p.decls.size name scope k).type? = some t → p.HasType t)
    (hk : p.LaidDecl k) : Gives (pushDecl name scope k) p fun d q =>
      p.Lays q ∧ d < q.decls.size ∧ (q.decl d).kind = k :=
  ⟨h.pushDecl name scope ht hk, by simp, congrArg Decl.kind (p.decl_pushDecl_self name scope k)⟩

theorem functionDecl_lays (h : p.Printable) (scope : Scope) (name : String) {type : QualType}
    (ht : p.HasType type) : Gives (functionDecl scope name type) p fun d q =>
      p.Lays q ∧ d < q.decls.size ∧ (q.decl d).kind = .function type [] none [] := by
  refine .get_bind (.guard trivial fun hfun => ?_)
  refine pushDecl_lays h name scope ?_ ⟨by simpa using hfun, nofun⟩
  rintro t ⟨⟩
  exact ht

theorem param_lays (h : p.Printable) (function : DeclId) (name : String) {type : QualType}
    (ht : p.HasType type) (index : Nat) : Gives (param function name type index) p fun d q =>
      p.Lays q ∧ d < q.decls.size := by
  refine .get_bind (.guard trivial fun _ => ?_)
  refine Ensures.imp (pushDecl_lays h name _ (k := .param type index) ?_ trivial)
    fun d q ⟨hq, hd, _⟩ => ⟨hq, hd⟩
  rintro t ⟨⟩
  exact ht

theorem varDecl_lays (h : p.Printable) (scope : Scope) (name : String) {type : QualType}
    (ht : p.HasType type) (storage : Storage) : Gives (varDecl scope name type storage) p fun d q =>
      p.Lays q ∧ d < q.decls.size ∧ (q.decl d).kind = .var type none storage := by
  refine .get_bind (.guard trivial fun _ => ?_)
  refine pushDecl_lays h name scope ?_ trivial
  rintro t ⟨⟩
  exact ht

theorem recordDecl_lays (h : p.Printable) (scope : Scope) (name : String) :
    Gives (recordDecl scope name) p fun d q =>
      p.Lays q ∧ d < q.decls.size ∧ (q.decl d).kind = .record [] :=
  pushDecl_lays h name scope nofun (by simp [LaidDecl])

/-- Listing a declaration at file level or among the locals of a function. -/
theorem addDecl_lays (h : p.Printable) {scope : Scope} (hscope : ∀ r, scope ≠ .record r) {d : DeclId}
    (hd : d < p.decls.size) (hunit : (p.decl d).kind.IsUnit) :
    Gives (addDecl scope d) p fun _ q => p.Lays q := by
  cases scope with
  | file => exact h.listed hd hunit
  | record r => exact absurd rfl (hscope r)
  | function f =>
      refine .get_bind ?_
      split
      · next type params body locals hk =>
          refine h.setDeclKind (by rw [hk]; rfl) fun hf => ?_
          have hlaid := h.decls f hf
          rw [hk] at hlaid
          exact hlaid
      · exact .throw _ trivial

theorem setParams_lays (h : p.Printable) (function : DeclId) (params : List DeclId) :
    Gives (setParams function params) p fun _ q => p.Lays q := by
  refine (setParams_gives function params).imp ?_
  rintro _ _ ⟨type, old, body, locals, hk, rfl⟩
  refine h.setDeclKind (by rw [hk]; rfl) fun hf => ?_
  have hlaid := h.decls function hf
  rw [hk] at hlaid
  exact hlaid

theorem setBody_lays (h : p.Printable) (function : DeclId) {body : StmtId}
    (hbody : body < p.stmts.size) : Gives (setBody function body) p fun _ q => p.Lays q := by
  refine (setBody_gives function body).imp ?_
  rintro _ _ ⟨type, params, old, locals, hk, rfl⟩
  refine h.setDeclKind (by rw [hk]; rfl) fun hf => ?_
  have hlaid := h.decls function hf
  rw [hk] at hlaid
  refine ⟨hlaid.1, ?_⟩
  rintro i ⟨⟩
  exact hbody

theorem setInit_lays (h : p.Printable) (var : DeclId) {init : ExprId} (hinit : init < p.exprs.size) :
    Gives (setInit var init) p fun _ q => p.Lays q := by
  refine .get_bind ?_
  dsimp only
  split
  · next type old storage hk =>
      refine (initializable_adds h.typed _ hinit).gives.bind fun _ q ⟨hq, _⟩ => ?_
      have hpq := hq.lays h
      have hkq : (q.decl var).kind = .var type old storage := by
        rw [decl, hq.decls]
        exact hk
      have hset := hpq.1.setDeclKind (k := .var type (some init) storage) (by rw [hkq]; rfl)
        fun _ => trivial
      exact hpq.trans hset
  · exact .throw _ trivial

theorem fieldDecl_lays (h : p.Printable) (record : DeclId) (name : String) {type : QualType}
    (ht : p.HasType type) : Gives (fieldDecl record name type) p fun d q => p.Lays q ∧ d < q.decls.size := by
  refine .get_bind ?_
  dsimp only
  split
  · next fields hk =>
      refine .guard trivial fun _ => ?_
      refine (pushDecl_lays h name (.record record) (k := .field type fields.length) ?_ trivial).bind ?_
      · rintro t ⟨⟩
        exact ht
      rintro d q ⟨hq, hd, hkind⟩
      refine Ensures.bind (P := fun _ r => q.Lays r) ?_ fun _ r hr => .pure
        ⟨hq.trans hr, Nat.lt_of_lt_of_le hd hr.2.decls⟩
      refine .get_bind ?_
      split
      · next fields' hk' =>
          refine hq.1.setDeclKind (by rw [hk']; rfl) fun hlt f hf => ?_
          obtain hf | hf := List.mem_append.mp hf
          · have hlaid := hq.1.decls record hlt
            rw [hk'] at hlaid
            exact hlaid f hf
          · cases List.mem_singleton.mp hf
            rw [hkind]
            exact ⟨hd, trivial⟩
      · exact .throw _ trivial
  · exact .throw _ trivial

end Check

end Readback
