import Readback.Proofs.Alongside
import Readback.Proofs.Program.Paired

/-! # Programs that are built on side by side

Two programs match at first and are then built on, each by steps of its own. An `Accord` says where they
start and which of their declarations may be completed; what they gain from there on is paired in order.

* `Accord.pairing` gives the nodes that are paired when the left program has become `p`: those that were
  paired at the start, and the new nodes in their order. It only grows (`pairing_mono`).
* `Accord.Kept` says that the programs match, and gained as many nodes of each sort on either side.
  `Accord.Leads` says how they go on: nodes stay, only declarations that are free on either side are
  completed (`FreeLeft`, `FreeRight`), and what is listed at file level is paired.
* `Accord.Runs` is the relation between steps: both succeed, and leave programs that are kept and
  results that `V` relates, or both fail. It is kept by everything that steps are put together from
  (`Runs.bind`, `Runs.ite`, `Runs.guard`, `Runs.mapM`).

Only few steps change a program. They intern a type, append a node or complete a declaration, and do so
for the same node on both sides:

* `internNode_runs` interns the same level of a type, perhaps under different ids, and perhaps finding
  on one side what is new on the other,
* `pushExpr_runs`, `pushStmt_runs` and `pushDecl_runs` append one node, which is paired with its like,
* `fill_runs` completes a declaration of one of those that may be completed (`Accord.mine`).

All other steps of construction are put together from these. -/

namespace Readback

open Step Program

namespace Program

variable (p : Program) (free : DeclId → Prop)

theorem TypesOnly.continues {p q : Program} (h : p.TypesOnly q) (free : DeclId → Prop)
    (types : p.types.Within q.types) : p.Continues free q := by
  unfold TypesOnly at h
  rw [h]
  exact { Continues.refl free p with types }

theorem continues_internNode (node : TypeNode) : p.Continues free (p.internNode node).2 :=
  (show p.TypesOnly (p.internNode node).2 from rfl).continues free (p.types.within_intern node)

theorem continues_pushStmt (k : StmtKind) : p.Continues free (p.pushStmt k).2 :=
  { Continues.refl free p with
    stmts_size := by simp [pushStmt]
    stmts := fun s hs => by simp [pushStmt, stmt, Array.getElem?_push, Nat.ne_of_lt hs] }

theorem continues_pushExpr (k : ExprKind) (t : QualType) (c : ValueCategory) :
    p.Continues free (p.pushExpr k t c).2 :=
  { Continues.refl free p with
    exprs := p.pushExpr_grow k t c
    stmts_size := by simp [pushExpr, pushStmt]
    stmts := fun s hs => by simp [pushExpr, pushStmt, stmt, Array.getElem?_push, Nat.ne_of_lt hs] }

theorem continues_pushDecl (name : String) (scope : Scope) (k : DeclKind) :
    p.Continues free (p.pushDecl name scope k).2 :=
  { Continues.refl free p with
    decls_size := by simp [pushDecl]
    heads := fun d hd => by rw [p.decl_pushDecl_of_lt name scope k hd]; exact ⟨rfl, rfl⟩
    decls := fun d hd _ => p.decl_pushDecl_of_lt name scope k hd }

theorem continues_setDeclKind {d : DeclId} {k : DeclKind} (hk : k.sort = (p.decl d).kind.sort)
    (hfree : free d) : p.Continues free (p.setDeclKind d k) :=
  { Continues.refl free p with
    decls_size := by simp [setDeclKind]
    heads := fun x _ => by
      rw [decl_setDeclKind]
      split
      · next hd => exact ⟨rfl, hd.1 ▸ hk⟩
      · exact ⟨rfl, rfl⟩
    decls := fun x _ hx => by
      rw [decl_setDeclKind, if_neg]
      rintro ⟨rfl, -⟩
      exact hx hfree }

end Program

/-- Two programs from which on construction goes on side by side. -/
structure Accord where
  /-- The nodes that are paired so far. -/
  before : Pairing
  left : Program
  right : Program
  /-- The declarations so far that may be completed. -/
  own : DeclId → DeclId → Prop
  /-- The declarations so far that need not be the same in full. -/
  apart : DeclId → DeclId → Prop
  /-- Whether declarations are listed at file level. -/
  atFile : Prop
  own_before {d d'} : own d d' → before.decl d d'

namespace Accord

/-- The nodes that are paired when the left program has become `p`. -/
def pairing (A : Accord) (p : Program) : Pairing := A.before.along A.left A.right p

/-- The declarations that may be completed when the left program has become `p`. -/
def mine (A : Accord) (p : Program) : DeclId → DeclId → Prop :=
  along A.own A.left.decls.size A.right.decls.size p.decls.size

/-- The programs match, and gained as many nodes on either side. -/
structure Kept (A : Accord) (p q : Program) : Prop where
  matched : p.Matched (A.pairing p) A.apart q
  decls : A.left.decls.size ≤ p.decls.size ∧
    p.decls.size + A.right.decls.size = q.decls.size + A.left.decls.size
  exprs : A.left.exprs.size ≤ p.exprs.size ∧
    p.exprs.size + A.right.exprs.size = q.exprs.size + A.left.exprs.size
  stmts : A.left.stmts.size ≤ p.stmts.size ∧
    p.stmts.size + A.right.stmts.size = q.stmts.size + A.left.stmts.size

/-- A declaration on the left that may be completed. -/
def FreeLeft (A : Accord) (d : DeclId) : Prop := A.left.decls.size ≤ d ∨ ∃ d', A.own d d'

/-- A declaration on the right that may be completed. -/
def FreeRight (A : Accord) (d' : DeclId) : Prop := A.right.decls.size ≤ d' ∨ ∃ d, A.own d d'

/-- The programs go on side by side. What is listed at file level is paired. -/
structure Leads (A : Accord) (p q p' q' : Program) : Prop where
  left : p.Continues A.FreeLeft p'
  right : q.Continues A.FreeRight q'
  listed : ∃ ds ds', p'.topLevel = p.topLevel ++ ds ∧ q'.topLevel = q.topLevel ++ ds' ∧
    List.Forall₂ (A.pairing p').decl ds ds' ∧ (ds ≠ [] → A.atFile)

variable {A : Accord} {p q p' q' : Program} {α α' β β' : Type}

theorem pairing_mono (hd : p.decls.size ≤ p'.decls.size) (he : p.exprs.size ≤ p'.exprs.size)
    (hs : p.stmts.size ≤ p'.stmts.size) : (A.pairing p).Within (A.pairing p') :=
  ⟨along_mono hd, along_mono he, along_mono hs⟩

/-- At the start nothing is paired but what was. -/
theorem pairing_start (A : Accord) : A.pairing A.left = A.before := by
  obtain ⟨⟨decl, expr, stmt⟩, l, r, own, apart, atFile, hown⟩ := A
  unfold pairing Pairing.along
  congr <;> funext x x' <;> exact propext along_start

theorem Leads.pairing (h : A.Leads p q p' q') : (A.pairing p).Within (A.pairing p') :=
  pairing_mono h.left.decls_size h.left.exprs.1 h.left.stmts_size

theorem mine_mono (h : p.decls.size ≤ p'.decls.size) {d d' : DeclId} (hd : A.mine p d d') :
    A.mine p' d d' := along_mono h hd

theorem mine_pairing {d d' : DeclId} (h : A.mine p d d') : (A.pairing p).decl d d' :=
  h.imp_left A.own_before

theorem mine_free {d d' : DeclId} (h : A.mine p d d') : A.FreeLeft d ∧ A.FreeRight d' := by
  obtain hown | ⟨i, -, rfl, rfl⟩ := h
  · exact ⟨.inr ⟨d', hown⟩, .inr ⟨d, hown⟩⟩
  · exact ⟨.inl (Nat.le_add_right _ i), .inl (Nat.le_add_right _ i)⟩

/-- Nothing is listed at file level. -/
theorem Leads.quiet (hp : p.Continues A.FreeLeft p') (hq : q.Continues A.FreeRight q')
    (hlist : p'.topLevel = p.topLevel) (hlist' : q'.topLevel = q.topLevel) : A.Leads p q p' q' :=
  ⟨hp, hq, [], [], by rw [hlist, List.append_nil], by rw [hlist', List.append_nil], .nil,
    fun h => absurd rfl h⟩

theorem Leads.refl (A : Accord) (p q : Program) : A.Leads p q p q :=
  .quiet (.refl _ p) (.refl _ q) rfl rfl

theorem Leads.trans {r s : Program} (h : A.Leads p q p' q') (h' : A.Leads p' q' r s) :
    A.Leads p q r s := by
  obtain ⟨ds, ds', hds, hds', hpaired, hfile⟩ := h.listed
  obtain ⟨es, es', hes, hes', hpaired', hfile'⟩ := h'.listed
  refine ⟨h.left.trans h'.left, h.right.trans h'.right, ds ++ es, ds' ++ es', ?_, ?_, ?_, ?_⟩
  · rw [hes, hds, List.append_assoc]
  · rw [hes', hds', List.append_assoc]
  · exact List.rel_append (hpaired.imp fun _ _ => h'.pairing.decl) hpaired'
  · intro hne
    by_cases hnil : ds = []
    · exact hfile' fun heq => hne (by rw [hnil, heq]; rfl)
    · exact hfile hnil

/-! ### Runs -/

/-- Both steps succeed, and leave matching programs and results that `V` relates, or both fail. -/
def Runs (A : Accord) (p q : Program) (m : Check α) (m' : Check α')
    (V : Program → Program → α → α' → Prop) : Prop :=
  A.Kept p q → Together m m' p q
    (fun a a' p' q' => A.Kept p' q' ∧ A.Leads p q p' q' ∧ V p' q' a a') fun _ _ => True

/-- Alike types of two programs. -/
abbrev types (p q : Program) : QualType → QualType → Prop := p.types.Alike q.types

/-- Paired expressions. -/
abbrev exprs (A : Accord) (p _q : Program) : ExprId → ExprId → Prop := (A.pairing p).expr

/-- Paired statements. -/
abbrev stmts (A : Accord) (p _q : Program) : StmtId → StmtId → Prop := (A.pairing p).stmt

/-- Declarations that may be completed. -/
abbrev decls (A : Accord) (p _q : Program) : DeclId → DeclId → Prop := A.mine p

/-- Any results. -/
abbrev anything (_p _q : Program) (_ : α) (_ : α') : Prop := True

theorem Leads.types (h : A.Leads p q p' q') {t t' : QualType} (ht : types p q t t') :
    Accord.types p' q' t t' := ht.mono h.left.types h.right.types

section Combinators

variable {m : Check α} {m' : Check α'} {V W : Program → Program → α → α' → Prop}
  {U : Program → Program → β → β' → Prop}

theorem Runs.imp (hm : A.Runs p q m m' V) (h : ∀ p' q' a a', V p' q' a a' → W p' q' a a') :
    A.Runs p q m m' W := fun hk =>
  (hm hk).imp fun _ _ _ _ ⟨hk', hl, hv⟩ => ⟨hk', hl, h _ _ _ _ hv⟩

theorem Runs.pure {a : α} {a' : α'} (h : V p q a a') :
    A.Runs p q (Pure.pure a : Check α) (Pure.pure a' : Check α') V := fun hk =>
  .pure ⟨hk, .refl A p q, h⟩

theorem Runs.throw (e e' : Fault) :
    A.Runs p q (throw e : Check α) (MonadExcept.throw e' : Check α') V := fun _ => .throw trivial

theorem Runs.bind {f : α → Check β} {f' : α' → Check β'} (hm : A.Runs p q m m' V)
    (hf : ∀ a a' p' q', A.Leads p q p' q' → V p' q' a a' → A.Runs p' q' (f a) (f' a') U) :
    A.Runs p q (m >>= f) (m' >>= f') U := fun hk =>
  (hm hk).bind fun a a' p' q' ⟨hk', hl, hv⟩ =>
    (hf a a' p' q' hl hv hk').imp fun _ _ _ _ ⟨hk'', hl', hu⟩ => ⟨hk'', hl.trans hl', hu⟩

theorem Runs.map {f : α → β} {f' : α' → β'}
    (hm : A.Runs p q m m' fun p' q' a a' => U p' q' (f a) (f' a')) :
    A.Runs p q (f <$> m) (f' <$> m') U := fun hk => (hm hk).map

theorem Runs.get_bind {f : Program → Check β} {f' : Program → Check β'}
    (h : A.Kept p q → A.Runs p q (f p) (f' q) U) : A.Runs p q (get >>= f) (get >>= f') U := fun hk =>
  .get_bind (h hk hk)

theorem Runs.ite {c c' : Prop} [Decidable c] [Decidable c'] {k : Check α} {k' : Check α'}
    (hc : c' ↔ c) (ht : c → A.Runs p q m m' V) (hf : ¬ c → A.Runs p q k k' V) :
    A.Runs p q (if c then m else k) (if c' then m' else k') V := fun hk =>
  .ite hc (fun h => ht h hk) fun h => hf h hk

theorem Runs.guard {c c' : Prop} [Decidable c] [Decidable c'] {e e' : Fault} (hc : c' ↔ c)
    (hm : ¬ c → A.Runs p q m m' V) :
    A.Runs p q (if c then do let _ ← (MonadExcept.throw e : Check PUnit); m else m)
      (if c' then do let _ ← (MonadExcept.throw e' : Check PUnit); m' else m') V :=
  .ite hc (fun _ => .throw e e') hm

/-- Steps for the elements of two lists. -/
theorem Runs.mapM {γ γ' : Type} {f : γ → Check α} {f' : γ' → Check α'} {l : List γ} {l' : List γ'}
    {R : γ → γ' → Prop} (hl : List.Forall₂ R l l')
    (mono : ∀ {p q p' q' a a'}, A.Leads p q p' q' → V p q a a' → V p' q' a a')
    (hf : ∀ x x' p' q', R x x' → A.Leads p q p' q' → A.Runs p' q' (f x) (f' x') V) :
    A.Runs p q (l.mapM f) (l'.mapM f') fun p' q' => List.Forall₂ (V p' q') := by
  induction hl generalizing p q with
  | nil => exact .pure .nil
  | cons hx _ ih =>
      rw [List.mapM_cons, List.mapM_cons]
      refine .bind (hf _ _ p q hx (.refl A p q)) fun a a' p' q' hpq ha => ?_
      refine .bind (ih fun y y' r s hy hrs => hf y y' r s hy (hpq.trans hrs)) ?_
      exact fun as as' r s hrs has => .pure (.cons (mono hrs ha) has)

end Combinators

/-! ### Adding and completing nodes -/

/-- Programs that gain nothing but types. -/
theorem Kept.retyped (h : A.Kept p q) (hp : p.TypesOnly p') (hq : q.TypesOnly q')
    (within : p.types.Within p'.types) (within' : q.types.Within q'.types)
    (distinct : p'.types.Distinct ∧ q'.types.Distinct)
    (recordless : p'.types.Recordless ∧ q'.types.Recordless) : A.Kept p' q' := by
  have hleft := hp.continues (fun _ => False) within
  have hright := hq.continues (fun _ => False) within'
  unfold TypesOnly at hp hq
  generalize p'.types = a at *
  generalize q'.types = b at *
  subst hp hq
  exact ⟨h.matched.later hleft hright distinct recordless h.matched.ordered
    fun _ hapart => ⟨hapart, id, id⟩, h.decls, h.exprs, h.stmts⟩

/-- Both programs intern the same level of a type. -/
theorem Kept.intern (h : A.Kept p q) {n m : TypeNode} (hn : TypeArena.Level p.types q.types n m) :
    A.Kept (p.internNode n).2 (q.internNode m).2 :=
  h.retyped rfl rfl (p.types.within_intern n) (q.types.within_intern m)
    ⟨h.matched.distinct.1.intern n, h.matched.distinct.2.intern m⟩
    ⟨h.matched.recordless.1.intern hn.not_record.1, h.matched.recordless.2.intern hn.not_record.2⟩

theorem internNode_runs {n m : TypeNode} (hn : TypeArena.Level p.types q.types n m) :
    A.Runs p q (Check.internNode n) (Check.internNode m) types := fun hk =>
  ⟨hk.intern hn, .quiet (p.continues_internNode _ n) (q.continues_internNode _ m) rfl rfl, hn.intern⟩

theorem Kept.stmt_iff (h : A.Kept p q) (hsize : p'.stmts.size = p.stmts.size + 1) {s s' : StmtId} :
    (A.pairing p').stmt s s' ↔ (A.pairing p).stmt s s' ∨ s = p.stmts.size ∧ s' = q.stmts.size := by
  unfold Accord.pairing Pairing.along
  rw [hsize]
  exact along_succ h.stmts.2 h.stmts.1

theorem Kept.expr_iff (h : A.Kept p q) (hsize : p'.exprs.size = p.exprs.size + 1) {e e' : ExprId} :
    (A.pairing p').expr e e' ↔ (A.pairing p).expr e e' ∨ e = p.exprs.size ∧ e' = q.exprs.size := by
  unfold Accord.pairing Pairing.along
  rw [hsize]
  exact along_succ h.exprs.2 h.exprs.1

theorem Kept.decl_iff (h : A.Kept p q) (hsize : p'.decls.size = p.decls.size + 1) {d d' : DeclId} :
    (A.pairing p').decl d d' ↔ (A.pairing p).decl d d' ∨ d = p.decls.size ∧ d' = q.decls.size := by
  unfold Accord.pairing Pairing.along
  rw [hsize]
  exact along_succ h.decls.2 h.decls.1

theorem Kept.mine_new (h : A.Kept p q) (hsize : p'.decls.size = p.decls.size + 1) :
    A.mine p' p.decls.size q.decls.size := by
  unfold Accord.mine
  rw [hsize]
  exact (along_succ h.decls.2 h.decls.1).mpr (.inr ⟨rfl, rfl⟩)

/-- One more on both sides. -/
theorem gained_succ {b b' m n m' n' : Nat} (h : b ≤ m ∧ m + b' = n + b) (hm : m' = m + 1)
    (hn : n' = n + 1) : b ≤ m' ∧ m' + b' = n' + b := by omega

theorem pushStmt_runs {k k' : StmtKind} (hkind : k.Paired (A.pairing p) k') :
    A.Runs p q (Check.pushStmt k) (Check.pushStmt k') A.stmts := by
  intro hk
  have hp := p.continues_pushStmt A.FreeLeft k
  have hq := q.continues_pushStmt A.FreeRight k'
  have hsize (p : Program) (k : StmtKind) : (p.pushStmt k).2.stmts.size = p.stmts.size + 1 := by
    simp [pushStmt]
  have hself (p : Program) (k : StmtKind) : (p.pushStmt k).2.stmt p.stmts.size = ⟨p.stmts.size, k⟩ := by
    simp [pushStmt, Program.stmt]
  have hwithin := pairing_mono (A := A) hp.decls_size hp.exprs.1 hp.stmts_size
  have hmatched : Matched (A.pairing (p.pushStmt k).2) A.apart (p.pushStmt k).2 (q.pushStmt k').2 :=
    { target := hk.matched.target
      distinct := hk.matched.distinct
      recordless := hk.matched.recordless
      ordered := hk.matched.ordered
      expr := fun he => hk.matched.expr_later hp hq hwithin he
      stmt := fun hs => by
        obtain hs | ⟨rfl, rfl⟩ := (hk.stmt_iff (hsize p k)).mp hs
        · exact hk.matched.stmt_later hp hq hwithin hs
        · rw [hsize, hsize, hself, hself]
          exact ⟨Nat.lt_succ_self _, Nat.lt_succ_self _, hkind.mono hwithin⟩
      decl := fun hd => hk.matched.decl_later hp hq hd
      filled := fun hd hapart => (hk.matched.filled hd hapart).mono hwithin
      unique := hk.matched.unique }
  exact ⟨⟨hmatched, hk.decls, hk.exprs, gained_succ hk.stmts (hsize p k) (hsize q k')⟩,
    .quiet hp hq rfl rfl, (hk.stmt_iff (hsize p k)).mpr (.inr ⟨rfl, rfl⟩)⟩

/-- Expressions after their parts, and one more after its parts. -/
theorem ordered_pushExpr {k : ExprKind} (hp : p.Ordered) (hk : ∀ x ∈ k.parts, x < p.exprs.size)
    (t : QualType) (c : ValueCategory) : (p.pushExpr k t c).2.Ordered := by
  intro e x hx
  obtain hlt | heq | hgt := Nat.lt_trichotomy e p.exprs.size
  · rw [p.expr_pushExpr_of_lt k t c hlt] at hx
    exact hp e x hx
  · subst heq
    rw [p.expr_pushExpr_self k t c] at hx
    exact hk x hx
  · have hsize : (p.pushExpr k t c).2.exprs.size = p.exprs.size + 1 := by simp [pushExpr, pushStmt]
    rw [expr_of_size_le (hsize ▸ hgt)] at hx
    cases hx

theorem pushExpr_runs {k k' : ExprKind} {t t' : QualType} (hkind : k.Paired (A.pairing p) k')
    (ht : types p q t t') (c : ValueCategory) :
    A.Runs p q (Check.pushExpr k t c) (Check.pushExpr k' t' c) A.exprs := by
  intro hk
  have hp := p.continues_pushExpr A.FreeLeft k t c
  have hq := q.continues_pushExpr A.FreeRight k' t' c
  have hexprs (p : Program) (k : ExprKind) (t : QualType) :
      (p.pushExpr k t c).2.exprs.size = p.exprs.size + 1 := by simp [pushExpr, pushStmt]
  have hstmts (p : Program) (k : ExprKind) (t : QualType) :
      (p.pushExpr k t c).2.stmts.size = p.stmts.size + 1 := by simp [pushExpr, pushStmt]
  have hself (p : Program) (k : ExprKind) (t : QualType) :
      (p.pushExpr k t c).2.stmt p.stmts.size = ⟨p.stmts.size, .expr p.exprs.size⟩ := by
    simp [pushExpr, pushStmt, Program.stmt]
  have hwithin := pairing_mono (A := A) hp.decls_size hp.exprs.1 hp.stmts_size
  have hexpr := (hk.expr_iff (hexprs p k t)).mpr (.inr ⟨rfl, rfl⟩)
  have hstmt := (hk.stmt_iff (hstmts p k t)).mpr (.inr ⟨rfl, rfl⟩)
  have hmatched : Matched (A.pairing (p.pushExpr k t c).2) A.apart (p.pushExpr k t c).2 (q.pushExpr k' t' c).2 :=
    { target := hk.matched.target
      distinct := hk.matched.distinct
      recordless := hk.matched.recordless
      ordered := ⟨ordered_pushExpr hk.matched.ordered.1 (hk.matched.parts_lt hkind).1 t c,
        ordered_pushExpr hk.matched.ordered.2 (hk.matched.parts_lt hkind).2 t' c⟩
      expr := fun he => by
        obtain he | ⟨rfl, rfl⟩ := (hk.expr_iff (hexprs p k t)).mp he
        · exact hk.matched.expr_later hp hq hwithin he
        · rw [hexprs, hexprs, expr_pushExpr_self, expr_pushExpr_self]
          exact ⟨Nat.lt_succ_self _, Nat.lt_succ_self _, hkind.mono hwithin, ht, rfl, hstmt⟩
      stmt := fun hs => by
        obtain hs | ⟨rfl, rfl⟩ := (hk.stmt_iff (hstmts p k t)).mp hs
        · exact hk.matched.stmt_later hp hq hwithin hs
        · rw [hstmts, hstmts, hself, hself]
          exact ⟨Nat.lt_succ_self _, Nat.lt_succ_self _, .expr hexpr⟩
      decl := fun hd => hk.matched.decl_later hp hq hd
      filled := fun hd hapart => (hk.matched.filled hd hapart).mono hwithin
      unique := hk.matched.unique }
  exact ⟨⟨hmatched, hk.decls, gained_succ hk.exprs (hexprs p k t) (hexprs q k' t'),
    gained_succ hk.stmts (hstmts p k t) (hstmts q k' t')⟩, .quiet hp hq rfl rfl, hexpr⟩

theorem pushDecl_runs (name : String) (sc sc' : Scope) {k k' : DeclKind}
    (hhead : k.Headed p.types q.types k') (hfilled : k.Filled (A.pairing p) k') :
    A.Runs p q (Check.pushDecl name sc k) (Check.pushDecl name sc' k') A.decls := by
  intro hk
  have hp := p.continues_pushDecl A.FreeLeft name sc k
  have hq := q.continues_pushDecl A.FreeRight name sc' k'
  have hsize (p : Program) (sc : Scope) (k : DeclKind) :
      (p.pushDecl name sc k).2.decls.size = p.decls.size + 1 := by simp [pushDecl]
  have hwithin := pairing_mono (A := A) hp.decls_size hp.exprs.1 hp.stmts_size
  have hmatched : Matched (A.pairing (p.pushDecl name sc k).2) A.apart (p.pushDecl name sc k).2 (q.pushDecl name sc' k').2 :=
    { target := hk.matched.target
      distinct := hk.matched.distinct
      recordless := hk.matched.recordless
      ordered := hk.matched.ordered
      expr := fun he => hk.matched.expr_later hp hq hwithin he
      stmt := fun hs => hk.matched.stmt_later hp hq hwithin hs
      decl := fun hd => by
        obtain hd | ⟨rfl, rfl⟩ := (hk.decl_iff (hsize p sc k)).mp hd
        · exact hk.matched.decl_later hp hq hd
        · rw [hsize, hsize, decl_pushDecl_self, decl_pushDecl_self]
          exact ⟨Nat.lt_succ_self _, Nat.lt_succ_self _, rfl, hhead⟩
      filled := fun hd hapart => by
        obtain hd | ⟨rfl, rfl⟩ := (hk.decl_iff (hsize p sc k)).mp hd
        · obtain ⟨hlt, hlt', -⟩ := hk.matched.decl hd
          rw [p.decl_pushDecl_of_lt _ _ _ hlt, q.decl_pushDecl_of_lt _ _ _ hlt']
          exact (hk.matched.filled hd hapart).mono hwithin
        · rw [decl_pushDecl_self, decl_pushDecl_self]
          exact hfilled.mono hwithin
      unique := fun hd hx => by
        -- What is paired before is there before, so the new declarations differ from it.
        obtain hd | ⟨rfl, rfl⟩ := (hk.decl_iff (hsize p sc k)).mp hd <;>
          obtain hx | ⟨rfl, rfl⟩ := (hk.decl_iff (hsize p sc k)).mp hx
        · exact hk.matched.unique hd hx
        · obtain ⟨hlt, hlt', -⟩ := hk.matched.decl hd
          exact iff_of_false (Nat.ne_of_lt hlt) (Nat.ne_of_lt hlt')
        · obtain ⟨hlt, hlt', -⟩ := hk.matched.decl hx
          exact iff_of_false (Nat.ne_of_gt hlt) (Nat.ne_of_gt hlt')
        · exact ⟨fun _ => rfl, fun _ => rfl⟩ }
  exact ⟨⟨hmatched, gained_succ hk.decls (hsize p sc k) (hsize q sc' k'), hk.exprs, hk.stmts⟩,
    .quiet hp hq rfl rfl, hk.mine_new (hsize p sc k)⟩

/-- Completing a declaration in the same way. -/
theorem fill_runs {d d' : DeclId} (hd : A.mine p d d') {k k' : DeclKind}
    (hsort : k.sort = (p.decl d).kind.sort) (hsort' : k'.sort = (q.decl d').kind.sort)
    (hfilled : ¬ A.apart d d' → k.Filled (A.pairing p) k') :
    A.Runs p q (modify fun p => p.setDeclKind d k) (modify fun q => q.setDeclKind d' k')
      anything := by
  intro hk
  have hp := p.continues_setDeclKind A.FreeLeft hsort (mine_free hd).1
  have hq := q.continues_setDeclKind A.FreeRight hsort' (mine_free hd).2
  have hsize (p : Program) (d : DeclId) (k : DeclKind) :
      (p.setDeclKind d k).decls.size = p.decls.size := by simp [setDeclKind]
  have hpairing : A.pairing (p.setDeclKind d k) = A.pairing p := by
    unfold Accord.pairing Pairing.along
    rw [hsize]
    rfl
  refine Together.modify ⟨⟨?_, ?_, hk.exprs, hk.stmts⟩, .quiet hp hq rfl rfl, trivial⟩
  · rw [hpairing]
    exact
      { target := hk.matched.target
        distinct := hk.matched.distinct
        recordless := hk.matched.recordless
        ordered := hk.matched.ordered
        expr := hk.matched.expr_later hp hq (.refl _)
        stmt := hk.matched.stmt_later hp hq (.refl _)
        decl := hk.matched.decl_later hp hq
        filled := fun {x x'} hx hapart => by
          have hself := hk.matched.unique (mine_pairing hd) hx
          obtain ⟨hlt, hlt', -⟩ := hk.matched.decl hx
          rw [decl_setDeclKind, decl_setDeclKind]
          by_cases heq : d = x
          · obtain rfl := heq
            obtain rfl := hself.mp rfl
            rw [if_pos ⟨rfl, hlt⟩, if_pos ⟨rfl, hlt'⟩]
            exact hfilled hapart
          · rw [if_neg fun h => heq h.1, if_neg fun h => heq (hself.mpr h.1)]
            exact hk.matched.filled hx hapart
        unique := hk.matched.unique }
  · rw [hsize, hsize]
    exact hk.decls

end Accord

end Readback
