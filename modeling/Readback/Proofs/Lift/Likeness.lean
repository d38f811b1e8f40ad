import Readback.Proofs.Alongside
import Readback.Proofs.Graph.Wrapped
import Readback.Proofs.Lift.Account

/-! # Likenesses of two lifts

Two lifts, of two graphs or from two states, may be alike without being equal: the same rules apply in
the same order, but what they build has other ids.

* A `Likeness` says what is alike on the two sides: which operations are compared, which pairs of
  states, and, for given states, which types, expressions, statements and declarations. Ids are alike
  relative to the states, since they are ids of the two programs, and what is alike stays so when the
  states lead on (`Likeness.leads`).
* `Likeness.Runs w m m' V` compares two steps from a pair of states: if these are alike, both steps
  succeed, with alike states and with results that `V` relates, or both fail. Failures have to be the
  same only if the likeness is strict. The lemmas on `Runs` follow the way in which steps are put
  together (`Runs.bind`, `Runs.ite`, `Runs.mapM`, `Runs.forM`).
* `Likeness.Respected` lists the laws from which it follows that whole rules run alike. They come in
  groups: what is alike stays alike (`Lasting`), the graphs show the same of the operations that are
  compared (`Mirrors`), alike states hold alike nodes (`Recalls`), and the single steps of a lift run
  alike: those that note something (`Notes`), that build expressions (`BuildsExprs`) and statements
  (`BuildsStmts`), and that declare (`Declares`) and fill declarations (`Fills`).

A particular likeness is shown to respect the groups one by one. What follows from the laws is proved
once, for all likenesses. -/

namespace Readback

open Step

/-- Two states side by side. -/
abbrev Twin := LiftState × LiftState

/-- What is alike in two lifts. Types, expressions, statements and declarations are ids of the two
programs, so whether two of them are alike depends on the states. -/
structure Likeness (env env' : LiftEnv) where
  /-- The operations whose lifting is compared. -/
  covers : OpId → Prop
  /-- Whether failures have to be the same. -/
  strict : Prop
  /-- Whether operations at file level are compared. -/
  atFile : Prop
  state : Twin → Prop
  /-- The second pair of states comes after the first. -/
  leads : Twin → Twin → Prop
  leads_refl (w) : leads w w
  leads_trans {u v w} : leads u v → leads v w → leads u w
  type : Twin → QualType → QualType → Prop
  expr : Twin → ExprId → ExprId → Prop
  stmt : Twin → StmtId → StmtId → Prop
  decl : Twin → DeclId → DeclId → Prop
  /-- The declarations were just made and are not listed anywhere. -/
  created : Twin → DeclId → DeclId → Prop
  /-- The declarations are those of an operation. -/
  noted : Twin → OpId → DeclId → DeclId → Prop

namespace Likeness

variable {env env' : LiftEnv} (L : Likeness env env') {α α' β β' : Type} {w : Twin}

/-- Alike scopes: file level, or functions that an operation was declared as. -/
def scope (w : Twin) : Scope → Scope → Prop
  | .file, .file => L.atFile
  | .function f, .function f' => ∃ id, L.noted w id f f'
  | _, _ => False

/-- A compared operation of the two graphs. -/
structure Shares (id : OpId) (o o' : Operation) : Prop where
  covers : L.covers id
  left : env.graph.op? id = some o
  right : env'.graph.op? id = some o'
  alike : o.Alike o'

/-- From alike states both steps succeed, with alike states and results, or both fail. -/
def Runs (w : Twin) (m : Lift α) (m' : Lift α') (V : Twin → α → α' → Prop) : Prop :=
  L.state w → Together m m' w.1 w.2
    (fun a a' t t' => L.state (t, t') ∧ L.leads w (t, t') ∧ V (t, t') a a') fun e e' => L.strict → e = e'

/-- Both steps of construction give alike results. -/
abbrev Makes (w : Twin) (m : Check α) (m' : Check α') (V : Twin → α → α' → Prop) : Prop :=
  L.Runs w (Lift.typed m) (Lift.typed m') V

/-- Any result is alike. -/
abbrev anything : Twin → α → α' → Prop := fun _ _ _ => True

/-! ### Steps one after the other -/

section Combinators

variable {L} {γ : Type} {m : Lift α} {m' : Lift α'} {U : Twin → β → β' → Prop} {V V' : Twin → α → α' → Prop}

theorem Runs.imp (hm : L.Runs w m m' V) (h : ∀ v a a', L.state v → V v a a' → V' v a a') :
    L.Runs w m m' V' := fun hw =>
  (hm hw).imp fun _ _ _ _ ⟨hs, hl, hv⟩ => ⟨hs, hl, h _ _ _ hs hv⟩

theorem Runs.throw {e e' : LiftError} (h : L.strict → e = e') :
    L.Runs w (throw e : Lift α) (MonadExcept.throw e' : Lift α') V := fun _ => .throw h

theorem Runs.pure {a : α} {a' : α'} (h : V w a a') :
    L.Runs w (pure a : Lift α) (Pure.pure a' : Lift α') V := fun hw => .pure ⟨hw, L.leads_refl w, h⟩

theorem Runs.bind {f : α → Lift β} {f' : α' → Lift β'} (hm : L.Runs w m m' V)
    (hf : ∀ a a' v, L.leads w v → V v a a' → L.Runs v (f a) (f' a') U) :
    L.Runs w (m >>= f) (m' >>= f') U := fun hw =>
  (hm hw).bind fun a a' t t' ⟨hs, hl, hv⟩ =>
    (hf a a' (t, t') hl hv hs).imp fun _ _ _ _ ⟨hs, hl', hu⟩ => ⟨hs, L.leads_trans hl hl', hu⟩

theorem Runs.map {f : α → β} {f' : α' → β'} (hm : L.Runs w m m' fun v a a' => U v (f a) (f' a')) :
    L.Runs w (f <$> m) (f' <$> m') U := fun hw => (hm hw).map

theorem Runs.get_bind {f : LiftState → Lift β} {f' : LiftState → Lift β'}
    (h : L.state w → L.Runs w (f w.1) (f' w.2) U) : L.Runs w (get >>= f) (get >>= f') U := fun hw =>
  .get_bind (h hw hw)

theorem Runs.ite {c c' : Prop} [Decidable c] [Decidable c'] {k : Lift α} {k' : Lift α'}
    (hc : c' ↔ c) (ht : c → L.Runs w m m' V) (hf : ¬ c → L.Runs w k k' V) :
    L.Runs w (if c then m else k) (if c' then m' else k') V := by
  by_cases h : c
  · rw [if_pos h, if_pos (hc.mpr h)]
    exact ht h
  · rw [if_neg h, if_neg (mt hc.mp h)]
    exact hf h

theorem Runs.guard {c c' : Prop} [Decidable c] [Decidable c'] {e e' : LiftError} (hc : c' ↔ c)
    (he : L.strict → e = e') (hk : ¬ c → L.Runs w m m' V) :
    L.Runs w (if c then do let _ ← (MonadExcept.throw e : Lift PUnit); m else m)
      (if c' then do let _ ← (MonadExcept.throw e' : Lift PUnit); m' else m') V :=
  .ite hc (fun _ => .throw he) hk

/-- Steps for alike elements of two lists. -/
theorem Runs.mapM {f : γ → Lift α} {f' : γ → Lift α'} {l : List γ}
    (mono : ∀ {v u a a'}, L.leads v u → V v a a' → V u a a')
    (hf : ∀ x ∈ l, ∀ v, L.leads w v → L.Runs v (f x) (f' x) V) :
    L.Runs w (l.mapM f) (l.mapM f') fun v => List.Forall₂ (V v) := by
  induction l generalizing w with
  | nil => exact .pure .nil
  | cons x l ih =>
      rw [List.mapM_cons, List.mapM_cons]
      refine .bind (hf x List.mem_cons_self w (L.leads_refl w)) fun a a' v hv ha => ?_
      refine .bind (ih fun y hy u hu => hf y (List.mem_cons_of_mem x hy) u (L.leads_trans hv hu)) ?_
      exact fun as as' u hu has => .pure (.cons (mono hu ha) has)

theorem Runs.forM {f f' : γ → Lift PUnit} {l : List γ}
    (hf : ∀ x ∈ l, ∀ v, L.leads w v → L.Runs v (f x) (f' x) anything) :
    L.Runs w (l.forM f) (l.forM f') anything := by
  induction l generalizing w with
  | nil => exact .pure trivial
  | cons x l ih =>
      refine .bind (hf x List.mem_cons_self w (L.leads_refl w)) fun _ _ v hv _ => ?_
      exact ih fun y hy u hu => hf y (List.mem_cons_of_mem x hy) u (L.leads_trans hv hu)

end Combinators

/-! ### Laws -/

/-- What is alike stays alike. -/
structure Lasting : Prop where
  type_mono {v w t t'} : L.leads v w → L.type v t t' → L.type w t t'
  expr_mono {v w e e'} : L.leads v w → L.expr v e e' → L.expr w e e'
  stmt_mono {v w s s'} : L.leads v w → L.stmt v s s' → L.stmt w s s'
  decl_mono {v w d d'} : L.leads v w → L.decl v d d' → L.decl w d d'
  noted_mono {v w id d d'} : L.leads v w → L.noted v id d d' → L.noted w id d d'

/-- The graphs show the same of the operations that are compared, and these are closed under what is
lifted along with them. -/
structure Mirrors : Prop where
  op {id} : L.covers id → Option.Rel Operation.Alike (env.graph.op? id) (env'.graph.op? id)
  types : env'.graph.types = env.graph.types
  naming {id o o'} : L.Shares id o o' → ∀ role i, env'.naming role o' i = env.naming role o i
  dump {id o o'} : L.strict → L.Shares id o o' → env'.dump o' = env.dump o
  hasUses {id} : L.covers id → env'.graph.hasUses id = env.graph.hasUses id
  region {id o o' r} : L.Shares id o o' → r ∈ o.regions →
    env'.graph.region? r = env.graph.region? r ∧ env'.graph.regionOps r = env.graph.regionOps r
  inner {id o o' c} : L.Shares id o o' → o.kind? ≠ some .function → o.kind? ≠ some .var →
    c ∈ env.graph.innerOps o → L.covers c
  fieldOps {id o o' c} : L.Shares id o o' → o.kind? = some .record → c ∈ env.graph.fieldOps o →
    L.covers c

/-- Alike states hold alike nodes under the same keys, as far as the operations that are compared read
them. -/
structure Recalls : Prop where
  lifted {w id} : L.state w → L.covers id →
    Option.Rel (Option.Rel (L.stmt w)) (w.1.opStmt.get? id) (w.2.opStmt.get? id)
  declared {w id o o' v} : L.state w → L.Shares id o o' → o.isDeclaration = false →
    v ∈ o.operands →
    Option.Rel (L.decl w) (v.definingOp?.bind w.1.opDecl.get?) (v.definingOp?.bind w.2.opDecl.get?)
  source {w id o o' v} : L.state w → L.Shares id o o' → o.isDeclaration = false → v ∈ o.operands →
    Option.Rel (L.expr w) (v.definingOp?.bind w.1.exprOf?) (v.definingOp?.bind w.2.exprOf?)
  argument {w id o o' v} : L.state w → L.Shares id o o' → o.isDeclaration = false → v ∈ o.operands →
    Option.Rel (L.decl w) (w.1.argDecl.get? v) (w.2.argDecl.get? v)
  symbol {w id o o'} : L.state w → L.Shares id o o' → o.isDeclaration = false →
    ∀ name, Option.Rel (L.decl w) (w.1.symbols.get? name) (w.2.symbols.get? name)
  asExpr {w s s'} : L.state w → L.stmt w s s' →
    Option.Rel (L.expr w) (w.1.program.asExpr? s) (w.2.program.asExpr? s')
  exprStmt {w e e'} : L.state w → L.expr w e e' →
    L.stmt w (w.1.program.expr e).stmt (w.2.program.expr e').stmt

/-- Noting what was done keeps states alike. -/
structure Notes : Prop where
  hit (w : Twin) : L.Runs w
    (modify fun s => { s with stats := { s.stats with memoHits := s.stats.memoHits + 1 } })
    (modify fun s => { s with stats := { s.stats with memoHits := s.stats.memoHits + 1 } }) anything
  enter {w id x x'} : L.covers id → Option.Rel (L.stmt w) x x' → L.Runs w
    (modify fun s => s.recorded id x) (modify fun s => s.recorded id x') anything
  name (w : Twin) (role : NameRole) (name : String) : L.Runs w
    (modify fun s => { s with names := s.names ++ [(role, name)] })
    (modify fun s => { s with names := s.names ++ [(role, name)] }) anything

/-- Lifting types and building expressions gives alike results. -/
structure BuildsExprs : Prop where
  type (w : Twin) (id : TypeId) : L.Runs w (Lift.type env id) (Lift.type env' id) L.type
  declRef {w d d'} : L.decl w d d' → L.Makes w (Check.declRef d) (Check.declRef d') L.expr
  integer {w t t'} (i : Int) : L.type w t t' → L.Makes w (Check.integer i t) (Check.integer i t') L.expr
  floating {w t t'} (x : Binary64) : L.type w t t' →
    L.Makes w (Check.floating x t) (Check.floating x t') L.expr
  text (w : Twin) (s : String) : L.Makes w (Check.text s) (Check.text s) L.expr
  cast {w t t' e e'} (style : CastStyle) (c : Conversion) (category : ValueCategory) :
    L.type w t t' → L.expr w e e' → L.Makes w (Check.cast style c t e category)
      (Check.cast style c t' e' category) L.expr
  unary {w e e'} (op : UnaryOp) : L.expr w e e' → L.Makes w (Check.unary op e) (Check.unary op e') L.expr
  binary {w l l' r r'} (op : BinaryOp) : L.expr w l l' → L.expr w r r' →
    L.Makes w (Check.binary op l r) (Check.binary op l' r') L.expr
  initList {w t t' es es'} : L.type w t t' → List.Forall₂ (L.expr w) es es' →
    L.Makes w (Check.initList t es) (Check.initList t' es') L.expr
  call {w f f' es es'} : L.expr w f f' → List.Forall₂ (L.expr w) es es' →
    L.Makes w (Check.call f es) (Check.call f' es') L.expr

/-- Building statements gives alike results. -/
structure BuildsStmts : Prop where
  leaf (w : Twin) (k : StmtKind) : k ∈ [StmtKind.breaks, .continues, .empty] →
    L.Makes w (Check.pushStmt k) (Check.pushStmt k) L.stmt
  declares {w id d d'} : L.noted w id d d' →
    L.Makes w (Check.pushStmt (.declares [d])) (Check.pushStmt (.declares [d'])) L.stmt
  compound {w xs xs'} : List.Forall₂ (L.stmt w) xs xs' →
    L.Makes w (Check.compound xs) (Check.compound xs') L.stmt
  returns {w id f f' e e'} : L.noted w id f f' → Option.Rel (L.expr w) e e' →
    L.Makes w (Check.returns f e) (Check.returns f' e') L.stmt
  ifElse {w c c' y y' n n'} : L.expr w c c' → L.stmt w y y' → Option.Rel (L.stmt w) n n' →
    L.Makes w (Check.ifElse c y n) (Check.ifElse c' y' n') L.stmt
  whileLoop {w c c' b b'} : L.expr w c c' → L.stmt w b b' →
    L.Makes w (Check.whileLoop c b) (Check.whileLoop c' b') L.stmt
  doLoop {w c c' b b'} : L.expr w c c' → L.stmt w b b' →
    L.Makes w (Check.doLoop b c) (Check.doLoop b' c') L.stmt
  forLoop {w c c' i i' b b'} : Option.Rel (L.expr w) c c' → Option.Rel (L.expr w) i i' →
    L.stmt w b b' → L.Makes w (Check.forLoop none c i b) (Check.forLoop none c' i' b') L.stmt

/-- Declaring gives alike declarations, which are listed and registered in the same places. -/
structure Declares : Prop where
  functionDecl {w sc sc' t t'} (name : String) : L.scope w sc sc' → L.type w t t' →
    L.Makes w (Check.functionDecl sc name t) (Check.functionDecl sc' name t') L.created
  varDecl {w sc sc' t t'} (name : String) (storage : Storage) : L.scope w sc sc' → L.type w t t' →
    L.Makes w (Check.varDecl sc name t storage) (Check.varDecl sc' name t' storage) L.created
  recordDecl {w sc sc'} (name : String) : L.scope w sc sc' →
    L.Makes w (Check.recordDecl sc name) (Check.recordDecl sc' name) L.created
  list {w sc sc' id o o' d d'} : L.scope w sc sc' → L.Shares id o o' → L.created w d d' → L.Runs w
    (do Lift.typed (Check.addDecl sc d); Lift.noteDecl o.id d)
    (do Lift.typed (Check.addDecl sc' d'); Lift.noteDecl o'.id d') fun v _ _ => L.noted v id d d'
  register {w sc sc' id o o' d d'} : L.scope w sc sc' → L.Shares id o o' → L.noted w id d d' →
    L.Runs w (Lift.registerSymbol sc o d) (Lift.registerSymbol sc' o' d') anything
  param {w id f f' t t'} (name : String) (index : Nat) : L.noted w id f f' → L.type w t t' →
    L.Makes w (Check.param f name t index) (Check.param f' name t' index) L.decl
  bind {w id o o' b d d'} (index : Nat) : L.Shares id o o' → env.graph.entry? o = some b →
    L.decl w d d' → L.Runs w
      (modify fun s => { s with argDecl := s.argDecl.insert (.argument b index) d })
      (modify fun s => { s with argDecl := s.argDecl.insert (.argument b index) d' }) anything
  setParams {w id f f' ps ps'} : L.noted w id f f' → List.Forall₂ (L.decl w) ps ps' →
    L.Makes w (Check.setParams f ps) (Check.setParams f' ps') anything
  field {w id r r' t t'} (name : String) : L.noted w id r r' → L.type w t t' →
    L.Makes w (Check.fieldDecl r name t) (Check.fieldDecl r' name t') L.created
  enterField {w id d d'} : L.covers id → L.created w d d' → L.Runs w
    (do Lift.noteDecl id d; modify fun s => { s with opStmt := s.opStmt.insert id none })
    (do Lift.noteDecl id d'; modify fun s => { s with opStmt := s.opStmt.insert id none }) anything

/-- Declarations are filled alike, at once or by a task. -/
structure Fills : Prop where
  defer {w sc sc' id o o' d d' r} : L.scope w sc sc' → L.Shares id o o' → L.noted w id d d' →
    env.graph.filling? o = some r →
    L.Runs w (Lift.defer (o.filler sc d r)) (Lift.defer (o.filler sc' d' r)) anything
  setBody {w id f f' b b'} : L.noted w id f f' → L.stmt w b b' →
    L.Makes w (Check.setBody f b) (Check.setBody f' b') anything
  setInit {w id d d' e e'} : L.noted w id d d' → L.expr w e e' →
    L.Makes w (Check.setInit d e) (Check.setInit d' e') anything

/-- What the steps of a lift have to respect for whole lifts to be alike. -/
structure Respected : Prop extends L.Lasting, L.Mirrors, L.Recalls, L.Notes, L.BuildsExprs,
    L.BuildsStmts, L.Declares, L.Fills

end Likeness

end Readback
