import Readback.Proofs.Graph.Swapped
import Readback.Proofs.Lift.Enrolment
import Readback.Proofs.Lift.Lowering
import Readback.Proofs.Lift.Round

/-! # Lifting two functions in either order

Two functions that stand next to each other at the top change places. At file level each of them enters
its own declaration only, and in the second phase each of them lifts what stands in it. So every round
of one lift is a round of the other with two parties exchanged.

* `Graph.Neighbours` says what is asked of the functions: they stand next to each other at the top, have
  different symbols, and neither uses what is made in the other.
* A party is an operation with the share of the tables that its lifting enters. Declaring an operation
  (`Graph.declaring`) enters its own share, lifting what stands in it (`Graph.filling`) enters that of
  the operations inside, and what is outside of both functions has a share apart (`Graph.outside`). Each
  fits the graph (`declaring_fits`, `filling_fits`, `outside_fits`), so its lifting runs in tandem from
  both states.
* `Standing` relates the two lifts at the same point of both. What was listed is the same up to the
  numbers of nodes, with two neighbours exchanged (`ExchangedIn`), and every task that waits is of
  neither function, of one of them or of the other.

Three steps keep the lifts standing so: lifting an operation at the top other than the two
(`Graph.Neighbours.outer`), the two functions one after the other in either order, where the rows are
exchanged, and one sweep over the tasks that wait (`sweep_standing`). Sweeps are needed because a task
of one function may put off further tasks, which come behind those of the other function: two queues are
the same only after a whole sweep.

`pass_standing` is the first phase, `drainAux_exchanged` the second one, and `run_exchanged` both: the
lifts fail on both sides, or they come out with the same program, up to the numbers of its nodes and the
order of the two functions. -/

namespace Readback

open Step Program LiftState Relation

/-- The second list is the first one up to `R`, with two neighbours exchanged. -/
def ExchangedIn {α : Type} (R : α → α → Prop) (x y : α) (l l' : List α) : Prop :=
  ∃ front back front' back' x' y', l = front ++ x :: y :: back ∧ l' = front' ++ y' :: x' :: back' ∧
    List.Forall₂ R front front' ∧ R x x' ∧ R y y' ∧ List.Forall₂ R back back'

section ExchangedIn

variable {α : Type} {R S : α → α → Prop} {x y : α} {l l' m m' : List α}

theorem ExchangedIn.imp (h : ExchangedIn R x y l l') (hRS : ∀ {a b}, R a b → S a b) :
    ExchangedIn S x y l l' := by
  obtain ⟨front, back, front', back', x', y', hl, hl', hfront, hx, hy, hback⟩ := h
  exact ⟨front, back, front', back', x', y', hl, hl', hfront.imp fun _ _ => hRS, hRS hx, hRS hy,
    hback.imp fun _ _ => hRS⟩

theorem ExchangedIn.append (h : ExchangedIn R x y l l') (hm : List.Forall₂ R m m') :
    ExchangedIn R x y (l ++ m) (l' ++ m') := by
  obtain ⟨front, back, front', back', x', y', rfl, rfl, hfront, hx, hy, hback⟩ := h
  exact ⟨front, back ++ m, front', back' ++ m', x', y', by simp, by simp, hfront, hx, hy,
    List.rel_append hback hm⟩

/-- A row in which each party has one thing. -/
theorem Row.Paired.exchangedIn {r r' : Row α} (h : r.Paired R R R r') (hx : r.mine = [x])
    (hy : r.yours = [y]) : ExchangedIn R x y r.inOrder r'.exchanged := by
  obtain ⟨front, mine, yours, back⟩ := r
  obtain ⟨front', mine', yours', back'⟩ := r'
  obtain ⟨hfront, hmine, hyours, hback⟩ := h
  cases hx
  cases hy
  obtain ⟨x', t, hx, ht, rfl⟩ := List.forall₂_cons_left_iff.mp hmine
  obtain ⟨y', t', hy, ht', rfl⟩ := List.forall₂_cons_left_iff.mp hyours
  cases List.forall₂_nil_left_iff.mp ht
  cases List.forall₂_nil_left_iff.mp ht'
  exact ⟨front, back, front', back', x', y', by simp [Row.inOrder], by simp [Row.exchanged], hfront, hx,
    hy, hback⟩

end ExchangedIn

/-! ### The shares of the parties -/

namespace Graph

/-- What is entered for the operations for which `P` holds, with the symbols `names`. -/
def shareOf (g : Graph) (P : OpId → Prop) (names : String → Prop) : Share where
  ops := P
  values v := ∃ id o b i, P id ∧ g.op? id = some o ∧ g.entry? o = some b ∧ v = .argument b i
  names := names

/-- What is entered for an operation by itself. -/
def ownShare (g : Graph) (id : OpId) : Share :=
  g.shareOf (· = id) fun n => ∃ o, g.op? id = some o ∧ o.symbol? = some n

/-- What is entered for the operations in an operation. -/
def innerShare (g : Graph) (id : OpId) : Share :=
  g.shareOf (TransGen g.Encloses id) fun _ => False

/-- What is entered for operations that are not in either of two. -/
def outerShare (g : Graph) (f k : OpId) : Share where
  ops id := ¬ ReflTransGen g.Encloses f id ∧ ¬ ReflTransGen g.Encloses k id
  values _ := True
  names _ := True

theorem Formed.share_apart {g : Graph} (h : g.Formed) {P Q : OpId → Prop} {N M : String → Prop}
    (hops : ∀ id, P id → ¬ Q id) (hnames : ∀ n, N n → ¬ M n) :
    (g.shareOf P N).Apart (g.shareOf Q M) where
  ops := hops _
  values := by
    rintro _ ⟨id, o, b, i, hid, ho, hb, rfl⟩ ⟨id', o', b', i', hid', ho', hb', heq⟩
    cases heq
    cases h.entry_unique ho ho' hb hb'
    exact hops id hid hid'
  names := hnames _

end Graph

/-- The party that declares an operation. -/
def Graph.declaring (g : Graph) (id : OpId) (own : DeclId → DeclId → Prop) : Party :=
  ⟨own, g.ownShare id, g.OwnedBy (ReflTransGen g.Encloses id)⟩

/-- The party that lifts what stands in an operation. -/
def Graph.filling (g : Graph) (id : OpId) (own : DeclId → DeclId → Prop) : Party :=
  ⟨own, g.innerShare id, g.OwnedBy (ReflTransGen g.Encloses id)⟩

/-- A part of what is in neither of two operations. -/
def Graph.outside (g : Graph) (f k : OpId) (ρ : Pairing) (w : Twin) : Tandem :=
  Party.others ρ (g.outerShare f k) (g.OwnedBy (g.outerShare f k).ops) w

section Fits

variable {g : Graph} {f k : OpId} {o : Operation} {ρ : Pairing} {own own' : DeclId → DeclId → Prop}
  {l r : Program} {hown : ∀ {d d'}, own d d' → ρ.decl d d'}

theorem mem_innerOps {id c : OpId} (ho : g.op? id = some o) (hc : c ∈ g.innerOps o) :
    g.Encloses id c := by
  obtain ⟨r, hr, hc⟩ := List.mem_flatMap.mp hc
  exact ⟨o, r, ho, g.readRegions_subset o hr, hc⟩

theorem mem_fieldOps {id c : OpId} (ho : g.op? id = some o) (hc : c ∈ g.fieldOps o) :
    g.Encloses id c := by
  unfold Graph.fieldOps at hc
  cases hr : o.regions.head? with
  | none =>
      rw [hr] at hc
      cases hc
  | some r =>
      rw [hr] at hc
      exact ⟨o, r, ho, List.mem_of_head? hr, hc⟩

theorem outside_fits (hg : g.Arranged) (hf : f ∈ g.topLevelOps) (hk : k ∈ g.topLevelOps) (w : Twin) :
    (g.outside f k ρ w).Fits g where
  region _ ho hr := hg.ne_body ho hr
  inner hid ho _ _ hc := have h := mem_innerOps ho hc
    ⟨hg.outside_inner hf hid.1 h, hg.outside_inner hk hid.2 h⟩
  fieldOps hid ho _ hc := have h := mem_fieldOps ho hc
    ⟨hg.outside_inner hf hid.1 h, hg.outside_inner hk hid.2 h⟩
  values _ _ _ _ := trivial
  names _ _ _ _ := trivial
  reach hid ho hr := ⟨_, _, hid, ho, Graph.mem_of_filling? hr⟩
  late _ _ _ _ := trivial
  apart _ := id
  operands _ _ _ _ := ⟨id, fun _ _ => id⟩
  symbols _ _ _ _ := id

theorem declaring_fits (hg : g.Arranged) (hne : f ≠ k) (ho : g.op? f = some o)
    (hkind : o.kind? = some .function) :
    ((g.declaring f own).tandem (g.declaring k own') ρ hown True False l r).Fits g := by
  have same {id : OpId} {q : Operation} (hid : id = f) (hq : g.op? id = some q) : q = o := by
    rw [hid, ho] at hq
    exact (Option.some.inj hq).symm
  have hdecl : o.isDeclaration = true := by
    unfold Operation.isDeclaration
    rw [hkind]
  constructor
  case region => exact fun _ hq hr => hg.ne_body hq hr
  case inner => exact fun hid hq hf => absurd (same hid hq ▸ hkind) hf
  case fieldOps =>
    intro id q c hid hq hk
    cases same hid hq
    rw [hkind] at hk
    cases hk
  case values => exact fun i hid hq hb => ⟨_, _, _, i, hid, hq, hb, rfl⟩
  case names =>
    intro id q n _ hid hq hn
    cases hid
    exact ⟨q, hq, hn⟩
  case reach =>
    intro id q x hid hq hr
    cases hid
    exact ⟨f, q, .refl, hq, Graph.mem_of_filling? hr⟩
  case late => exact fun _ hid hq hf => absurd (same hid hq ▸ hkind) hf
  case apart =>
    intro id hid hid'
    cases hid
    exact hne hid'
  case operands =>
    intro id q v hid hq hno
    cases same hid hq
    rw [hdecl] at hno
    cases hno
  case symbols =>
    intro id q hid hq hno
    cases same hid hq
    rw [hdecl] at hno
    cases hno

theorem filling_fits (hg : g.Arranged) (hf : f ∈ g.topLevelOps) (hk : k ∈ g.topLevelOps) (hne : f ≠ k)
    (hforeign : g.Foreign f k) :
    ((g.filling f own).tandem (g.filling k own') ρ hown False False l r).Fits g where
  region _ ho hr := hg.ne_body ho hr
  inner hid ho _ _ hc := hid.tail (mem_innerOps ho hc)
  fieldOps hid ho _ hc := hid.tail (mem_fieldOps ho hc)
  values i hid ho hb := ⟨_, _, _, i, hid, ho, hb, rfl⟩
  names hfalse := hfalse.elim
  reach hid ho hr := ⟨_, _, hid.to_reflTransGen, ho, Graph.mem_of_filling? hr⟩
  late hfalse := hfalse.elim
  apart hid hid' := hg.apart_of_top hf hk hne hid.to_reflTransGen hid'.to_reflTransGen
  operands := by
    intro id q v hid hq _ hv
    have hout := hforeign id q v hid hq hv
    refine ⟨?_, ?_⟩
    · rintro ⟨c, p, b, i, hc, hp, hb, rfl⟩
      exact hout (Graph.definedIn_entry hg.toFormed hc.to_reflTransGen hp hb i)
    · intro c hc hin
      cases v with
      | result d i =>
          cases hc
          exact hout hin
      | argument b i => cases hc
  symbols _ _ _ _ := id

end Fits

/-- Two functions next to each other at the top, which change places. They have different symbols, and
neither uses what is made in the other. -/
structure Graph.Neighbours (g g' : Graph) (f k : OpId) (front back : List OpId) : Prop
    extends g.Swaps g' f k front back where
  arranged : g.Arranged
  function : ∃ o, g.op? f = some o ∧ o.kind? = some .function
  function' : ∃ o, g.op? k = some o ∧ o.kind? = some .function
  symbols : ∀ o o', g.op? f = some o → g.op? k = some o' → o.symbol? ≠ o'.symbol?
  foreign : g.Foreign f k
  foreign' : g.Foreign k f

/-! ### Parts that pass -/

namespace Lift

/-- Lifts an operation at file level. -/
def visit (env : LiftEnv) (id : OpId) : Lift PUnit := do
  let _ ← op env .file id

variable {env : LiftEnv}

theorem sweep_append (ts us : List Task) :
    sweep env (ts ++ us) = (do sweep env ts; sweep env us) := by
  induction ts with
  | nil => rfl
  | cons t ts ih =>
      rw [List.cons_append, sweep, sweep, ih, bind_assoc]

theorem sweep_inOrder (r : Row Task) : sweep env r.inOrder = (do
    sweep env r.front
    (do sweep env r.mine; sweep env r.yours)
    sweep env r.back) := by
  simp only [Row.inOrder, sweep_append, bind_assoc]

theorem sweep_exchanged (r : Row Task) : sweep env r.exchanged = (do
    sweep env r.front
    (do sweep env r.yours; sweep env r.mine)
    sweep env r.back) := by
  simp only [Row.exchanged, sweep_append, bind_assoc]

theorem pass_eq {f k : OpId} {front back : List OpId} (h : env.graph.topLevelOps = front ++ f :: k :: back) :
    pass env = (do
      front.forM (visit env)
      (do visit env f; visit env k)
      back.forM (visit env)) := by
  show env.graph.topLevelOps.forM (visit env) = _
  simp only [h, List.forM_eq_forM, List.forM_append, List.forM_cons, bind_assoc]

/-- Lifting a function at the top that was not lifted before declares it, and lists it last. -/
theorem visit_function (hg : env.graph.Arranged) {id : OpId} {o : Operation}
    (ho : env.graph.op? id = some o) (hk : o.kind? = some .function) (htop : id ∈ env.graph.topLevelOps)
    {s t : LiftState} (hs : Rostered env.graph s) (hnew : s.opStmt.get? id = none)
    (hrun : visit env id s = .ok ⟨⟩ t) :
    Rostered env.graph t ∧ ∃ d, t.opDecl.get? id = some d ∧
      t.program.topLevel = s.program.topLevel ++ [d] := by
  have hdecl : o.isDeclaration = true := by
    unfold Operation.isDeclaration
    rw [hk]
  have hscope : s.scopeIn (env.graph.functionAround? id) = some .file := by
    rw [hg.functionAround?_top htop]
    rfl
  have hjoins : Gives (visit env id) s fun _ t => Joins env.graph .file id o s t :=
    (opAux_joins hg ho hdecl hnew hs hscope).bind fun _ _ ht => .pure ht
  unfold Gives Ensures at hjoins
  rw [hrun] at hjoins
  have hlisted : t.program.topLevel = s.program.topLevel ++ [s.program.decls.size] :=
    hjoins.roll.listed nofun
  exact ⟨(hs.joins hg hjoins ho hnew (.top htop) hscope).1, _, hjoins.self, hlisted⟩

theorem visits_rostered (hg : env.graph.Arranged) {ids : List OpId}
    (hids : ∀ id ∈ ids, id ∈ env.graph.topLevelOps) {s t : LiftState} (hs : Rostered env.graph s)
    (hrun : ids.forM (visit env) s = .ok ⟨⟩ t) : Rostered env.graph t := by
  have hvisits : (enrolling env.graph none .file).Follows
      (ids.flatMap (env.graph.walkAux env.graph.fileInner (env.graph.operations.size + 1)))
      (ids.forM (visit env)) := by
    refine .forM fun id hid => .close (enrolling_follows fun t ht hscope => ?_) fun _ => .pure _
    exact opAux_enrols hg _ (.top (hids id hid)) ht (hg.functionAround?_top (hids id hid) ▸ hscope)
  have hgives : Gives (ids.forM (visit env)) s fun _ t => Rostered env.graph t :=
    (hvisits.enrols hs rfl).imp fun _ _ ht => ht.rostered
  unfold Gives Ensures at hgives
  rwa [hrun] at hgives

end Lift

namespace Tandem.Fits

variable {T : Tandem} {g g' : Graph} {target : Target} {naming : Naming} {showOps : Bool} {w : Twin}
  (h : T.Fits g) (hform : g.Formed) (hg : g.Reordered g')

include h hform hg

theorem visit_runs (hfile : T.accord.atFile) {id : OpId} (hid : T.share.ops id) :
    (T.likeness target ⟨g, naming, showOps⟩ ⟨g', naming, showOps⟩).Runs w
      (Lift.visit ⟨g, naming, showOps⟩ id) (Lift.visit ⟨g', naming, showOps⟩ id)
      Likeness.anything :=
  .bind (op_lifts (h.respected hform hg) hg hid w .file .file hfile)
    fun _ _ _ _ _ => .pure trivial

theorem visits_pass (hfile : T.accord.atFile) {ids : List OpId} (hids : ∀ id ∈ ids, T.share.ops id) :
    T.Passes g target 0 w (ids.forM (Lift.visit ⟨g, naming, showOps⟩))
      (ids.forM (Lift.visit ⟨g', naming, showOps⟩)) :=
  .of_runs (.forM fun _ hid _ _ => h.visit_runs hform hg hfile (hids _ hid))

end Tandem.Fits

/-! ### Two neighbours -/

/-- The lifts are at the same point, having listed the same with two declarations exchanged. What waits
is of neither function, of one of them or of the other. -/
def Standing (g : Graph) (target : Target) (f k : OpId) (d e : DeclId) (w : Twin) : Prop :=
  ∃ ρ own own' tasks tasks', Abreast g target ρ own own' w ∧
    ExchangedIn ρ.decl d e w.1.program.topLevel w.2.program.topLevel ∧
    w.1.queue.pending = Row.inOrder tasks ∧ w.2.queue.pending = Row.exchanged tasks' ∧
    tasks.Paired (Task.Paired True (g.OwnedBy (g.outerShare f k).ops) ρ.decl)
      (Task.Paired False (g.OwnedBy (ReflTransGen g.Encloses f)) own)
      (Task.Paired False (g.OwnedBy (ReflTransGen g.Encloses k)) own') tasks'

/-- Nothing is paired. -/
def Pairing.none : Pairing := ⟨fun _ _ => False, fun _ _ => False, fun _ _ => False⟩

theorem abreast_start (g : Graph) (target : Target) :
    Abreast g target .none (fun _ _ => False) (fun _ _ => False)
      (LiftState.start target, LiftState.start target) where
  matched := ⟨rfl, ⟨Interned.distinct_empty, Interned.distinct_empty⟩,
    ⟨TypeArena.recordless_empty, TypeArena.recordless_empty⟩,
    ⟨(represented_empty target).ordered, (represented_empty target).ordered⟩, False.elim, False.elim,
    False.elim, False.elim, False.elim⟩
  agrees := ⟨fun _ => .none, fun _ => .none, fun _ => .none, fun _ => .none⟩
  typed := ⟨typesLifted_start g target, typesLifted_start g target⟩
  decls := rfl
  exprs := rfl
  stmts := rfl
  mine := False.elim
  yours := False.elim
  apart := False.elim

namespace Graph.Neighbours

variable {g g' : Graph} {f k : OpId} {front back : List OpId} (h : g.Neighbours g' f k front back)
  {target : Target} {naming : Naming} {showOps : Bool}

include h

theorem ne : f ≠ k := by
  have hnodup : g.topLevelOps.Nodup := h.arranged.regionOps_nodup g.body
  rw [h.left] at hnodup
  have hpair := (List.nodup_append.mp hnodup).2.1
  exact fun heq => (List.nodup_cons.mp hpair).1 (heq ▸ List.mem_cons_self)

theorem top : f ∈ g.topLevelOps ∧ k ∈ g.topLevelOps := by
  rw [h.left]
  exact ⟨by simp, by simp⟩

/-- The other operations at the top. -/
theorem outer {id : OpId} (hid : id ∈ front ∨ id ∈ back) :
    id ∈ g.topLevelOps ∧ (g.outerShare f k).ops id := by
  have hnodup : g.topLevelOps.Nodup := h.arranged.regionOps_nodup g.body
  have htop : id ∈ g.topLevelOps := by
    rw [h.left]
    rcases hid with hid | hid <;> simp [hid]
  rw [h.left] at hnodup
  obtain ⟨-, hpair, hapart⟩ := List.nodup_append.mp hnodup
  have hne : f ≠ id ∧ k ≠ id := by
    rcases hid with hid | hid
    · exact ⟨fun heq => hapart id hid f List.mem_cons_self heq.symm,
        fun heq => hapart id hid k (List.mem_cons_of_mem f List.mem_cons_self) heq.symm⟩
    · obtain ⟨hf, hrest⟩ := List.nodup_cons.mp hpair
      exact ⟨fun heq => hf (heq ▸ List.mem_cons_of_mem k hid),
        fun heq => (List.nodup_cons.mp hrest).1 (heq ▸ hid)⟩
  exact ⟨htop, h.arranged.not_below_top htop hne.1, h.arranged.not_below_top htop hne.2⟩

theorem shares : (g.ownShare f).Apart (g.ownShare k) ∧ (g.innerShare f).Apart (g.innerShare k) := by
  obtain ⟨o, ho, -⟩ := h.function
  obtain ⟨o', ho', -⟩ := h.function'
  refine ⟨h.arranged.toFormed.share_apart ?_ ?_, h.arranged.toFormed.share_apart ?_ fun _ => False.elim⟩
  · rintro id rfl hk
    exact h.ne hk
  · rintro n ⟨q, hq, hn⟩ ⟨q', hq', hn'⟩
    exact h.symbols q q' hq hq' (hn.trans hn'.symm)
  · exact fun id hf hk =>
      h.arranged.apart_of_top h.top.1 h.top.2 h.ne hf.to_reflTransGen hk.to_reflTransGen

/-- The first phase: every operation at the top is lifted, with the functions in either order. -/
theorem pass_standing :
    Together (Lift.pass ⟨g, naming, showOps⟩) (Lift.pass ⟨g', naming, showOps⟩) (LiftState.start target)
      (LiftState.start target)
      (fun _ _ t t' => ∃ d e, t.opDecl.get? f = some d ∧ t.opDecl.get? k = some e ∧
        Standing g target f k d e (t, t')) fun _ _ => True := by
  obtain ⟨o, ho, hkind⟩ := h.function
  obtain ⟨o', ho', hkind'⟩ := h.function'
  have hform := h.arranged.toFormed
  have outer (σ : Pairing) (u : Twin) {ids : List OpId} (hids : ∀ id ∈ ids, id ∈ front ∨ id ∈ back) :
      (g.outside f k σ u).Passes g target 0 u (ids.forM (Lift.visit ⟨g, naming, showOps⟩))
        (ids.forM (Lift.visit ⟨g', naming, showOps⟩)) :=
    (outside_fits h.arranged h.top.1 h.top.2 u).visits_pass hform h.toReordered trivial
      fun id hid => (h.outer (hids id hid)).2
  rw [show Lift.pass ⟨g, naming, showOps⟩ = _ from Lift.pass_eq h.left,
    show Lift.pass ⟨g', naming, showOps⟩ = _ from Lift.pass_eq h.right]
  have mine (σ : Pairing) (hσ : ∀ {d d'}, False → σ.decl d d') (l r : Program) (u : Twin) :
      ((g.declaring f fun _ _ => False).tandem (g.declaring k fun _ _ => False) σ hσ True False l
        r).Passes g target 0 u (Lift.visit ⟨g, naming, showOps⟩ f)
          (Lift.visit ⟨g', naming, showOps⟩ f) :=
    .of_runs ((declaring_fits h.arranged h.ne ho hkind).visit_runs hform h.toReordered trivial
      rfl)
  have yours (σ : Pairing) (hσ : ∀ {d d'}, False → σ.decl d d') (l r : Program) (u : Twin) :
      ((g.declaring k fun _ _ => False).tandem (g.declaring f fun _ _ => False) σ hσ True False l
        r).Passes g target 0 u (Lift.visit ⟨g, naming, showOps⟩ k)
          (Lift.visit ⟨g', naming, showOps⟩ k) :=
    .of_runs ((declaring_fits h.arranged h.ne.symm ho' hkind').visit_runs hform h.toReordered
      trivial rfl)
  have hround := Party.round (abreast_start g target) h.shares.1
    (outer .none (LiftState.start target, LiftState.start target) fun _ => .inl)
    (fun _ l r u => mine _ _ l r u) (fun _ l r u => yours _ _ l r u)
    fun {σ} _ u => outer σ u fun _ => .inr
  refine hround.imp ?_
  rintro _ _ t t' ⟨s, x, s', ⟨hs, hx, hs', ht⟩, ⟨hbefore, hmine, hyours, hafter⟩, σ, own, own', tops,
    tops', tasks, tasks', -, hround, hfirst, hsecond⟩
  have hrostered : Rostered g s := @Lift.visits_rostered ⟨g, naming, showOps⟩ h.arranged front
    (fun id hid => (h.outer (.inl hid)).1) _ s (Lift.rostered_start g target) hs
  -- Neither function was lifted before its turn.
  have hnew : s.opStmt.get? f = none := hbefore.opStmt fun hid => hid.1 .refl
  have hnew' : x.opStmt.get? k = none :=
    (hmine.opStmt h.ne.symm).trans (hbefore.opStmt fun hid => hid.2 .refl)
  have hfunction : Rostered g x ∧ ∃ d, x.opDecl.get? f = some d ∧
      x.program.topLevel = s.program.topLevel ++ [d] :=
    @Lift.visit_function ⟨g, naming, showOps⟩ h.arranged f o ho hkind h.top.1 s x hrostered hnew hx
  obtain ⟨hrostered, d, hd, hlist⟩ := hfunction
  have hfunction' : Rostered g s' ∧ ∃ e, s'.opDecl.get? k = some e ∧
      s'.program.topLevel = x.program.topLevel ++ [e] :=
    @Lift.visit_function ⟨g, naming, showOps⟩ h.arranged k o' ho' hkind' h.top.2 x s' hrostered hnew' hs'
  obtain ⟨-, e, he, hlist'⟩ := hfunction'
  have hmined : tops.mine = [d] := List.append_cancel_left (hfirst.symm.trans hlist)
  have hyoured : tops.yours = [e] := List.append_cancel_left (hsecond.symm.trans hlist')
  refine ⟨d, e, ?_, ?_, σ, own, own', tasks, tasks', hround.abreast, ?_,
    hround.put_left (Nat.zero_le _), hround.put_right (Nat.zero_le _), hround.put⟩
  · rw [hafter.opDecl fun hid => hid.1 .refl, hyours.opDecl h.ne, hd]
  · rw [hafter.opDecl fun hid => hid.2 .refl, he]
  · rw [hround.listed_left, hround.listed_right]
    exact hround.listed.exchangedIn hmined hyoured

/-- One sweep over all that waits. -/
theorem sweep_standing {d e : DeclId} {w : Twin} {ρ : Pairing} {own own' : DeclId → DeclId → Prop}
    {tasks tasks' : Row Task} (hw : Abreast g target ρ own own' w)
    (hlisted : ExchangedIn ρ.decl d e w.1.program.topLevel w.2.program.topLevel)
    (hl : w.1.queue.pending = tasks.inOrder) (hr : w.2.queue.pending = tasks'.exchanged)
    (hpaired : tasks.Paired (Task.Paired True (g.OwnedBy (g.outerShare f k).ops) ρ.decl)
      (Task.Paired False (g.OwnedBy (ReflTransGen g.Encloses f)) own)
      (Task.Paired False (g.OwnedBy (ReflTransGen g.Encloses k)) own') tasks') :
    Together (Lift.sweep ⟨g, naming, showOps⟩ tasks.inOrder)
      (Lift.sweep ⟨g', naming, showOps⟩ tasks'.exchanged) w.1 w.2
      (fun _ _ t t' => Standing g target f k d e (t, t')) fun _ _ => True := by
  have hform := h.arranged.toFormed
  have outer (σ : Pairing) (u : Twin) {ts ts' : List Task} (hts : List.Forall₂
      (Task.Paired True (g.OwnedBy (g.outerShare f k).ops) σ.decl) ts ts') :
      (g.outside f k σ u).Passes g target ts.length u (Lift.sweep ⟨g, naming, showOps⟩ ts)
        (Lift.sweep ⟨g', naming, showOps⟩ ts') := by
    refine Tandem.sweep_passes ((outside_fits h.arranged h.top.1 h.top.2 u).respected hform
      h.toReordered) h.toReordered ?_ (fun _ => trivial) hts
    rintro r ⟨id, o, hid, ho, hr⟩
    exact ⟨h.arranged.ne_body ho hr, fun c hc =>
      ⟨h.arranged.outside_inner h.top.1 hid.1 ⟨o, r, ho, hr, hc⟩,
        h.arranged.outside_inner h.top.2 hid.2 ⟨o, r, ho, hr, hc⟩⟩⟩
  have inside {x y : OpId} (hx : x ∈ g.topLevelOps) (hy : y ∈ g.topLevelOps) (hne : x ≠ y)
      (hforeign : g.Foreign x y) {a b : DeclId → DeclId → Prop} (σ : Pairing)
      (hσ : ∀ {d d'}, a d d' → σ.decl d d') (l r : Program) (u : Twin) {ts ts' : List Task}
      (hts : List.Forall₂ (Task.Paired False (g.OwnedBy (ReflTransGen g.Encloses x)) a) ts ts') :
      ((g.filling x a).tandem (g.filling y b) σ hσ False False l r).Passes g target ts.length u
        (Lift.sweep ⟨g, naming, showOps⟩ ts) (Lift.sweep ⟨g', naming, showOps⟩ ts') := by
    refine Tandem.sweep_passes ((filling_fits h.arranged hx hy hne hforeign).respected hform
      h.toReordered) h.toReordered ?_ id hts
    rintro r ⟨id, o, hid, ho, hr⟩
    exact ⟨h.arranged.ne_body ho hr, fun c hc => .tail' hid ⟨o, r, ho, hr, hc⟩⟩
  rw [Lift.sweep_inOrder, Lift.sweep_exchanged]
  have hround := Party.round hw h.shares.2 (outer ρ w hpaired.front)
    (fun {σ} hσ l r u => inside h.top.1 h.top.2 h.ne h.foreign σ (fun hd => hσ.decl (hw.mine hd)) l r u
      hpaired.mine)
    (fun {σ} hσ l r u => inside h.top.2 h.top.1 h.ne.symm h.foreign' σ
      (fun hd => hσ.decl (hw.yours hd)) l r u hpaired.yours)
    fun {σ} hσ u => outer σ u (hpaired.back.imp fun _ _ ht => ht.mono id id hσ.decl)
  refine hround.imp ?_
  rintro _ _ t t' ⟨s, x, s', -, -, σ, own₁, own₂, tops, tops', next, next', hσ, hround, -⟩
  obtain ⟨hmine, hyours⟩ := hround.quiet id
  have hmine' : tops'.mine = [] := List.forall₂_nil_left_iff.mp (hmine ▸ hround.listed.mine)
  have hyours' : tops'.yours = [] := List.forall₂_nil_left_iff.mp (hyours ▸ hround.listed.yours)
  obtain ⟨hlength, hlength'⟩ := hpaired.length
  refine ⟨σ, own₁, own₂, next, next', hround.abreast, ?_, ?_, ?_, hround.put⟩
  · rw [hround.listed_left, hround.listed_right]
    refine (hlisted.imp hσ.decl).append ?_
    simp only [Row.inOrder, Row.exchanged, hmine, hyours, hmine', hyours', List.append_nil]
    exact List.rel_append hround.listed.front hround.listed.back
  · rw [hround.put_left (by rw [hl, hlength]), hl, ← hlength, List.drop_length, List.nil_append]
  · rw [hround.put_right (by rw [hr, hlength']), hr, ← hlength', List.drop_length, List.nil_append]

/-- The second phase: sweep after sweep until nothing waits. -/
theorem drainAux_exchanged {d e : DeclId} (n count : Nat) {finished : Nat} {w : Twin}
    (hw : Standing g target f k d e w) (hbal : Balanced g finished 0 w.1)
    (hbound : g.declarers.card ≤ n + finished) :
    Together (Queue.drainAux (Lift.task ⟨g, naming, showOps⟩) LiftError.unbounded n count)
      (Queue.drainAux (Lift.task ⟨g', naming, showOps⟩) LiftError.unbounded n count) w.1 w.2
      (fun _ _ t t' => ∃ ρ, Even g target ρ (t, t') ∧
        ExchangedIn ρ.decl d e t.program.topLevel t'.program.topLevel) fun _ _ => True := by
  induction n using Nat.strong_induction_on generalizing count finished w with
  | h n ih =>
      obtain ⟨ρ, own, own', tasks, tasks', habreast, hlisted, hl, hr, hpaired⟩ := hw
      obtain ⟨hlength, hlength'⟩ := hpaired.length
      have hsame : tasks'.exchanged.length = tasks.inOrder.length := hlength'.trans hlength.symm
      by_cases hnil : tasks.inOrder = []
      · rw [hnil, List.length_nil, List.length_eq_zero_iff] at hsame
        refine .of_eq (Lift.drainAux_nil (hl.trans hnil) n count)
          (Lift.drainAux_nil (hr.trans hsame) n count) (.pure ⟨ρ, habreast.toEven, hlisted⟩)
      · have hpos : 0 < tasks.inOrder.length := List.length_pos_of_ne_nil hnil
        have hserved := hbal.served
        have hcard := hbal.le_card
        rw [hl] at hserved
        obtain ⟨m, rfl⟩ : ∃ m, n = m + tasks.inOrder.length := ⟨n - tasks.inOrder.length, by omega⟩
        have hfront : w.1.queue.pending = tasks.inOrder ++ [] := by rw [List.append_nil, hl]
        have hfront' : w.2.queue.pending = tasks'.exchanged ++ [] := by rw [List.append_nil, hr]
        have hright : Queue.drainAux (Lift.task ⟨g', naming, showOps⟩) LiftError.unbounded
            (m + tasks'.exchanged.length) count w.2 = _ :=
          Lift.drainAux_eq_sweep tasks'.exchanged m count hfront'
        rw [hsame] at hright
        refine .of_eq (Lift.drainAux_eq_sweep tasks.inOrder m count hfront) hright ?_
        have hserves : Outcome (Lift.sweep ⟨g, naming, showOps⟩ tasks.inOrder) w.1
            (fun _ t => Balanced g (finished + tasks.inOrder.length) 0 t) fun _ _ => True :=
          @Lift.sweep_balanced ⟨g, naming, showOps⟩ h.arranged.toFormed.acyclic _ _ _ _ hfront hbal
        refine ((h.sweep_standing habreast hlisted hl hr hpaired).and_outcome hserves).bind ?_
        rintro _ _ t t' ⟨hstanding, hbalanced⟩
        exact ih m (by omega) _ hstanding hbalanced (by omega)

/-- Both lifts fail, or they come out with the same program, up to the numbers of its nodes and the order
of the two functions. -/
theorem run_exchanged :
    Together (Lift.run ⟨g, naming, showOps⟩) (Lift.run ⟨g', naming, showOps⟩) (LiftState.start target)
      (LiftState.start target)
      (fun _ _ t t' => ∃ d e ρ, t.opDecl.get? f = some d ∧ t.opDecl.get? k = some e ∧
        Even g target ρ (t, t') ∧ ExchangedIn ρ.decl d e t.program.topLevel t'.program.topLevel)
      fun _ _ => True := by
  have hacyclic : (LiftEnv.mk g naming showOps).graph.Acyclic := h.arranged.toFormed.acyclic
  have hbalanced : Outcome (Lift.pass ⟨g, naming, showOps⟩) (LiftState.start target)
      (fun _ t => Balanced g 0 0 t) fun _ _ => True :=
    (Lift.topLevel_balanced hacyclic target).mono (fun _ _ ht => ht) fun _ _ _ => trivial
  rw [Lift.run_eq, Lift.run_eq]
  refine ((h.pass_standing.and_outcome hbalanced).and_left).bind ?_
  rintro _ _ s s' ⟨⟨⟨d, e, hd, he, hstanding⟩, hbal⟩, hpass⟩
  have hrostered : Rostered g s := by
    have hpassed := @Lift.pass_enrols ⟨g, naming, showOps⟩ _ h.arranged (Lift.rostered_start g target)
    unfold Gives Ensures at hpassed
    rw [hpass] at hpassed
    exact hpassed.rostered
  have hcard := g.card_declarers_le
  have hsame : g'.operations.size + s'.queue.size = g.operations.size + s.queue.size := by
    obtain ⟨ρ, own, own', tasks, tasks', -, -, hl, hr, hpaired⟩ := hstanding
    obtain ⟨hlength, hlength'⟩ := hpaired.length
    rw [h.operations, Queue.size, Queue.size, show s.queue.pending = _ from hl,
      show s'.queue.pending = _ from hr, hlength, hlength']
  refine Together.bind (Lift.drain_together (Q := fun _ _ t t' => ∃ ρ, Even g target ρ (t, t') ∧
    ExchangedIn ρ.decl d e t.program.topLevel t'.program.topLevel) ?_).and_left ?_
  · dsimp only
    rw [hsame]
    refine (h.drainAux_exchanged _ 0 hstanding hbal (by omega)).imp ?_
    rintro _ _ t t' ⟨ρ, heven, hlisted⟩
    refine ⟨ρ, ⟨heven.matched, heven.agrees.congr rfl rfl rfl rfl rfl rfl rfl rfl, ?_, heven.decls,
      heven.exprs, heven.stmts⟩, hlisted⟩
    exact ⟨heven.typed.1.later rfl (.refl _) rfl, heven.typed.2.later rfl (.refl _) rfl⟩
  · rintro _ _ t t' ⟨⟨ρ, heven, hlisted⟩, hdrain⟩
    have hkeeps := @Lift.drain_enrols ⟨g, naming, showOps⟩ _ h.arranged hrostered
    unfold Gives Ensures at hkeeps
    rw [hdrain] at hkeeps
    exact .pure ⟨d, e, ρ, hkeeps.2.opDecl f d hd, hkeeps.2.opDecl k e he, heven, hlisted⟩

end Graph.Neighbours

end Readback
