import Readback.Proofs.Lift.Sweep
import Readback.Proofs.Lift.Tandem

/-! # Exchanging parts of a lift

A part of a lift enters only its share of the tables and completes only its own declarations. Two parts
that do not read what the other enters can be done in either order: each of them does the same whether
the other one was before it or comes after it, so that both orders fail or both succeed and then differ
in the numbers of what was built.

* `Even` relates two lifts at the same point: the programs match in full, and the tables agree.
* A `Party` is one of those that lift next to each other: its share, its declarations, and what its
  tasks fill from. `Party.tandem` runs the part of a party from two programs, where the other party may
  have been there in one of them. What the other party entered is hidden there.
* Parties are apart (`Apart`) if they enter different keys and complete different declarations. Then
  each has all that it reads on both sides after a part of the other one (`holds_after_left`,
  `holds_after_right`).
* Parts may carry out tasks, which are taken from the front of a queue, and put others at its end.
  `Passes` is about such parts, and `Sweeps` says what they do to queue, tables and programs. Tasks that
  are carried out in a row pass if each of them runs alike (`sweep_passes`).

`Party.exchange` does two parts in one order on the left and in the other on the right. What comes of it
is `Exchanged`: each party did the same on both sides, once before the other and once after it. From
there the lifts are at the same point again (`Exchanged.even`), with the nodes of each party paired to
their like, and what was put off and what was listed stands in the order of the parties
(`Exchanged.queue`, `Exchanged.listed`). -/

namespace Readback

open Step Program

namespace Tandem

/-! ### Parts with tasks -/

/-- What two parts of lifts do to the states that each carry out `n` tasks. -/
structure Sweeps (T : Tandem) (n : Nat) (w v : Twin) : Prop where
  program : T.accord.Leads w.1.program w.2.program v.1.program v.2.program
  left : LiftState.Stays T.share w.1 v.1
  right : LiftState.Stays T.share w.2 v.2
  queue : ∃ ts ts',
    (n ≤ w.1.queue.pending.length → v.1.queue.pending = w.1.queue.pending.drop n ++ ts) ∧
    (n ≤ w.2.queue.pending.length → v.2.queue.pending = w.2.queue.pending.drop n ++ ts') ∧
    List.Forall₂ (Task.Paired T.late T.reach (T.accord.mine v.1.program)) ts ts'

variable {T : Tandem} {g : Graph} {target : Target} {env env' : LiftEnv} {n k : Nat} {u v w : Twin}

theorem Leads.sweeps (h : T.Leads w v) : T.Sweeps 0 w v :=
  have ⟨ts, ts', hts, hts', hpaired⟩ := h.queue
  ⟨h.program, h.left, h.right, ts, ts', fun _ => hts, fun _ => hts', hpaired⟩

/-- Tasks are taken from the front of a queue twice, and others put at its end. -/
theorem queue_trans {q q' q'' ts us : List Task} (h : n ≤ q.length → q' = q.drop n ++ ts)
    (h' : k ≤ q'.length → q'' = q'.drop k ++ us) (hlength : n + k ≤ q.length) :
    q'' = q.drop (n + k) ++ (ts ++ us) := by
  have hk : k ≤ (q.drop n).length := by
    rw [List.length_drop]
    omega
  have hq := h (Nat.le_of_add_right_le hlength)
  rw [h' (by rw [hq, List.length_append]; exact Nat.le_add_right_of_le hk), hq,
    List.drop_append_of_le_length hk, List.drop_drop, List.append_assoc]

theorem Sweeps.trans (h : T.Sweeps n u v) (h' : T.Sweeps k v w) : T.Sweeps (n + k) u w := by
  obtain ⟨ts, ts', hts, hts', hpaired⟩ := h.queue
  obtain ⟨us, us', hus, hus', hpaired'⟩ := h'.queue
  refine ⟨h.program.trans h'.program, h.left.trans h'.left, h.right.trans h'.right, ts ++ us,
    ts' ++ us', queue_trans hts hus, queue_trans hts' hus', ?_⟩
  exact List.rel_append (hpaired.imp fun _ _ ht => ht.mono id id
      (Accord.mine_mono h'.program.left.decls_size)) hpaired'

/-- Both parts succeed and leave states that agree, or both fail. -/
def Passes (T : Tandem) (g : Graph) (target : Target) (n : Nat) (w : Twin) (m m' : Lift PUnit) : Prop :=
  T.Holds g target w → Together m m' w.1 w.2
    (fun _ _ t t' => T.Holds g target (t, t') ∧ T.Sweeps n w (t, t')) fun _ _ => True

theorem Passes.of_runs {m m' : Lift PUnit}
    (h : (T.likeness target env env').Runs w m m' Likeness.anything) :
    T.Passes env.graph target 0 w m m' := fun hw =>
  (h hw).mono (fun _ _ _ _ ⟨hs, hl, _⟩ => ⟨hs, Leads.sweeps hl⟩) fun _ _ _ => trivial

theorem Passes.pure : T.Passes g target 0 w (pure ⟨⟩) (Pure.pure ⟨⟩) := fun hw =>
  .pure ⟨hw, (Leads.refl T w).sweeps⟩

theorem Passes.bind {m m' l l' : Lift PUnit} (h : T.Passes g target n w m m')
    (h' : ∀ v, T.Sweeps n w v → T.Passes g target k v l l') :
    T.Passes g target (n + k) w (do m; l) (do m'; l') := fun hw =>
  (h hw).bind fun _ _ t t' ⟨hs, hn⟩ =>
    (h' (t, t') hn hs).imp fun _ _ _ _ ⟨hs', hk⟩ => ⟨hs', hn.trans hk⟩

/-- The queue does not matter to whether states agree. -/
theorem Holds.requeue (hw : T.Holds g target w) (q q' : Queue Task) :
    T.Holds g target ({ w.1 with queue := q }, { w.2 with queue := q' }) :=
  ⟨hw.kept, hw.agrees.congr rfl rfl rfl rfl rfl rfl rfl rfl,
    hw.typed.1.later rfl (.refl _) rfl, hw.typed.2.later rfl (.refl _) rfl⟩

section Sweep

variable {T : Tandem} {g g' : Graph} {naming : Naming} {showOps : Bool}
  (hL : (T.likeness target ⟨g, naming, showOps⟩ ⟨g', naming, showOps⟩).Respected) (hg : g.Reordered g')
  (hreach : ∀ r, T.reach r → r ≠ g.body ∧ ∀ c ∈ g.regionOps r, T.share.ops c)
  (hlate : T.late → T.accord.atFile)

include hL hg

/-- Lifting an operation of the share. -/
theorem op_lifts {id : OpId} (hid : T.share.ops id) :
    (T.likeness target ⟨g, naming, showOps⟩ ⟨g', naming, showOps⟩).Lifts
      (Lift.op ⟨g, naming, showOps⟩) (Lift.op ⟨g', naming, showOps⟩) id := by
  refine Likeness.opAux_lifts hL hid (.inl ?_)
  rw [hg.operations]

include hreach hlate

theorem task_runs {t t' : Task} (ht : t.Paired T.late T.reach (T.accord.mine w.1.program) t') :
    (T.likeness target ⟨g, naming, showOps⟩ ⟨g', naming, showOps⟩).Runs w
      (Lift.task ⟨g, naming, showOps⟩ t) (Lift.task ⟨g', naming, showOps⟩ t') Likeness.anything := by
  have covered {r : RegionId} (hr : T.reach r) :
      (T.likeness target ⟨g, naming, showOps⟩ ⟨g', naming, showOps⟩).Covered
        (Lift.op ⟨g, naming, showOps⟩) (Lift.op ⟨g', naming, showOps⟩) r :=
    ⟨hg.inner (hreach r hr).1, (hreach r hr).2, fun c hc => op_lifts hL hg ((hreach r hr).2 c hc)⟩
  cases ht with
  | body hf hr => exact @Likeness.body_runs _ _ _ hL _ 0 _ _ _ hf (covered hr)
  | @init sc sc' _ _ _ hsc hd hr =>
      refine @Likeness.init_runs _ _ _ hL _ 0 _ _ _ _ _ ?_ hd (covered hr)
      match sc, sc', hsc with
      | .file, .file, h => exact hlate h
      | .function _, .function _, h => exact ⟨0, h⟩

theorem carry_passes {t t' : Task} (ht : t.Paired T.late T.reach T.accord.own t') :
    T.Passes g target 1 w (Lift.carry ⟨g, naming, showOps⟩ t) (Lift.carry ⟨g', naming, showOps⟩ t') := by
  intro hw
  have popped := hw.requeue { w.1.queue with pending := w.1.queue.pending.tail }
    { w.2.queue with pending := w.2.queue.pending.tail }
  refine Together.bind (.modify (Q := fun _ _ x x' =>
    x = { w.1 with queue := { w.1.queue with pending := w.1.queue.pending.tail } } ∧
      x' = { w.2 with queue := { w.2.queue with pending := w.2.queue.pending.tail } }) ⟨rfl, rfl⟩) ?_
  rintro _ _ _ _ ⟨rfl, rfl⟩
  have hrun := task_runs hL hg hreach hlate (ht.mono id id .inl) popped
  refine (hrun.mono (fun _ _ _ _ h => h) fun _ _ _ => trivial).bind ?_
  rintro _ _ x x' ⟨hs, hl, -⟩
  refine .modify ⟨hs.requeue x.queue.complete x'.queue.complete, hl.program, ?_, ?_, ?_⟩
  · exact ⟨hl.left.opStmt, hl.left.opDecl, hl.left.argDecl, hl.left.symbols⟩
  · exact ⟨hl.right.opStmt, hl.right.opDecl, hl.right.argDecl, hl.right.symbols⟩
  · rw [List.drop_one, List.drop_one]
    obtain ⟨ts, ts', hts, hts', hpaired⟩ := hl.queue
    exact ⟨ts, ts', fun _ => hts, fun _ => hts', hpaired⟩

theorem sweep_passes {ts ts' : List Task}
    (h : List.Forall₂ (Task.Paired T.late T.reach T.accord.own) ts ts') :
    T.Passes g target ts.length w (Lift.sweep ⟨g, naming, showOps⟩ ts)
      (Lift.sweep ⟨g', naming, showOps⟩ ts') := by
  induction h generalizing w with
  | nil => exact .pure
  | cons ht _ ih =>
      rw [List.length_cons, Nat.add_comm]
      exact .bind (carry_passes hL hg hreach hlate ht) fun _ _ => ih

end Sweep

end Tandem

/-! ### Two lifts at the same point -/

/-- The two lifts have built the same: the programs match in full, and the tables agree. -/
structure Even (g : Graph) (target : Target) (ρ : Pairing) (w : Twin) : Prop where
  matched : w.1.program.Matched ρ (fun _ _ => False) w.2.program
  agrees : LiftState.Agrees ρ .none w.1 w.2
  typed : w.1.TypesLifted g target ∧ w.2.TypesLifted g target
  decls : w.1.program.decls.size = w.2.program.decls.size
  exprs : w.1.program.exprs.size = w.2.program.exprs.size
  stmts : w.1.program.stmts.size = w.2.program.stmts.size

/-- The shares have no key in common. -/
structure Share.Apart (a b : Share) : Prop where
  ops {id} : a.ops id → ¬ b.ops id
  values {v} : a.values v → ¬ b.values v
  names {n} : a.names n → ¬ b.names n

/-- One of those that lift next to each other. -/
structure Party where
  /-- The declarations that it may complete. -/
  own : DeclId → DeclId → Prop
  share : Share
  /-- The regions that its tasks fill declarations from. -/
  reach : RegionId → Prop

namespace Party

/-- The lifts of one party from two programs, where the other party may have been there in one of
them. -/
def tandem (me you : Party) (ρ : Pairing) (hown : ∀ {d d'}, me.own d d' → ρ.decl d d')
    (file late : Prop) (l r : Program) : Tandem :=
  ⟨⟨ρ, l, r, me.own, you.own, file, hown⟩, me.share, you.share, me.reach, late⟩

/-- The parties enter different keys and complete different declarations. -/
structure Apart (me you : Party) : Prop extends me.share.Apart you.share where
  own {d d'} : me.own d d' → ¬ you.own d d'

variable {me you : Party} {ρ : Pairing} {hown : ∀ {d d'}, me.own d d' → ρ.decl d d'}
  {hown' : ∀ {d d'}, you.own d d' → ρ.decl d d'} {file late : Prop} {g : Graph} {target : Target}
  {n k : Nat} {w : Twin} {s s' t t' : LiftState}

theorem holds (matched : s.program.Matched ρ you.own t.program)
    (agrees : LiftState.Agrees ρ you.share s t)
    (typed : s.TypesLifted g target ∧ t.TypesLifted g target) :
    (me.tandem you ρ hown file late s.program t.program).Holds g target (s, t) := by
  have hstart : (me.tandem you ρ hown file late s.program t.program).accord.pairing s.program = ρ :=
    Accord.pairing_start _
  refine ⟨⟨?_, ⟨Nat.le_refl _, Nat.add_comm _ _⟩, ⟨Nat.le_refl _, Nat.add_comm _ _⟩,
    ⟨Nat.le_refl _, Nat.add_comm _ _⟩⟩, ?_, typed⟩
  · rw [hstart]
    exact matched
  · rw [hstart]
    exact agrees

theorem holds_of_even (h : Even g target ρ (s, t)) :
    (me.tandem you ρ hown file late s.program t.program).Holds g target (s, t) :=
  holds { h.matched with filled := fun hd _ => h.matched.filled hd id }
    { opStmt := fun _ => h.agrees.opStmt id, opDecl := fun _ => h.agrees.opDecl id
      argDecl := fun _ => h.agrees.argDecl id, symbols := fun _ => h.agrees.symbols id } h.typed

/-- After a part of one party on the left, the other one has all that it reads on both sides. -/
theorem holds_after_left (h : Even g target ρ (s, s'))
    (ht : (me.tandem you ρ hown file late s.program s'.program).Holds g target (t, t'))
    (hn : (me.tandem you ρ hown file late s.program s'.program).Sweeps n (s, s') (t, t')) :
    (you.tandem me ρ hown' file late t.program s'.program).Holds g target (t, s') := by
  refine holds ?_ ?_ ⟨ht.typed.1, h.typed.2⟩
  · refine h.matched.later hn.program.left (.refl (fun _ => False) _)
      ⟨ht.kept.matched.distinct.1, h.matched.distinct.2⟩
      ⟨ht.kept.matched.recordless.1, h.matched.recordless.2⟩
      ⟨ht.kept.matched.ordered.1, h.matched.ordered.2⟩ fun {d d'} hd hapart => ⟨id, ?_, id⟩
    rintro (hle | ⟨x', hx⟩)
    · exact absurd (h.matched.decl hd).1 (Nat.not_lt.mpr hle)
    · exact hapart ((h.matched.unique hd (hown hx)).mp rfl ▸ hx)
  · exact ⟨fun hid => hn.left.opStmt hid ▸ h.agrees.opStmt id,
      fun hid => hn.left.opDecl hid ▸ h.agrees.opDecl id,
      fun hv => hn.left.argDecl hv ▸ h.agrees.argDecl id,
      fun hm => hn.left.symbols hm ▸ h.agrees.symbols id⟩

/-- After a part of one party on the right, the other one has all that it reads on both sides. -/
theorem holds_after_right (h : Even g target ρ (s, s'))
    (ht : (me.tandem you ρ hown file late s.program s'.program).Holds g target (t, t'))
    (hn : (me.tandem you ρ hown file late s.program s'.program).Sweeps n (s, s') (t, t')) :
    (you.tandem me ρ hown' file late s.program t'.program).Holds g target (s, t') := by
  refine holds ?_ ?_ ⟨h.typed.1, ht.typed.2⟩
  · refine h.matched.later (.refl (fun _ => False) _) hn.program.right
      ⟨h.matched.distinct.1, ht.kept.matched.distinct.2⟩
      ⟨h.matched.recordless.1, ht.kept.matched.recordless.2⟩
      ⟨h.matched.ordered.1, ht.kept.matched.ordered.2⟩ fun {d d'} hd hapart => ⟨id, id, ?_⟩
    rintro (hle | ⟨x, hx⟩)
    · exact absurd (h.matched.decl hd).2.1 (Nat.not_lt.mpr hle)
    · exact hapart ((h.matched.unique hd (hown hx)).mpr rfl ▸ hx)
  · exact ⟨fun hid => hn.right.opStmt hid ▸ h.agrees.opStmt id,
      fun hid => hn.right.opDecl hid ▸ h.agrees.opDecl id,
      fun hv => hn.right.argDecl hv ▸ h.agrees.argDecl id,
      fun hm => hn.right.symbols hm ▸ h.agrees.symbols id⟩

/-- What the two orders come to: each party did the same on both sides, once before the other and once
after it. -/
structure Exchanged (me you : Party) (ρ : Pairing) (hown : ∀ {d d'}, me.own d d' → ρ.decl d d')
    (hown' : ∀ {d d'}, you.own d d' → ρ.decl d d') (file late : Prop) (g : Graph) (target : Target)
    (n k : Nat) (w v : Twin) (s s' : LiftState) : Prop where
  mine : (me.tandem you ρ hown file late w.1.program s'.program).Holds g target (s, v.2)
  mine_sweeps : (me.tandem you ρ hown file late w.1.program s'.program).Sweeps n (w.1, s') (s, v.2)
  yours : (you.tandem me ρ hown' file late s.program w.2.program).Holds g target (v.1, s')
  yours_sweeps : (you.tandem me ρ hown' file late s.program w.2.program).Sweeps k (s, w.2) (v.1, s')

/-- Two parts in one order and in the other. -/
theorem exchange {m m' l l' : Lift PUnit}
    (hm : ∀ a b w, (me.tandem you ρ hown file late a b).Passes g target n w m m')
    (hl : ∀ a b w, (you.tandem me ρ hown' file late a b).Passes g target k w l l')
    (h : Even g target ρ w) :
    Together (do m; l) (do l'; m') w.1 w.2
      (fun _ _ t t' => ∃ s s', (m w.1 = .ok ⟨⟩ s ∧ l s = .ok ⟨⟩ t) ∧
        Exchanged me you ρ hown hown' file late g target n k w (t, t') s s')
      fun _ _ => True := by
  obtain ⟨a, b⟩ := w
  have hm₀ := hm a.program b.program (a, b) (holds_of_even h)
  have hl₀ := hl a.program b.program (a, b) (holds_of_even h)
  have seq (x y : Lift PUnit) (z : LiftState) : (do x; y : Lift PUnit) z = match x z with
      | .ok _ t => y t
      | .error e t => .error e t := by
    show EStateM.bind x _ z = _
    unfold EStateM.bind
    cases x z <;> rfl
  unfold Together
  rw [seq, seq]
  dsimp only
  cases hma : m a with
  | error e s =>
      cases hlb : l' b with
      | error e' s' => trivial
      | ok _ s' =>
          -- The first part fails from wherever the second one leads as well.
          obtain ⟨_, x, -, hx, hn⟩ := hl₀.of_ok_right hlb
          dsimp only
          cases hms : m' s' with
          | error e' t' => trivial
          | ok _ t' =>
              obtain ⟨_, t, ht, -⟩ := (hm _ _ _ (holds_after_right h hx hn)).of_ok_right hms
              rw [hma] at ht
              cases ht
  | ok _ s =>
      obtain ⟨_, x, -, hx, hn⟩ := hm₀.of_ok hma
      have hstart : (you.tandem me ρ hown' file late s.program b.program).Holds g target (s, b) :=
        holds_after_left h hx hn
      have hyours := hl _ _ _ hstart
      cases hlb : l' b with
      | error e' s' =>
          dsimp only
          cases hls : l s with
          | error e t => trivial
          | ok _ t =>
              obtain ⟨_, t', ht', -⟩ := hyours.of_ok hls
              rw [hlb] at ht'
              cases ht'
      | ok _ s' =>
          obtain ⟨_, t, hls, ht, hk⟩ := hyours.of_ok_right hlb
          obtain ⟨_, x, -, hx, hn⟩ := hl₀.of_ok_right hlb
          have hback : (me.tandem you ρ hown file late a.program s'.program).Holds g target (a, s') :=
            holds_after_right h hx hn
          obtain ⟨_, t', hms, ht', hn'⟩ := (hm _ _ _ hback).of_ok hma
          dsimp only
          rw [hls, hms]
          exact ⟨s, s', ⟨rfl, hls⟩, ht', hn', ht, hk⟩

section After

variable {v : Twin}

theorem Exchanged.sizes (h : Exchanged me you ρ hown hown' file late g target n k w v s s')
    (hw : Even g target ρ w) : v.1.program.decls.size = v.2.program.decls.size ∧
      v.1.program.exprs.size = v.2.program.exprs.size ∧
      v.1.program.stmts.size = v.2.program.stmts.size := by
  have count {a b c d e f : Nat} (hab : a = b) (hm : a ≤ c ∧ c + d = e + a)
      (hy : c ≤ f ∧ f + b = d + c) : f = e := by omega
  exact ⟨count hw.decls h.mine.kept.decls h.yours.kept.decls,
    count hw.exprs h.mine.kept.exprs h.yours.kept.exprs,
    count hw.stmts h.mine.kept.stmts h.yours.kept.stmts⟩

/-- The nodes that are paired after both parts: those before, and what each party gained. -/
def after (ρ : Pairing) (w v : Twin) (s s' : LiftState) : Pairing :=
  (ρ.along w.1.program s'.program s.program).join (ρ.along s.program w.2.program v.1.program)

theorem Exchanged.matched (h : Exchanged me you ρ hown hown' file late g target n k w v s s')
    (apart : me.Apart you) (hw : Even g target ρ w) :
    v.1.program.Matched (after ρ w v s s') (fun _ _ => False) v.2.program := by
  have hmine : v.1.program.Matched (ρ.along w.1.program s'.program s.program) you.own v.2.program := by
    refine h.mine.kept.matched.later h.yours_sweeps.program.left (.refl (fun _ => False) _)
      ⟨h.yours.kept.matched.distinct.1, h.mine.kept.matched.distinct.2⟩
      ⟨h.yours.kept.matched.recordless.1, h.mine.kept.matched.recordless.2⟩
      ⟨h.yours.kept.matched.ordered.1, h.mine.kept.matched.ordered.2⟩ fun {d d'} hd hapart =>
        ⟨hapart, ?_, id⟩
    rintro (hle | ⟨x', hx⟩)
    · exact absurd (h.mine.kept.matched.decl hd).1 (Nat.not_lt.mpr hle)
    · exact hapart ((h.mine.kept.matched.unique hd (.inl (hown' hx))).mp rfl ▸ hx)
  have hyours : v.1.program.Matched (ρ.along s.program w.2.program v.1.program) me.own v.2.program := by
    refine h.yours.kept.matched.later (.refl (fun _ => False) _) h.mine_sweeps.program.right
      ⟨h.yours.kept.matched.distinct.1, h.mine.kept.matched.distinct.2⟩
      ⟨h.yours.kept.matched.recordless.1, h.mine.kept.matched.recordless.2⟩
      ⟨h.yours.kept.matched.ordered.1, h.mine.kept.matched.ordered.2⟩ fun {d d'} hd hapart =>
        ⟨hapart, id, ?_⟩
    rintro (hle | ⟨x, hx⟩)
    · exact absurd (h.yours.kept.matched.decl hd).2.1 (Nat.not_lt.mpr hle)
    · exact hapart ((h.yours.kept.matched.unique hd (.inl (hown hx))).mpr rfl ▸ hx)
  refine hmine.join hyours (fun _ hy => ⟨.inl (hown' hy), fun hm => apart.own hm hy⟩)
    (fun _ hm => ⟨.inl (hown hm), apart.own hm⟩) fun {d d' x x'} hd hx => ?_
  -- Nodes gained by different parties are different, and none of them was there before.
  have hm : w.1.program.decls.size ≤ s.program.decls.size := h.mine.kept.decls.1
  have hy : s.program.decls.size ≤ v.1.program.decls.size ∧ v.1.program.decls.size +
    w.2.program.decls.size = s'.program.decls.size + s.program.decls.size := h.yours.kept.decls
  obtain hold | ⟨i, hi, rfl, rfl⟩ := hd <;> obtain hold' | ⟨j, hj, rfl, rfl⟩ := hx
  · exact hw.matched.unique hold hold'
  · obtain ⟨hlt, hlt', -⟩ := hw.matched.decl hold
    exact iff_of_false (Nat.ne_of_lt (Nat.lt_of_lt_of_le hlt (Nat.le_add_right_of_le hm)))
      (Nat.ne_of_lt (Nat.lt_of_lt_of_le hlt' (Nat.le_add_right _ j)))
  · obtain ⟨hlt, hlt', -⟩ := hw.matched.decl hold'
    have hle : w.2.program.decls.size ≤ s'.program.decls.size := by omega
    exact iff_of_false (Nat.ne_of_gt (Nat.lt_of_lt_of_le hlt (Nat.le_add_right _ i)))
      (Nat.ne_of_gt (Nat.lt_of_lt_of_le hlt' (Nat.le_add_right_of_le hle)))
  · exact iff_of_false (Nat.ne_of_lt (by omega)) (Nat.ne_of_gt (by omega))

theorem Exchanged.agrees (h : Exchanged me you ρ hown hown' file late g target n k w v s s')
    (apart : me.Apart you) : LiftState.Agrees (after ρ w v s s') .none v.1 v.2 := by
  have hmine := h.mine.agrees.mono (Pairing.within_join _ (ρ.along s.program w.2.program v.1.program))
  have hyours := h.yours.agrees.mono
    (Pairing.within_join_right (ρ.along w.1.program s'.program s.program) _)
  have hl := h.yours_sweeps.left
  have hr := h.mine_sweeps.right
  refine ⟨fun {id} _ => ?_, fun {id} _ => ?_, fun {x} _ => ?_, fun {x} _ => ?_⟩
  · by_cases hid : me.share.ops id
    · rw [hl.opStmt (apart.ops hid)]
      exact hmine.opStmt (apart.ops hid)
    · rw [hr.opStmt hid]
      exact hyours.opStmt hid
  · by_cases hid : me.share.ops id
    · rw [hl.opDecl (apart.ops hid)]
      exact hmine.opDecl (apart.ops hid)
    · rw [hr.opDecl hid]
      exact hyours.opDecl hid
  · by_cases hx : me.share.values x
    · rw [hl.argDecl (apart.values hx)]
      exact hmine.argDecl (apart.values hx)
    · rw [hr.argDecl hx]
      exact hyours.argDecl hx
  · by_cases hx : me.share.names x
    · rw [hl.symbols (apart.names hx)]
      exact hmine.symbols (apart.names hx)
    · rw [hr.symbols hx]
      exact hyours.symbols hx

/-- After both parts, in either order, the lifts are at the same point again. -/
theorem Exchanged.even (h : Exchanged me you ρ hown hown' file late g target n k w v s s')
    (apart : me.Apart you) (hw : Even g target ρ w) : Even g target (after ρ w v s s') v :=
  have hsizes := h.sizes hw
  ⟨h.matched apart hw, h.agrees apart, ⟨h.yours.typed.1, h.mine.typed.2⟩, hsizes.1, hsizes.2.1,
    hsizes.2.2⟩

/-- What each party puts off stands in the order of the parties. -/
theorem Exchanged.queue (h : Exchanged me you ρ hown hown' file late g target n k w v s s') :
    ∃ a a' b b',
      (n + k ≤ w.1.queue.pending.length →
        v.1.queue.pending = w.1.queue.pending.drop (n + k) ++ (a ++ b)) ∧
      (n + k ≤ w.2.queue.pending.length →
        v.2.queue.pending = w.2.queue.pending.drop (n + k) ++ (b' ++ a')) ∧
      List.Forall₂ (Task.Paired late me.reach
        (along me.own w.1.program.decls.size s'.program.decls.size s.program.decls.size)) a a' ∧
      List.Forall₂ (Task.Paired late you.reach
        (along you.own s.program.decls.size w.2.program.decls.size v.1.program.decls.size)) b b' := by
  obtain ⟨a, a', ha, ha', hpaired⟩ := h.mine_sweeps.queue
  obtain ⟨b, b', hb, hb', hpaired'⟩ := h.yours_sweeps.queue
  exact ⟨a, a', b, b', Tandem.queue_trans ha hb, Nat.add_comm k n ▸ Tandem.queue_trans hb' ha',
    hpaired, hpaired'⟩

/-- What each party lists at file level stands in the order of the parties. -/
theorem Exchanged.listed (h : Exchanged me you ρ hown hown' file late g target n k w v s s') :
    ∃ a a' b b', s.program.topLevel = w.1.program.topLevel ++ a ∧
      v.1.program.topLevel = s.program.topLevel ++ b ∧
      v.2.program.topLevel = w.2.program.topLevel ++ (b' ++ a') ∧
      List.Forall₂ (after ρ w v s s').decl a a' ∧ List.Forall₂ (after ρ w v s s').decl b b' ∧
      (¬ file → a = [] ∧ b = []) := by
  obtain ⟨a, a', ha, ha', hpaired, hfile⟩ := h.mine_sweeps.program.listed
  obtain ⟨b, b', hb, hb', hpaired', hfile'⟩ := h.yours_sweeps.program.listed
  refine ⟨a, a', b, b', ha, hb, ?_, hpaired.imp fun _ _ => .inl, hpaired'.imp fun _ _ => .inr,
    fun hno => ⟨?_, ?_⟩⟩
  · rw [show v.2.program.topLevel = s'.program.topLevel ++ a' from ha',
      show s'.program.topLevel = w.2.program.topLevel ++ b' from hb', List.append_assoc]
  · exact Classical.byContradiction fun hne => hno (hfile hne)
  · exact Classical.byContradiction fun hne => hno (hfile' hne)

end After

end Party

end Readback
