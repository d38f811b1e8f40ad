import Readback.Proofs.Lift.Exchange

/-! # Rounds of parts

A round of a lift is made of four parts: what comes first, what each of two parties does, and what comes
last. Two lifts make the same round if the parties have changed places in one of them. They come out at
the same point then (`Party.round`): what the round lists and puts off stands in a `Row`, in which the
parties have changed places as well. -/

namespace Readback

open Step Program

/-- Things in the middle of a list: those of two parties, and what is around them. -/
structure Row (α : Type) where
  front : List α
  mine : List α
  yours : List α
  back : List α

namespace Row

variable {α : Type}

/-- The list of all, with the parties in order. -/
def inOrder (r : Row α) : List α := r.front ++ (r.mine ++ r.yours) ++ r.back

/-- The list of all, with the parties exchanged. -/
def exchanged (r : Row α) : List α := r.front ++ (r.yours ++ r.mine) ++ r.back

/-- The same things, part by part. -/
structure Paired (around mine yours : α → α → Prop) (r r' : Row α) : Prop where
  front : List.Forall₂ around r.front r'.front
  mine : List.Forall₂ mine r.mine r'.mine
  yours : List.Forall₂ yours r.yours r'.yours
  back : List.Forall₂ around r.back r'.back

/-- Rows that are the same part by part list as many things. -/
theorem Paired.length {around mine yours : α → α → Prop} {r r' : Row α}
    (h : Paired around mine yours r r') :
    r.inOrder.length = r.front.length + (r.mine.length + r.yours.length) + r.back.length ∧
      r'.exchanged.length = r.front.length + (r.mine.length + r.yours.length) + r.back.length := by
  simp only [inOrder, exchanged, List.length_append, h.front.length_eq, h.mine.length_eq,
    h.yours.length_eq, h.back.length_eq, true_and]
  omega

end Row

theorem Pairing.within_along (ρ : Pairing) (l r p : Program) : ρ.Within (ρ.along l r p) :=
  ⟨.inl, .inl, .inl⟩

/-- Two lifts at the same point, where two parties may complete declarations of their own. -/
structure Abreast (g : Graph) (target : Target) (ρ : Pairing) (own own' : DeclId → DeclId → Prop)
    (w : Twin) : Prop extends Even g target ρ w where
  mine {d d'} : own d d' → ρ.decl d d'
  yours {d d'} : own' d d' → ρ.decl d d'
  apart {d d'} : own d d' → ¬ own' d d'

namespace Party

variable {me you : Party} {ρ σ : Pairing} {hown : ∀ {d d'}, me.own d d' → ρ.decl d d'}
  {hown' : ∀ {d d'}, you.own d d' → ρ.decl d d'} {file late : Prop} {g : Graph} {target : Target}
  {n k a b : Nat} {w v : Twin} {s s' : LiftState}

/-- After both parts, each party may complete what it could before and what it made. -/
theorem Exchanged.abreast (h : Exchanged me you ρ hown hown' file late g target n k w v s s')
    (hw : Abreast g target ρ me.own you.own w) (shares : me.share.Apart you.share) :
    Abreast g target (after ρ w v s s')
      (along me.own w.1.program.decls.size s'.program.decls.size s.program.decls.size)
      (along you.own s.program.decls.size w.2.program.decls.size v.1.program.decls.size) v := by
  have hm : w.1.program.decls.size ≤ s.program.decls.size := h.mine.kept.decls.1
  refine { h.even ⟨shares, hw.apart⟩ hw.toEven with
    mine := fun hd => .inl (hd.imp_left hw.mine)
    yours := fun hd => .inr (hd.imp_left hw.yours)
    apart := ?_ }
  -- What one of them made, the other one neither had nor made.
  rintro _ _ (hd | ⟨i, hi, rfl, rfl⟩) (hd' | ⟨j, hj, hx, -⟩)
  · exact hw.apart hd hd'
  · have hlt := (hw.matched.decl (hw.mine hd)).1
    rw [hx] at hlt
    exact absurd hlt (Nat.not_lt.mpr (Nat.le_add_right_of_le hm))
  · exact absurd (hw.matched.decl (hw.yours hd')).1 (Nat.not_lt.mpr (Nat.le_add_right _ i))
  · rw [hx] at hi
    exact absurd hi (Nat.not_lt.mpr (Nat.le_add_right _ j))

/-- Nobody. -/
def nobody : Party := ⟨fun _ _ => False, ⟨fun _ => False, fun _ => False, fun _ => False⟩, fun _ => False⟩

/-- A part of those that are of neither party. They may complete all declarations. -/
def others (ρ : Pairing) (around : Share) (reach : RegionId → Prop) (w : Twin) : Tandem :=
  tandem ⟨ρ.decl, around, reach⟩ nobody ρ id True True w.1.program w.2.program

theorem others_advance {around : Share} {reach : RegionId → Prop} {m m' : Lift PUnit}
    (hm : (others ρ around reach w).Passes g target n w m m') (hw : Even g target ρ w) :
    Together m m' w.1 w.2
      (fun _ _ t t' => ∃ σ, ρ.Within σ ∧ Even g target σ (t, t') ∧ LiftState.Stays around w.1 t ∧
        (∃ ds ds', t.program.topLevel = w.1.program.topLevel ++ ds ∧
          t'.program.topLevel = w.2.program.topLevel ++ ds' ∧ List.Forall₂ σ.decl ds ds') ∧
        ∃ ts ts',
          (n ≤ w.1.queue.pending.length → t.queue.pending = w.1.queue.pending.drop n ++ ts) ∧
          (n ≤ w.2.queue.pending.length → t'.queue.pending = w.2.queue.pending.drop n ++ ts') ∧
          List.Forall₂ (Task.Paired True reach σ.decl) ts ts')
      fun _ _ => True := by
  have hstart : (others ρ around reach w).Holds g target w :=
    @holds_of_even ⟨ρ.decl, around, reach⟩ nobody ρ id True True g target _ _ hw
  refine (hm hstart).imp fun _ _ t t' ⟨ht, hn⟩ => ?_
  have count {a b c d : Nat} (hab : a = b) (h : a ≤ c ∧ c + b = d + a) : c = d := by omega
  obtain ⟨ds, ds', hds, hds', hpaired, -⟩ := hn.program.listed
  exact ⟨_, ρ.within_along _ _ _, ⟨ht.kept.matched, ht.agrees, ht.typed,
    count hw.decls ht.kept.decls, count hw.exprs ht.kept.exprs, count hw.stmts ht.kept.stmts⟩, hn.left,
    ⟨ds, ds', hds, hds', hpaired⟩, hn.queue⟩

/-- What a round of `n` tasks comes to, where the parts of the parties on the left lead from `s` over
`x` to `s'`. -/
structure Round (g : Graph) (target : Target) (me you : Party) (around : Share)
    (reach : RegionId → Prop) (file : Prop) (n : Nat) (w v : Twin) (σ : Pairing)
    (own own' : DeclId → DeclId → Prop) (tops tops' : Row DeclId) (tasks tasks' : Row Task) : Prop where
  abreast : Abreast g target σ own own' v
  listed : tops.Paired σ.decl σ.decl σ.decl tops'
  listed_left : v.1.program.topLevel = w.1.program.topLevel ++ tops.inOrder
  listed_right : v.2.program.topLevel = w.2.program.topLevel ++ tops'.exchanged
  quiet : ¬ file → tops.mine = [] ∧ tops.yours = []
  put : tasks.Paired (Task.Paired True reach σ.decl) (Task.Paired False me.reach own)
    (Task.Paired False you.reach own') tasks'
  put_left : n ≤ w.1.queue.pending.length →
    v.1.queue.pending = w.1.queue.pending.drop n ++ tasks.inOrder
  put_right : n ≤ w.2.queue.pending.length →
    v.2.queue.pending = w.2.queue.pending.drop n ++ tasks'.exchanged

theorem round {around : Share} {reach : RegionId → Prop} {p p' m m' c c' q q' : Lift PUnit}
    (hw : Abreast g target ρ me.own you.own w) (shares : me.share.Apart you.share)
    (hp : (others ρ around reach w).Passes g target a w p p')
    (hm : ∀ {σ : Pairing} (hσ : ρ.Within σ) l r u,
      (me.tandem you σ (fun hd => hσ.decl (hw.mine hd)) file False l r).Passes g target n u m m')
    (hc : ∀ {σ : Pairing} (hσ : ρ.Within σ) l r u,
      (you.tandem me σ (fun hd => hσ.decl (hw.yours hd)) file False l r).Passes g target k u c c')
    (hq : ∀ {σ : Pairing} (_ : ρ.Within σ) u,
      (others σ around reach u).Passes g target b u q q') :
    Together (do p; (do m; c); q) (do p'; (do c'; m'); q') w.1 w.2
      (fun _ _ t t' => ∃ s x s',
        (p w.1 = .ok ⟨⟩ s ∧ m s = .ok ⟨⟩ x ∧ c x = .ok ⟨⟩ s' ∧ q s' = .ok ⟨⟩ t) ∧
        (LiftState.Stays around w.1 s ∧ LiftState.Stays me.share s x ∧
          LiftState.Stays you.share x s' ∧ LiftState.Stays around s' t) ∧
        ∃ σ own own' tops tops' tasks tasks', ρ.Within σ ∧
          Round g target me you around reach file (a + (n + k) + b) w (t, t') σ own own' tops tops'
            tasks tasks' ∧
          x.program.topLevel = s.program.topLevel ++ tops.mine ∧
          s'.program.topLevel = x.program.topLevel ++ tops.yours)
      fun _ _ => True := by
  refine (others_advance hp hw.toEven).and_left.bind ?_
  rintro _ _ s s' ⟨⟨σ, hσ, heven, hstays, ⟨ds, ds', hds, hds', hlisted⟩, ts, ts', hts, hts', hput⟩, hs⟩
  have habreast : Abreast g target σ me.own you.own (s, s') :=
    { heven with mine := fun hd => hσ.decl (hw.mine hd), yours := fun hd => hσ.decl (hw.yours hd)
                 apart := hw.apart }
  refine (exchange (hm hσ) (hc hσ) heven).bind ?_
  rintro _ _ y y' ⟨x, x', ⟨hx, hy⟩, hex⟩
  have hboth := hex.abreast habreast shares
  have hτ : ρ.Within (after σ (s, s') (y, y') x x') :=
    hσ.trans ((σ.within_along _ _ _).trans (Pairing.within_join _ _))
  obtain ⟨fs, fs', ks, ks', hfs, hks, hlist, hpf, hpk, hquiet⟩ := hex.listed
  obtain ⟨ft, ft', kt, kt', hleft, hright, hft, hkt⟩ := hex.queue
  refine (others_advance (hq hτ (y, y')) hboth.toEven).and_left.imp ?_
  rintro _ _ t t' ⟨⟨υ, hυ, heven', hstays', ⟨es, es', hes, hes', hlisted'⟩, us, us', hus, hus', hput'⟩, ht⟩
  refine ⟨s, x, y, ⟨hs, hx, hy, ht⟩, ⟨hstays, hex.mine_sweeps.left, hex.yours_sweeps.left, hstays'⟩,
    υ, along me.own s.program.decls.size x'.program.decls.size x.program.decls.size,
    along you.own x.program.decls.size s'.program.decls.size y.program.decls.size,
    ⟨ds, fs, ks, es⟩, ⟨ds', fs', ks', es'⟩, ⟨ts, ft, kt, us⟩, ⟨ts', ft', kt', us'⟩,
    hτ.trans hυ, ?_, hfs, hks⟩
  have hσυ : σ.Within υ := ((σ.within_along _ _ _).trans (Pairing.within_join _ _)).trans hυ
  refine ⟨{ heven' with
      mine := fun hd => hυ.decl (hboth.mine hd), yours := fun hd => hυ.decl (hboth.yours hd)
      apart := hboth.apart },
    ⟨hlisted.imp fun _ _ => hσυ.decl, hpf.imp fun _ _ => hυ.decl, hpk.imp fun _ _ => hυ.decl,
      hlisted'⟩, ?_, ?_, hquiet,
    ⟨hput.imp fun _ _ h => h.mono id id hσυ.decl, hft, hkt, hput'⟩, ?_, ?_⟩
  · rw [hes, show y.program.topLevel = x.program.topLevel ++ ks from hks,
      show x.program.topLevel = s.program.topLevel ++ fs from hfs, hds]
    simp only [Row.inOrder, List.append_assoc]
  · rw [hes', show y'.program.topLevel = s'.program.topLevel ++ (ks' ++ fs') from hlist, hds']
    simp only [Row.exchanged, List.append_assoc]
  · exact Tandem.queue_trans (Tandem.queue_trans hts hleft) hus
  · exact Tandem.queue_trans (Tandem.queue_trans hts' hright) hus'

end Party

end Readback
