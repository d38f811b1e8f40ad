import Readback.Proofs.Lift.Symbols

/-! # What references go by

References and calls name what they refer to, and a name can have several declarations: a prototype and
a definition, or a variable in a scope at the top that takes the name of a function. A lift looks the
symbol up when it comes to the operation, so what is meant depends on when that is.

* `LiftState.Meant` says which declaration a symbol stands for at an operation. It is that of a function
  or variable at file level with the symbol (`LiftState.Named`). Where the operation does not stand at
  file level itself, as in all bodies and initial values, it is that of the last one that has the
  symbol (`Graph.lastNamed?`). Only a declaration that stands in an initial value, and so is made after
  the first phase, can come between.
* `Graph.lift_phases` takes a lift that succeeds apart into its two phases.
* `Graph.lift_meant` is the result: in a lift that succeeds, an expression that cites a declaration
  cites the one that is meant. Which declarations a state cites is `LiftState.Cites`, and that what is
  lifted after a state goes by the symbols of that state, or by newer ones, is part of
  `LiftState.Grows`.

Operations at file level are lifted in the first phase along with the declarations, so they can refer
to a declaration that is not the last one. -/

namespace Readback

open Step LiftState

namespace LiftState

/-- The declaration that a symbol stands for where the operation `id` refers to it. -/
def Meant (g : Graph) (s : LiftState) (id : OpId) (name : String) (d : DeclId) : Prop :=
  s.Named g name d ∧ (g.AtFileLevel id ∨ ∃ c, s.opDecl.get? c = some d ∧
    (g.lastNamed? g.fileOps name = some c ∨ ¬ g.AtFileLevel c))

/-- An expression cites one declaration. -/
theorem Cites.unique {s : LiftState} {e : ExprId} {d d' : DeclId} (h : s.Cites e d)
    (h' : s.Cites e d') : d = d' := by
  obtain ⟨-, href | ⟨f, xs, hcall, -, href⟩⟩ := h <;>
    obtain ⟨-, href' | ⟨f', xs', hcall', -, href'⟩⟩ := h'
  · cases href.symm.trans href'
    rfl
  · cases href.symm.trans hcall'
  · cases hcall.symm.trans href'
  · cases hcall.symm.trans hcall'
    cases href.symm.trans href'
    rfl

theorem Named.symbolOf? {g : Graph} {s : LiftState} {name : String} {d : DeclId}
    (h : s.Named g name d) : ∃ c, g.symbolOf? c = some name ∧ s.opDecl.get? c = some d := by
  obtain ⟨c, o, ho, hk, hname, hd, -⟩ := h
  exact ⟨c, by rw [Graph.symbolOf?, ho, Option.bind_some, if_pos hk, hname], hd⟩

end LiftState

section Phases

variable {g : Graph} {naming : Naming} {c : LiftConfig} {s : LiftState}

/-- A lift that succeeds has two phases that do. -/
theorem Graph.lift_phases (h : g.lift naming c = (.ok (), s)) :
    ∃ t n, Lift.pass ⟨g, naming, c.showOps⟩ (.start c.target) = .ok () t ∧
      Lift.drain ⟨g, naming, c.showOps⟩ t = .ok n s := by
  have hrun := Graph.run_of_lift h
  rw [Lift.run_eq] at hrun
  obtain ⟨⟨⟩, t, hpass, hrest⟩ := bind_eq_ok.mp hrun
  obtain ⟨n, u, hdrain, hend⟩ := bind_eq_ok.mp hrest
  cases hend
  exact ⟨t, n, hpass, hdrain⟩

/-- What the first phase leaves satisfies the invariant. -/
theorem Lift.pass_inv {env : LiftEnv} (hform : env.graph.Formed) {target : Target} {t : LiftState}
    (h : Lift.pass env (.start target) = .ok () t) : Inv env.graph [] t := by
  have hlifts : Lift.Lifts env [] (Lift.op env) := Lift.opAux_lifts hform _
  have hgives : Gives (Lift.pass env) (.start target) _ :=
    Lift.forM_gives hlifts (fun o _ => Nat.zero_le o) (Lift.start_inv env.graph target)
  unfold Gives Ensures at hgives
  rw [h] at hgives
  exact hgives.1

/-- What the second phase leaves comes after what it starts from. -/
theorem Lift.drain_grows {env : LiftEnv} (hform : env.graph.Formed) {t u : LiftState} {n : Nat}
    (ht : Inv env.graph [] t) (h : Lift.drain env t = .ok n u) : Grows env.graph 0 t u := by
  have hgives := Lift.drain_gives hform ht
  unfold Gives Ensures at hgives
  rw [h] at hgives
  exact hgives.2.1

/-- In a lift that succeeds, what an expression cites is what its symbol stands for. -/
theorem Graph.lift_meant (hg : g.Built) (h : g.lift naming c = (.ok (), s)) {id : OpId}
    {o : Operation} {e : ExprId} (ho : g.op? id = some o) (he : s.exprOf? id = some e)
    {name : String} (hname : o.cited? = some name) {d : DeclId} (hcites : s.Cites e d)
    (hnamed : s.Named g name d) : s.Meant g id name d := by
  obtain ⟨t, n, hpass, hdrain⟩ := Graph.lift_phases h
  have ht : Inv g [] t := @Lift.pass_inv ⟨g, naming, c.showOps⟩ hg.formed _ _ hpass
  have hgrows : Grows g 0 t s := @Lift.drain_grows ⟨g, naming, c.showOps⟩ hg.formed _ _ _ ht hdrain
  have noted {i : OpId} {x : DeclId} (hi : g.symbolOf? i = some name) (hx : t.opDecl.get? i = some x) :
      s.opDecl.get? i = some x := hgrows.opDecl i x (Graph.kind?_of_symbolOf? hi) hx
  refine ⟨hnamed, ?_⟩
  by_cases hlevel : g.AtFileLevel id
  · exact .inl hlevel
  refine .inr ?_
  obtain ⟨i, hi, hd⟩ := hnamed.symbolOf?
  by_cases hfile : g.AtFileLevel i
  · -- All functions and variables at file level are known when the operation is lifted.
    obtain ⟨last, hlast⟩ := Graph.lastNamed?_isSome (hg.formed.mem_fileOps.mpr hfile) hi
    obtain ⟨hsymbol, hdefined⟩ := @Lift.pass_named ⟨g, naming, c.showOps⟩ hg _ _ hpass name
    obtain ⟨x, hx⟩ := Option.isSome_iff_exists.mp (hdefined (by rw [hlast]; rfl))
    rw [hx, hlast, Option.bind_some] at hsymbol
    have hnew : t.opStmt.get? id = none := by
      refine @Lift.pass_kept ⟨g, naming, c.showOps⟩ hg _ _ hpass id hlevel fun hk => ?_
      have hkind : o.kind? = some .field := by simpa [Graph.kind?, ho] using hk
      cases (o.cited?_eq_none ⟨_, hkind, rfl⟩ rfl).symm.trans hname
    obtain ⟨j, hj, -⟩ := exprOf?_eq_some.mp he
    obtain ⟨e', d', he', hcites', hd'⟩ := hgrows.cited id o _ name x ho hname hnew hj hx
    cases he.symm.trans he'
    obtain rfl := hcites.unique hcites'
    obtain rfl | hlate := hd'
    · exact ⟨last, noted (Graph.of_lastNamed? hlast).2 hsymbol.symm, .inl hlast⟩
    · obtain ⟨y, hy⟩ := @Lift.pass_noted ⟨g, naming, c.showOps⟩ hg _ _ hpass i hfile name hi
      obtain rfl : y = d := Option.some.inj ((noted hi hy).symm.trans hd)
      exact absurd (ht.decls i y hy).1 (Nat.not_lt.mpr hlate)
  · exact ⟨i, hd, .inr hfile⟩

end Phases

end Readback
