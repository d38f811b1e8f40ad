import Readback.Proofs.Lift.Symbols

/-! # The roster of a lift

A lift makes a declaration in one place, lists it in another and fills it later. `Rostered g s` says how
the roll of the program and the operations that were lifted belong together all the while: every
declaration is a parameter or belongs to an operation, it stands where the operation stands, and
functions and records have the parameters and fields that their operations ask for.

* `Operation.Plays` is the role of a declaration that fits the kind of an operation, and `scopeIn` the
  scope of what stands in a function, or of what stands in none. `LiftState.Stands` puts the two
  together: the declaration is one for the operation. `LiftState.Due` says the same of a task.
* `Graph.Enters` is what declaring an operation does to a roll. The declaration of the operation is the
  next one (`Enters.self`), it is listed in its scope, last (`Enters.listed`), and what else is declared
  are parameters, or the fields of the record (`Enters.new`).
* `Joins` is the step as a whole: an operation that was not lifted before is declared, along with its
  parts, and recorded. `Joins.cases` says what is declared for which operation afterwards.

Declaring an operation that was not lifted before keeps the roster (`Rostered.joins`). The parts of an
operation that was not declared were not declared either (`Rostered.part_new`), which is why a record
and its fields can be entered in one step. Every other step of a lift keeps the roster because it leaves
tables and roll alone, so what a state has is only enlarged (`LiftState.Enlists`). -/

namespace Readback

open Step LiftState

/-- The role fits the kind of the operation. -/
def Operation.Plays (o : Operation) : Role → Prop
  | .function => o.kind? = some .function
  | .var => o.kind? = some .var
  | .record => o.kind? = some .record
  | .field _ => o.kind? = some .field
  | .param _ => False

namespace Graph

/-- Whether the operation at a position introduces a declaration. -/
def declares (g : Graph) (id : OpId) : Bool := (g.op? id).any Operation.isDeclaration

variable {g : Graph} {o : Operation}

theorem declares_eq {id : OpId} (ho : g.op? id = some o) : g.declares id = o.isDeclaration := by
  rw [declares, ho, Option.any_some]

/-! ### Declaring on a roll -/

/-- The operations whose declarations come with that of an operation: the fields of a record. -/
def partOps (g : Graph) (o : Operation) : List OpId :=
  if o.kind? = some .record then g.fieldOps o else []

section Enters

variable {scope : Scope} {R R' : Roll}

theorem Enters.enrolled (h : g.Enters o scope R R') (hR : R.Enrolled) (hscope : R.Has scope)
    (hplace : ∀ r, scope ≠ .record r) : R'.Enrolled := by
  have declared : ∀ role : Role, role.isParam = false → (R.declare scope role).Enrolled :=
    fun role hrole => hR.declare hscope hrole fun r hr => absurd hr (hplace r)
  unfold Enters at h
  split at h
  · obtain ⟨inputs, -, rfl⟩ := h
    have hnone : (R.declare scope .function).params R.size = [] :=
      hR.params_eq_nil (Nat.lt_irrefl _)
    have hself : (R.declare scope .function).setParams R.size [] = R.declare scope .function := by
      rw [Roll.setParams, ← hnone, Function.update_eq_self]
    have hstart := declared .function rfl
    rw [← hself] at hstart
    exact hstart.parametrize (Nat.lt_succ_self _) inputs.length
  · rw [h]
    exact declared .var rfl
  · rw [h]
    have hfields := (declared .record rfl).pushFields (Nat.lt_succ_self R.size) (g.fieldOps o).length
    rw [hR.fields_declare hplace] at hfields
    exact hfields
  · exact h.elim

theorem Enters.keeps (h : g.Enters o scope R R') (hplace : ∀ r, scope ≠ .record r) :
    Roll.Keeps R.size R R' := by
  have declared : ∀ role, Roll.Keeps R.size R (R.declare scope role) := fun role =>
    Roll.keeps_declare (fun r hr => absurd hr (hplace r)) (Nat.le_refl _) role
  unfold Enters at h
  split at h
  · obtain ⟨inputs, -, rfl⟩ := h
    exact ((declared _).trans (Roll.keeps_pushParams (Nat.le_succ _) _ _ _)).trans
      (Roll.keeps_setParams (Nat.le_refl _) _)
  · rw [h]
    exact declared _
  · rw [h]
    exact (declared _).trans (Roll.keeps_pushFields (Nat.le_succ _) (Nat.le_refl _) _ _)
  · exact h.elim

/-- The declaration of the operation is the next one. -/
theorem Enters.self (h : g.Enters o scope R R') :
    R.size < R'.size ∧ R'.place R.size = scope ∧ o.Plays (R'.role R.size) := by
  have hself := Nat.lt_succ_self R.size
  unfold Enters at h
  split at h
  · next hk =>
      obtain ⟨inputs, -, rfl⟩ := h
      have hkeeps : Roll.Keeps (R.size + 1) (R.declare scope .function)
          ((R.declare scope .function).pushParams R.size 0 inputs.length) := by
        refine Roll.keeps_pushParams ?_ _ _ _
        exact Nat.le_refl _
      have hrole := (hkeeps.role _ hself).trans (Roll.role_declare ..)
      refine ⟨hkeeps.size, (hkeeps.place _ hself).trans (Roll.place_declare ..), ?_⟩
      show o.Plays (((R.declare scope .function).pushParams R.size 0 inputs.length).role R.size)
      rw [hrole]
      exact hk
  · next hk =>
      rw [h, Roll.place_declare, Roll.role_declare]
      exact ⟨hself, rfl, hk⟩
  · next hk =>
      obtain ⟨hplace, hrole⟩ := (R.declare scope .record).pushFields_of_lt R.size 0
        (g.fieldOps o).length hself
      rw [h, hplace, hrole, Roll.place_declare, Roll.role_declare, Roll.size_pushFields]
      exact ⟨Nat.lt_add_right _ hself, rfl, hk⟩
  · exact h.elim

/-- The declaration is listed in its scope, last. -/
theorem Enters.listed (h : g.Enters o scope R R') (hplace : ∀ r, scope ≠ .record r) :
    R'.listed scope = R.listed scope ++ [R.size] := by
  unfold Enters at h
  split at h
  · obtain ⟨inputs, -, rfl⟩ := h
    exact (congrFun (Roll.listed_pushParams ..) scope).trans (Roll.listed_declare ..)
  · rw [h, Roll.listed_declare]
  · rw [h, Roll.listed_pushFields, if_neg (hplace _), Roll.listed_declare]
  · exact h.elim

theorem Enters.params (h : g.Enters o scope R R') (hk : o.kind? = some .function) :
    ∃ inputs, g.inputs? o = some inputs ∧
      R'.params R.size = List.range' (R.size + 1) inputs.length := by
  unfold Enters at h
  rw [hk] at h
  obtain ⟨inputs, hinputs, rfl⟩ := h
  exact ⟨inputs, hinputs, Function.update_self ..⟩

theorem Enters.fields (h : g.Enters o scope R R') (hR : R.Enrolled) (hplace : ∀ r, scope ≠ .record r)
    (hk : o.kind? = some .record) :
    R'.listed (.record R.size) = List.range' (R.size + 1) (g.fieldOps o).length := by
  unfold Enters at h
  rw [hk] at h
  rw [h, Roll.listed_pushFields, if_pos rfl, hR.fields_declare hplace]
  rfl

/-- What else is declared are parameters, or the fields of the record. -/
theorem Enters.new (h : g.Enters o scope R R') (hR : R'.Enrolled) {d : Nat} (hd : R.size < d)
    (hd' : d < R'.size) :
    (R'.role d).isParam = true ∨ ∃ i < (g.partOps o).length, d = R.size + 1 + i := by
  have henters := h
  unfold Enters at h
  split at h
  · next hk =>
      obtain ⟨inputs, hinputs, hR'⟩ := h
      have hsize : R'.size = R.size + 1 + inputs.length := by
        rw [hR']
        exact Roll.size_pushParams ..
      have hmem : d ∈ R'.params R.size := by
        obtain ⟨inputs', hinputs', hparams⟩ := henters.params hk
        cases hinputs.symm.trans hinputs'
        rw [hparams, List.mem_range'_1]
        omega
      exact .inl ((hR.params _ d).mp hmem).2.2
  · rw [h, Roll.size_declare] at hd'
    omega
  · next hk =>
      rw [h, Roll.size_pushFields, Roll.size_declare] at hd'
      rw [partOps, if_pos hk]
      exact .inr ⟨d - (R.size + 1), by omega, by omega⟩
  · exact h.elim

end Enters

end Graph

/-! ### The invariant -/

namespace LiftState

/-- The scope of what stands in the function, or of what stands in none. -/
def scopeIn (s : LiftState) : Option OpId → Option Scope
  | none => some .file
  | some f => (s.opDecl.get? f).map .function

/-- The declaration is one for the operation: it stands where the operation stands, and has the
parameters or fields that the operation has. -/
def Stands (g : Graph) (s : LiftState) (id : OpId) (o : Operation) (d : DeclId) : Prop :=
  o.Plays (s.program.roll.role d) ∧
  match o.kind? with
  | some .field => ∃ r q, g.op? r = some q ∧ id ∈ g.partOps q ∧ (s.opDecl.get? r).isSome
  | some .function => ∃ inputs, g.inputs? o = some inputs ∧
      (s.program.roll.params d).length = inputs.length
  | some .record => (s.program.roll.listed (.record d)).map some = (g.partOps o).map s.opDecl.get?
  | _ => True

/-- The task lifts operations that stand in one function, or in none, in the scope of that. -/
def Due (g : Graph) (s : LiftState) (task : Task) : Prop :=
  ∃ around, s.scopeIn around = some task.scope ∧
    ∀ id ∈ g.regionOps task.region, g.Walked id ∧ g.functionAround? id = around

/-- The state `t` has the declarations that `s` has, and more. -/
structure Enlists (s t : LiftState) : Prop where
  roll : Roll.Keeps s.program.decls.size s.program.roll t.program.roll
  opDecl : ∀ id d, s.opDecl.get? id = some d → t.opDecl.get? id = some d

end LiftState

/-- The roll of the program and the operations that were lifted belong together. -/
structure Rostered (g : Graph) (s : LiftState) : Prop where
  enrolled : s.program.roll.Enrolled
  known : ∀ id d, s.opDecl.get? id = some d →
    d < s.program.decls.size ∧ ∃ o, g.op? id = some o ∧ s.Stands g id o d
  place : ∀ id o d, g.op? id = some o → o.isDeclaration = true → s.opDecl.get? id = some d →
    g.Walked id ∧ s.scopeIn (g.functionAround? id) = some (s.program.roll.place d)
  noted : ∀ id o, g.op? id = some o → o.isDeclaration = true →
    (s.opStmt.get? id).isSome → (s.opDecl.get? id).isSome
  entered : ∀ id d, s.opDecl.get? id = some d → (s.opStmt.get? id).isSome
  covered : ∀ d < s.program.decls.size, (s.program.roll.role d).isParam = true ∨
    ∃ id, s.opDecl.get? id = some d
  tasks : ∀ task ∈ s.queue.pending, s.Due g task

/-- Where the values of a function on a list are all there, each one is. -/
theorem exists_of_map_some {α β : Type} {f : α → Option β} {l : List β} {m : List α}
    (h : l.map some = m.map f) {x : α} (hx : x ∈ m) : ∃ c ∈ l, f x = some c := by
  have hmem : f x ∈ l.map some := h ▸ List.mem_map_of_mem hx
  obtain ⟨c, hc, heq⟩ := List.mem_map.mp hmem
  exact ⟨c, hc, heq.symm⟩

section Enlists

variable {g : Graph} {s t u : LiftState}

theorem LiftState.Enlists.refl (s : LiftState) : s.Enlists s := ⟨.refl _ _, fun _ _ h => h⟩

theorem LiftState.Enlists.trans (h : s.Enlists t) (h' : t.Enlists u) : s.Enlists u :=
  ⟨h.roll.trans (h'.roll.mono h.roll.size), fun id d hd => h'.opDecl id d (h.opDecl id d hd)⟩

theorem LiftState.Enlists.scopeIn (h : s.Enlists t) {around : Option OpId} {scope : Scope}
    (hs : s.scopeIn around = some scope) : t.scopeIn around = some scope := by
  cases around with
  | none => exact hs
  | some f =>
      obtain ⟨d, hd, hscope⟩ := Option.map_eq_some_iff.mp hs
      exact Option.map_eq_some_iff.mpr ⟨d, h.opDecl f d hd, hscope⟩

theorem LiftState.Due.mono {task : Task} (hs : s.Due g task) (h : s.Enlists t) : t.Due g task :=
  hs.imp fun _ hdue => ⟨h.scopeIn hdue.1, hdue.2⟩

theorem LiftState.Stands.mono {id : OpId} {o : Operation} {d : DeclId} (hs : s.Stands g id o d)
    (hd : d < s.program.decls.size) (h : s.Enlists t) : t.Stands g id o d := by
  obtain ⟨hrole, hparts⟩ := hs
  refine ⟨(h.roll.role d hd) ▸ hrole, ?_⟩
  split at hparts
  · obtain ⟨r, q, hq, hid, hr⟩ := hparts
    obtain ⟨c, hc⟩ := Option.isSome_iff_exists.mp hr
    exact ⟨r, q, hq, hid, by rw [h.opDecl r c hc]; rfl⟩
  · rw [h.roll.params d hd]
    exact hparts
  · rw [h.roll.fields d hd, hparts]
    refine List.map_congr_left fun x hx => ?_
    obtain ⟨c, -, hc⟩ := exists_of_map_some hparts hx
    rw [hc, h.opDecl x c hc]
  · trivial

end Enlists

/-! ### Declaring an operation -/

/-- The state `t` comes from `s` by declaring the operation, along with its parts, and recording it. -/
structure Joins (g : Graph) (scope : Scope) (id : OpId) (o : Operation) (s t : LiftState) : Prop where
  roll : g.Enters o scope s.program.roll t.program.roll
  self : t.opDecl.get? id = some s.program.decls.size
  parts : ∀ i x, (g.partOps o)[i]? = some x →
    g.kind? x = some .field ∧ t.opDecl.get? x = some (s.program.decls.size + 1 + i)
  others : ∀ x, x ≠ id → x ∉ g.partOps o →
    t.opDecl.get? x = s.opDecl.get? x ∧ t.opStmt.get? x = s.opStmt.get? x
  entered : ∀ x, x = id ∨ x ∈ g.partOps o → (t.opStmt.get? x).isSome
  tasks : t.queue.pending = s.queue.pending ++
    ((g.filling? o).map (o.filler scope s.program.decls.size)).toList

section Joins

variable {g : Graph} {scope : Scope} {id : OpId} {o : Operation} {s t : LiftState}

theorem Rostered.has (h : Rostered g s) {around : Option OpId} (hs : s.scopeIn around = some scope) :
    s.program.roll.Has scope ∧ ∀ r, scope ≠ .record r := by
  cases around with
  | none =>
      cases hs
      exact ⟨trivial, nofun⟩
  | some f =>
      obtain ⟨d, hd, rfl⟩ := Option.map_eq_some_iff.mp hs
      exact ⟨(h.known f d hd).1, nofun⟩

theorem Graph.encloses_partOps (ho : g.op? id = some o) {x : OpId} (hx : x ∈ g.partOps o) :
    g.Encloses id x := by
  unfold partOps fieldOps at hx
  split at hx
  · cases hr : o.regions.head? with
    | none =>
        rw [hr] at hx
        cases hx
    | some r =>
        rw [hr] at hx
        exact ⟨o, r, ho, List.mem_of_head? hr, hx⟩
  · cases hx

/-- The parts of an operation that was not declared were not declared either. -/
theorem Rostered.part_new (hform : g.Formed) (h : Rostered g s) (ho : g.op? id = some o)
    (hid : s.opDecl.get? id = none) {x : OpId} (hx : x ∈ g.partOps o)
    (hk : g.kind? x = some .field) : s.opDecl.get? x = none := by
  refine Option.eq_none_iff_forall_ne_some.mpr fun d hd => ?_
  obtain ⟨-, q, hq, -, hparts⟩ := h.known x d hd
  have hkind : q.kind? = some .field := by simpa [Graph.kind?, hq] using hk
  rw [hkind] at hparts
  obtain ⟨r, q', hq', hx', hr⟩ := hparts
  cases hform.encloses_unique (Graph.encloses_partOps hq' hx') (Graph.encloses_partOps ho hx)
  rw [hid] at hr
  cases hr

theorem Joins.enlists (hform : g.Formed) (h : Rostered g s) (hj : Joins g scope id o s t)
    (ho : g.op? id = some o) (hplace : ∀ r, scope ≠ .record r) (hid : s.opDecl.get? id = none) :
    s.Enlists t := by
  refine ⟨hj.roll.keeps hplace, fun x d hd => ?_⟩
  have hne : x ≠ id := by
    rintro rfl
    rw [hid] at hd
    cases hd
  have hpart : x ∉ g.partOps o := by
    intro hx
    obtain ⟨i, hi⟩ := List.mem_iff_getElem?.mp hx
    rw [h.part_new hform ho hid hx (hj.parts i x hi).1] at hd
    cases hd
  rw [(hj.others x hne hpart).1]
  exact hd

/-- What is declared for which operation afterwards. -/
theorem Joins.cases (hj : Joins g scope id o s t) {x : OpId} {d : DeclId}
    (hd : t.opDecl.get? x = some d) :
    x = id ∧ d = s.program.decls.size ∨
      (∃ i, (g.partOps o)[i]? = some x ∧ g.kind? x = some .field ∧ d = s.program.decls.size + 1 + i) ∨
      x ≠ id ∧ x ∉ g.partOps o ∧ s.opDecl.get? x = some d := by
  by_cases hx : x = id
  · subst hx
    exact .inl ⟨rfl, Option.some.inj (hd.symm.trans hj.self)⟩
  · by_cases hpart : x ∈ g.partOps o
    · obtain ⟨i, hi⟩ := List.mem_iff_getElem?.mp hpart
      obtain ⟨hk, hnew⟩ := hj.parts i x hi
      exact .inr (.inl ⟨i, hi, hk, Option.some.inj (hd.symm.trans hnew)⟩)
    · exact .inr (.inr ⟨hx, hpart, (hj.others x hx hpart).1 ▸ hd⟩)

/-- The fields of the record are the declarations after its own. -/
theorem Joins.listed_part (h : Rostered g s) (hj : Joins g scope id o s t)
    (hplace : ∀ r, scope ≠ .record r) {i : Nat} (hi : i < (g.partOps o).length) :
    o.kind? = some .record ∧ (t.program.roll.listed (.record s.program.decls.size))[i]? =
      some (s.program.decls.size + 1 + i) := by
  unfold Graph.partOps at hi
  split at hi
  · next hk =>
      refine ⟨hk, ?_⟩
      have hfields := hj.roll.fields h.enrolled hplace hk
      exact hfields ▸ List.getElem?_range' hi |>.trans (by rw [Nat.one_mul]; rfl)
  · cases hi

theorem Joins.stands_self (h : Rostered g s) (hj : Joins g scope id o s t)
    (hplace : ∀ r, scope ≠ .record r) : t.Stands g id o s.program.decls.size := by
  have hroll := hj.roll
  refine ⟨hroll.self.2.2, ?_⟩
  split
  · next hk =>
      unfold Graph.Enters at hroll
      rw [hk] at hroll
      exact hroll.elim
  · next hk =>
      obtain ⟨inputs, hinputs, hparams⟩ := hroll.params hk
      exact ⟨inputs, hinputs, (congrArg List.length hparams).trans List.length_range'⟩
  · next hk =>
      have hfields : t.program.roll.listed (.record s.program.decls.size) = _ :=
        hroll.fields h.enrolled hplace hk
      have hparts : g.partOps o = g.fieldOps o := if_pos hk
      refine List.ext_getElem? fun i => ?_
      obtain hi | hi := Nat.lt_or_ge i (g.partOps o).length
      · have hx : (g.partOps o)[i]? = some (g.partOps o)[i] := List.getElem?_eq_getElem hi
        rw [List.getElem?_map, (hj.listed_part h hplace hi).2, List.getElem?_map, hx, Option.map_some,
          Option.map_some, (hj.parts i _ hx).2]
      · rw [List.getElem?_eq_none, List.getElem?_eq_none]
        · rw [List.length_map]
          exact hi
        · rw [List.length_map, hfields, List.length_range', ← hparts]
          exact hi
  · trivial

/-- The task that fills the declaration lifts where the operation has it lifted. -/
theorem Joins.due (hg : g.Arranged) (hj : Joins g scope id o s t) (ho : g.op? id = some o)
    (hwalked : g.Walked id) (hscope : t.scopeIn (g.functionAround? id) = some scope) {r : RegionId}
    (hr : g.filling? o = some r) : t.Due g (o.filler scope s.program.decls.size r) := by
  have hread : r ∈ g.readRegions o := by
    unfold Graph.filling? at hr
    unfold Graph.readRegions Graph.filling?
    split at hr
    · next hk => simp [hk, hr]
    · next hk => simp [hk, hr]
    · cases hr
  have hinside {x : OpId} (hx : x ∈ g.regionOps r) : g.Walked x ∧ g.Encloses id x :=
    ⟨.inner hwalked ho hread hx, o, r, ho, g.readRegions_subset o hread, hx⟩
  unfold Due
  rw [Operation.region_filler, Operation.filler]
  split
  · next hk =>
      refine ⟨some id, Option.map_eq_some_iff.mpr ⟨_, hj.self, rfl⟩, fun x hx => ?_⟩
      exact ⟨(hinside hx).1, hg.functionAround?_function ho hk (hinside hx).2⟩
  · next hk =>
      refine ⟨g.functionAround? id, hscope, fun x hx => ?_⟩
      exact ⟨(hinside hx).1, hg.functionAround?_through ho hk (hinside hx).2⟩

/-- Declaring an operation that was not lifted before. -/
theorem Rostered.joins (hg : g.Arranged) (h : Rostered g s) (hj : Joins g scope id o s t)
    (ho : g.op? id = some o) (hnew : s.opStmt.get? id = none)
    (hwalked : g.Walked id) (hscope : s.scopeIn (g.functionAround? id) = some scope) :
    Rostered g t ∧ s.Enlists t := by
  obtain ⟨hhas, hplace⟩ := h.has hscope
  have hid : s.opDecl.get? id = none := by
    refine Option.eq_none_iff_forall_ne_some.mpr fun d hd => ?_
    have hentered := h.entered id d hd
    rw [hnew] at hentered
    cases hentered
  have henlists := hj.enlists hg.toFormed h ho hplace hid
  have henrolled := hj.roll.enrolled h.enrolled hhas hplace
  obtain ⟨hsize, hself, -⟩ := hj.roll.self
  -- Fields are no declarations by themselves.
  have hfield : ∀ {x q}, g.op? x = some q → g.kind? x = some .field → q.isDeclaration = false := by
    intro x q hq hk
    have hkind : q.kind? = some .field := by simpa [Graph.kind?, hq] using hk
    simp [Operation.isDeclaration, hkind]
  refine ⟨⟨henrolled, fun x d hd => ?_, fun x q d hq hx hd => ?_, fun x q hq hx hx' => ?_,
    fun x d hd => ?_, fun d hd => ?_, fun task htask => ?_⟩, henlists⟩
  · obtain ⟨rfl, rfl⟩ | ⟨i, hi, hk, rfl⟩ | ⟨-, -, hold⟩ := hj.cases hd
    · exact ⟨hsize, o, ho, hj.stands_self h hplace⟩
    · have hlt := (List.getElem?_eq_some_iff.mp hi).1
      obtain ⟨-, hlisted⟩ := hj.listed_part h hplace hlt
      obtain ⟨q, hq, hkind⟩ := Option.bind_eq_some_iff.mp hk
      refine ⟨henrolled.lt_of_listed (List.mem_of_getElem? hlisted), q, hq, ?_, ?_⟩
      · rw [henrolled.field _ i _ hlisted]
        exact hkind
      · rw [hkind]
        exact ⟨id, o, ho, List.mem_of_getElem? hi, by rw [hj.self]; rfl⟩
    · obtain ⟨hlt, q, hq, hstands⟩ := h.known x d hold
      exact ⟨Nat.lt_of_lt_of_le hlt henlists.roll.size, q, hq, hstands.mono hlt henlists⟩
  · obtain ⟨rfl, rfl⟩ | ⟨i, hi, hk, rfl⟩ | ⟨-, -, hold⟩ := hj.cases hd
    · exact ⟨hwalked, (henlists.scopeIn hscope).trans (congrArg some hself.symm)⟩
    · rw [hfield hq hk] at hx
      cases hx
    · obtain ⟨hw, hs⟩ := h.place x q d hq hx hold
      refine ⟨hw, (henlists.scopeIn hs).trans ?_⟩
      rw [henlists.roll.place d (h.known x d hold).1]
  · by_cases heq : x = id
    · rw [heq, hj.self]
      rfl
    · have hpart : x ∉ g.partOps o := by
        intro hmem
        obtain ⟨i, hi⟩ := List.mem_iff_getElem?.mp hmem
        rw [hfield hq (hj.parts i x hi).1] at hx
        cases hx
      obtain ⟨hdecl', hstmt⟩ := hj.others x heq hpart
      rw [hstmt] at hx'
      rw [hdecl']
      exact h.noted x q hq hx hx'
  · obtain ⟨rfl, rfl⟩ | ⟨i, hi, -, -⟩ | ⟨hne, hpart, hold⟩ := hj.cases hd
    · exact hj.entered _ (.inl rfl)
    · exact hj.entered x (.inr (List.mem_of_getElem? hi))
    · rw [(hj.others x hne hpart).2]
      exact h.entered x d hold
  · obtain hlt | rfl | hgt := Nat.lt_trichotomy d s.program.decls.size
    · obtain hparam | ⟨x, hx⟩ := h.covered d hlt
      · rw [henlists.roll.role d hlt]
        exact .inl hparam
      · exact .inr ⟨x, henlists.opDecl x d hx⟩
    · exact .inr ⟨id, hj.self⟩
    · obtain hparam | ⟨i, hi, rfl⟩ := hj.roll.new henrolled hgt hd
      · exact .inl hparam
      · exact .inr ⟨_, (hj.parts i _ (List.getElem?_eq_getElem hi)).2⟩
  · rw [hj.tasks, List.mem_append, Option.mem_toList] at htask
    obtain hold | hnew := htask
    · exact (h.tasks task hold).mono henlists
    · obtain ⟨r, hr, rfl⟩ := Option.map_eq_some_iff.mp hnew
      exact hj.due hg ho hwalked (henlists.scopeIn hscope) hr

end Joins

end Readback
