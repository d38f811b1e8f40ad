import Readback.Proofs.Lift.Roster

/-! # Declarations are neither lost nor doubled

A roll says which declarations there are and where they are listed; the roster of a lift relates the
roll of its program to the operations of the graph. The rules for functions, variables and records
declare their operations (`Lift.opAux_joins`), and all other steps leave declarations alone. So a whole
lift keeps its roster.

* `Fielded` and `declares_joins`, `record_joins` say what the three rules do to the roll: the declaration
  of the operation is new and is listed in the scope of the rule; a function gets its parameters and a
  record its fields, in the order of the operations.
* `Enrols` is the account of lifting a list of operations in a scope: declarations stay, the entries of
  other operations stay, and those of the list that declare something are listed in the scope, in their
  order. It holds of single operations (`Lift.opAux_enrols`) by induction on the bound, of the first phase
  (`Lift.pass_enrols`), of tasks (`Lift.task_enrols`) and of the queue (`Lift.drainAux_enrols`).
* `Lift.run_enrols` puts the phases together: what the first phase lists at file level stands in the order
  of the operations, and the second phase only lists below it.

If there are only declarations and types at file level (`Graph.Orderly`), the second phase lists nothing
more there (`Rostered.topLevel_eq`).

The main result is `Graph.Built.lift_declares`. After a lift that succeeds, the declarations of the
program are those of the operations that were lifted, one for each, along with the parameters of functions
and the fields of records, and every one of them is in exactly one list (`LiftState.Declared`). The graph
`census` is an instance with all sorts of declarations. -/

namespace Readback

open Step LiftState Relation

namespace Lift

/-! ### Rules for declarations -/

section Rules

variable {env : LiftEnv} {scope : Scope} {id : OpId} {o : Operation} {s : LiftState}

theorem still_gives {α : Type} {g : Graph} {m : Lift α} (hm : (Account.still g).Follows [] m) :
    Gives m s fun _ t => Same records s t := (hm s).mono (fun _ _ h => h) fun _ _ _ => trivial

/-- The state `t` comes from `s` by declaring the operations as the fields of the record from an index
on. -/
structure Fielded (g : Graph) (r : DeclId) (index : Nat) (ids : List OpId) (s t : LiftState) :
    Prop where
  roll : t.program.roll = s.program.roll.pushFields r index ids.length
  parts : ∀ i x, ids[i]? = some x →
    g.kind? x = some .field ∧ t.opDecl.get? x = some (s.program.decls.size + i)
  others : ∀ x, x ∉ ids → t.opDecl.get? x = s.opDecl.get? x ∧ t.opStmt.get? x = s.opStmt.get? x
  entered : ∀ x ∈ ids, (t.opStmt.get? x).isSome
  queue : t.queue = s.queue

/-- One more field in front. -/
theorem Fielded.cons {g : Graph} {r : DeclId} {index : Nat} {ids : List OpId} {u t : LiftState}
    (hid : id ∉ ids) (hk : g.kind? id = some .field)
    (roll : u.program.roll = s.program.roll.declare (.record r) (.field index))
    (opDecl : u.opDecl = s.opDecl.insert id s.program.decls.size)
    (opStmt : u.opStmt = s.opStmt.insert id none) (queue : u.queue = s.queue)
    (h : Fielded g r (index + 1) ids u t) : Fielded g r index (id :: ids) s t := by
  have hsize : u.program.decls.size = s.program.decls.size + 1 := congrArg Roll.size roll
  have hother := h.others id hid
  rw [opDecl, opStmt, Dict.get?_insert, Dict.get?_insert, if_pos rfl, if_pos rfl] at hother
  refine ⟨?_, fun i x hx => ?_, fun x hx => ?_, fun x hx => ?_, h.queue.trans queue⟩
  · rw [h.roll, roll]
    rfl
  · cases i with
    | zero =>
        cases Option.some.inj hx
        exact ⟨hk, hother.1⟩
    | succ i =>
        obtain ⟨hkind, hdecl⟩ := h.parts i x hx
        rw [hsize, Nat.add_assoc, Nat.add_comm 1 i] at hdecl
        exact ⟨hkind, hdecl⟩
  · rw [List.mem_cons, not_or] at hx
    obtain ⟨hdecl, hstmt⟩ := h.others x hx.2
    rw [hdecl, hstmt, opDecl, opStmt, Dict.get?_insert, Dict.get?_insert, if_neg (Ne.symm hx.1),
      if_neg (Ne.symm hx.1)]
    exact ⟨rfl, rfl⟩
  · rcases List.mem_cons.mp hx with rfl | hx
    · rw [hother.2]
      rfl
    · exact h.entered x hx

theorem fields_fielded (r : DeclId) (index : Nat) {ids : List OpId} (hids : ids.Nodup)
    (hindex : (s.program.roll.listed (.record r)).length = index) :
    Gives (fields env r index ids) s fun _ t => Fielded env.graph r index ids s t := by
  induction ids generalizing s index with
  | nil => exact .pure ⟨rfl, nofun, fun _ _ => ⟨rfl, rfl⟩, nofun, rfl⟩
  | cons id rest ih =>
      obtain ⟨hid, hrest⟩ := List.nodup_cons.mp hids
      refine (operation_gives env id).bind ?_
      rintro o s ⟨ho, rfl⟩
      refine .guard trivial fun hkind => ?_
      have hk : env.graph.kind? id = some .field := by simpa [Graph.kind?, ho] using hkind
      split
      · exact .throw _ trivial
      · next typeId _ =>
          refine (still_gives (type_follows typeId)).bind fun type t₁ h₁ => ?_
          refine (still_gives (chooseName_follows _ o index)).bind fun name t₂ h₂ => ?_
          have hold : Same records s t₂ := IsTrans.trans _ _ _ h₁ h₂
          refine (typed_gives_program (Check.fieldDecl_enters r name type)).bind ?_
          rintro d _ ⟨q, ⟨rfl, hq⟩, rfl⟩
          have htables := tables_of_records hold
          have hsize : t₂.program.decls.size = s.program.decls.size :=
            congrArg Roll.size (roll_of_records hold)
          have hroll : q.roll = s.program.roll.declare (.record r) (.field index) := by
            rw [hq, ← hindex, ← roll_of_records hold]
            rfl
          have hdecl : t₂.opDecl = s.opDecl := congrArg Tables.opDecl htables
          have hstmt : t₂.opStmt = s.opStmt := congrArg Tables.opStmt htables
          let u : LiftState := { t₂ with
            program := q
            opDecl := t₂.opDecl.insert id t₂.program.decls.size
            opStmt := t₂.opStmt.insert id none }
          have hnext : Gives (fields env r (index + 1) rest) u fun _ t =>
              Fielded env.graph r (index + 1) rest u t := by
            refine ih _ hrest ?_
            show (q.roll.listed (.record r)).length = index + 1
            rw [hroll, Roll.listed_declare, List.length_append, hindex]
            rfl
          have hdecl : u.opDecl = s.opDecl.insert id s.program.decls.size := by
            show t₂.opDecl.insert id t₂.program.decls.size = _
            rw [hdecl, hsize]
          have hstmt : u.opStmt = s.opStmt.insert id none := congrArg (·.insert id none) hstmt
          have hqueue : u.queue = s.queue := congrArg Tables.queue htables
          exact hnext.imp fun _ t ht => ht.cons hid hk hroll hdecl hstmt hqueue

/-- The rule for a function or a variable, with the operation recorded. -/
theorem declares_joins (hk : o.kind? = some .function ∨ o.kind? = some .var) {d : DeclId}
    {task : Option Task} {t : LiftState} (hd : d = s.program.decls.size)
    (htask : task = (env.graph.filling? o).map (o.filler scope d))
    (hroll : env.graph.Enters o scope s.program.roll t.program.roll)
    (ht : t.tables = (s.tables.noted scope o d).deferring task) (r : Option StmtId) :
    Joins env.graph scope o.id o s (t.recorded o.id r) := by
  subst hd htask
  have hparts : env.graph.partOps o = [] := by
    rcases hk with hk | hk <;> simp [Graph.partOps, hk]
  have hopDecl : t.opDecl = s.opDecl.insert o.id s.program.decls.size :=
    (congrArg Tables.opDecl ht).trans (Tables.deferring_opDecl ..)
  have hopStmt : t.opStmt = s.opStmt :=
    (congrArg Tables.opStmt ht).trans (Tables.deferring_opStmt ..)
  have hget : ∀ x, (t.recorded o.id r).opStmt.get? x =
      if o.id = x then some r else s.opStmt.get? x := fun x => hopStmt ▸ Dict.get?_insert ..
  refine ⟨hroll, ?_, fun i x hx => ?_, fun x hx _ => ⟨?_, ?_⟩, fun x hx => ?_, ?_⟩
  · show t.opDecl.get? o.id = _
    rw [hopDecl, Dict.get?_insert, if_pos rfl]
  · rw [hparts] at hx
    cases hx
  · show t.opDecl.get? x = _
    rw [hopDecl, Dict.get?_insert, if_neg (Ne.symm hx)]
  · rw [hget, if_neg (Ne.symm hx)]
  · rw [hparts] at hx
    rw [hget, if_pos (hx.resolve_right List.not_mem_nil).symm]
    rfl
  · show t.tables.queue.pending = _
    rw [ht]
    cases env.graph.filling? o with
    | none => exact (List.append_nil _).symm
    | some region => rfl

/-- A record that was declared and then got its fields, with the operation recorded. -/
theorem Fielded.joins {g : Graph} {u t v : LiftState} (hform : g.Formed) (ho : g.op? o.id = some o)
    (hk : o.kind? = some .record) (roll : u.program.roll = s.program.roll.declare scope .record)
    (opDecl : u.opDecl = s.opDecl.insert o.id s.program.decls.size) (opStmt : u.opStmt = s.opStmt)
    (queue : u.queue = s.queue)
    (h : Fielded g s.program.decls.size 0 (g.fieldOps o) u t) (hv : Same records t v)
    (r : Option StmtId) : Joins g scope o.id o s (v.recorded o.id r) := by
  have hparts : g.partOps o = g.fieldOps o := if_pos hk
  have hself : o.id ∉ g.fieldOps o := fun hmem => hform.acyclic o.id
    (.single (Graph.encloses_partOps ho (hparts ▸ hmem)))
  have hsize : u.program.decls.size = s.program.decls.size + 1 := congrArg Roll.size roll
  have hdecl : v.opDecl = t.opDecl := congrArg Tables.opDecl (tables_of_records hv)
  have hstmt : v.opStmt = t.opStmt := congrArg Tables.opStmt (tables_of_records hv)
  have hqueue : v.queue = t.queue := congrArg Tables.queue (tables_of_records hv)
  have hget : ∀ x, (v.recorded o.id r).opStmt.get? x =
      if o.id = x then some r else t.opStmt.get? x := fun x => hstmt ▸ Dict.get?_insert ..
  refine ⟨?_, ?_, fun i x hx => ?_, fun x hx hpart => ⟨?_, ?_⟩, fun x hx => ?_, ?_⟩
  · show g.Enters o scope s.program.roll v.program.roll
    unfold Graph.Enters
    rw [hk, roll_of_records hv, h.roll, roll]
    rfl
  · show v.opDecl.get? o.id = _
    rw [hdecl, (h.others o.id hself).1, opDecl, Dict.get?_insert, if_pos rfl]
  · rw [hparts] at hx
    obtain ⟨hkind, hnew⟩ := h.parts i x hx
    rw [hsize] at hnew
    exact ⟨hkind, (congrArg (Dict.get? · x) hdecl).trans hnew⟩
  · show v.opDecl.get? x = _
    rw [hdecl, (h.others x (hparts ▸ hpart)).1, opDecl, Dict.get?_insert, if_neg (Ne.symm hx)]
  · rw [hget, if_neg (Ne.symm hx), (h.others x (hparts ▸ hpart)).2, opStmt]
  · rw [hget]
    split
    · rfl
    · next hne =>
        rw [hparts] at hx
        exact h.entered x (hx.resolve_left (Ne.symm hne))
  · have hfill : g.filling? o = none := by simp [Graph.filling?, hk]
    show v.queue.pending = _
    rw [hfill, hqueue, h.queue, queue]
    exact (List.append_nil _).symm

/-- The rule for a record, with the operation recorded. -/
theorem record_joins (hg : env.graph.Arranged) (ho : env.graph.op? o.id = some o)
    (hk : o.kind? = some .record) (hscope : s.program.roll.Has scope)
    (hplace : ∀ r, scope ≠ .record r) (henrolled : s.program.roll.Enrolled) :
    Gives (record env scope o) s fun r t => Joins env.graph scope o.id o s (t.recorded o.id r) := by
  have hnodup : (env.graph.fieldOps o).Nodup := by
    unfold Graph.fieldOps
    cases o.regions.head? with
    | none => exact .nil
    | some r => exact hg.regionOps_nodup r
  refine (still_gives (chooseName_follows _ o 0)).bind fun name t₁ h₁ => ?_
  refine (typed_gives_program (Check.recordDecl_enters scope name)).bind ?_
  rintro d t₂ ⟨q₂, ⟨hd, hq₂⟩, rfl⟩
  refine (typed_gives_program (Check.addDecl_lists scope d)).bind ?_
  rintro _ t₃ ⟨q₃, hq₃, rfl⟩
  have htables := tables_of_records h₁
  have hnew : d = s.program.decls.size := hd.trans (congrArg Roll.size (roll_of_records h₁))
  have hroll : q₃.roll = s.program.roll.declare scope .record := by
    rw [roll_of_records h₁] at hq₂
    rw [hq₃ (by rw [hq₂]; exact hscope.mono (Nat.le_succ _)), hq₂, hnew]
    rfl
  let u : LiftState := { t₁ with program := q₃, opDecl := t₁.opDecl.insert o.id d }
  refine Ensures.bind (P := fun _ t => t = u) (by exact rfl) ?_
  rintro _ _ rfl
  have hdecl : u.opDecl = s.opDecl.insert o.id s.program.decls.size :=
    hnew ▸ congrArg (·.insert o.id d) (congrArg Tables.opDecl htables)
  have hstmt : u.opStmt = s.opStmt := congrArg Tables.opStmt htables
  have hqueue : u.queue = s.queue := congrArg Tables.queue htables
  have hnone : (u.program.roll.listed (.record d)).length = 0 := by
    show (q₃.roll.listed (.record d)).length = 0
    rw [hroll, hnew]
    exact congrArg List.length (henrolled.fields_declare hplace .record)
  refine (fields_fielded d 0 hnodup hnone).bind fun _ t ht => ?_
  have hquiet : (Account.still env.graph).Follows [] (declStmt? scope d) := declStmt_follows d
  refine (still_gives hquiet).imp fun r v hv => ?_
  rw [hnew] at ht
  exact ht.joins hg.toFormed ho hk hroll hdecl hstmt hqueue hv r

/-- Lifting a function, a variable or a record that was not lifted before. -/
theorem opAux_joins (hg : env.graph.Arranged) {bound : Nat} (ho : env.graph.op? id = some o)
    (hdecl : o.isDeclaration = true) (hs : s.opStmt.get? id = none) (h : Rostered env.graph s)
    {around : Option OpId} (hscope : s.scopeIn around = some scope) :
    Gives (opAux env (bound + 1) scope id) s fun _ t => Joins env.graph scope id o s t := by
  obtain ⟨hhas, hplace⟩ := h.has hscope
  obtain rfl := hg.op_id id o ho
  have hrule : Gives (rule env (opAux env bound) scope o.id) s fun r t =>
      Joins env.graph scope o.id o s (t.recorded o.id r) := by
    by_cases hk : o.kind? = some .function ∨ o.kind? = some .var
    · refine (rule_declares ho hk s).mono (fun r t ht => ?_) fun _ _ _ => trivial
      obtain ⟨d, task, ⟨htask, hroll⟩, ht⟩ := ht
      exact declares_joins hk (hroll hhas).1 htask (hroll hhas).2 ht r
    · have hrecord : o.kind? = some .record := by
        unfold Operation.isDeclaration at hdecl
        split at hdecl <;> simp_all
      unfold rule operation
      rw [ho, pure_bind, hrecord]
      exact record_joins hg ho hrecord hhas hplace h.enrolled
  exact opAux_outcome (E := fun _ _ => True) hs hrule

end Rules

end Lift

/-! ### The account -/

/-- What lifting the operations of the list does in a scope: declarations stay, entries of other
operations stay, and if none of the list was lifted before, those that declare something are listed in
the scope, in their order. -/
structure Enrols (g : Graph) (scope : Scope) (l : List OpId) (s t : LiftState) : Prop where
  rostered : Rostered g t
  enlists : s.Enlists t
  kept : ∀ x, x ∉ l → g.kind? x ≠ some .field → t.opStmt.get? x = s.opStmt.get? x
  listed : l.Nodup → s.Fresh g l →
    (t.program.roll.listed scope).map some = (s.program.roll.listed scope).map some ++
      (l.filter g.declares).map t.opDecl.get?

section Enrols

variable {g : Graph} {scope : Scope} {l a b : List OpId} {s t u : LiftState} {id : OpId}

theorem Rostered.congr (h : Rostered g s) (hrecords : Same records s t) : Rostered g t := by
  have hroll := roll_of_records hrecords
  have hsize : t.program.decls.size = s.program.decls.size := congrArg Roll.size hroll
  have hdecl : t.opDecl = s.opDecl := congrArg Tables.opDecl (tables_of_records hrecords)
  have hstmt : t.opStmt = s.opStmt := congrArg Tables.opStmt (tables_of_records hrecords)
  have hqueue : t.queue = s.queue := congrArg Tables.queue (tables_of_records hrecords)
  have henlists : s.Enlists t := ⟨hroll ▸ .refl _ _, fun _ _ h => hdecl ▸ h⟩
  refine ⟨hroll ▸ h.enrolled, fun id d hd => ?_, fun id o d ho hid hd => ?_, ?_, ?_, ?_, ?_⟩
  · rw [hdecl] at hd
    obtain ⟨hlt, o, ho, hstands⟩ := h.known id d hd
    exact ⟨hsize ▸ hlt, o, ho, hstands.mono hlt henlists⟩
  · rw [hdecl] at hd
    rw [hroll]
    exact ⟨(h.place id o d ho hid hd).1, henlists.scopeIn (h.place id o d ho hid hd).2⟩
  · rw [hdecl, hstmt]
    exact h.noted
  · rw [hdecl, hstmt]
    exact h.entered
  · rw [hdecl, hroll, hsize]
    exact h.covered
  · rw [hqueue]
    exact fun task htask => (h.tasks task htask).mono henlists

/-- A run that leaves tables and roll alone, over operations that declare nothing or were lifted. -/
theorem Rostered.enrols (hs : Rostered g s) (h : Same records s t)
    (hl : s.Fresh g l → ∀ x ∈ l, g.declares x = false) : Enrols g scope l s t := by
  have hdecl : t.opDecl = s.opDecl := congrArg Tables.opDecl (tables_of_records h)
  have hstmt : t.opStmt = s.opStmt := congrArg Tables.opStmt (tables_of_records h)
  refine ⟨hs.congr h, ⟨roll_of_records h ▸ .refl _ _, fun _ _ hd => hdecl ▸ hd⟩,
    fun _ _ _ => by rw [hstmt], fun _ hfresh => ?_⟩
  have hnone : l.filter g.declares = [] :=
    List.filter_eq_nil_iff.mpr fun x hx => by simp [hl hfresh x hx]
  rw [hnone, roll_of_records h]
  exact (List.append_nil _).symm

theorem Enrols.append (hst : Enrols g scope a s t) (htu : Enrols g scope b t u) :
    Enrols g scope (a ++ b) s u := by
  refine ⟨htu.rostered, hst.enlists.trans htu.enlists, fun x hx hk => ?_, fun hnodup hfresh => ?_⟩
  · rw [List.mem_append, not_or] at hx
    rw [htu.kept x hx.2 hk, hst.kept x hx.1 hk]
  · obtain ⟨hna, hnb, hdisjoint⟩ := List.nodup_append.mp hnodup
    have hfb : t.Fresh g b := hfresh.later hdisjoint hst.kept
    have hfirst := hst.listed hna (hfresh.subset (List.subset_append_left a b))
    have hsame : (a.filter g.declares).map u.opDecl.get? =
        (a.filter g.declares).map t.opDecl.get? := by
      refine List.map_congr_left fun x hx => ?_
      have hmem : t.opDecl.get? x ∈ (t.program.roll.listed scope).map some := by
        rw [hfirst]
        exact List.mem_append_right _ (List.mem_map_of_mem hx)
      obtain ⟨d, -, hd⟩ := List.mem_map.mp hmem
      rw [← hd, htu.enlists.opDecl x d hd.symm]
    rw [htu.listed hnb hfb, hfirst, List.filter_append, List.map_append, hsame, List.append_assoc]

/-- An operation that declares nothing, along with those in it. -/
theorem Enrols.cons (h : Enrols g scope l s t) (hid : g.declares id = false) :
    Enrols g scope (id :: l) s t := by
  have hsub : l ⊆ id :: l := List.subset_cons_self id l
  refine ⟨h.rostered, h.enlists, fun x hx => h.kept x fun hmem => hx (hsub hmem),
    fun hnodup hfresh => ?_⟩
  rw [List.filter_cons_of_neg (by simp [hid])]
  exact h.listed (List.nodup_cons.mp hnodup).2 (hfresh.subset hsub)

/-- Recording an operation that declares nothing. -/
theorem Enrols.recorded (h : Enrols g scope l s t) (hid : id ∈ l) (hdecl : g.declares id = false)
    (r : Option StmtId) : Enrols g scope l s (t.recorded id r) := by
  have hget : ∀ x, (t.recorded id r).opStmt.get? x = if id = x then some r else t.opStmt.get? x :=
    fun x => Dict.get?_insert ..
  refine ⟨?_, ⟨h.enlists.roll, h.enlists.opDecl⟩, fun x hx hk => ?_, h.listed⟩
  · refine { h.rostered with noted := fun x o ho hx hx' => ?_, entered := fun x d hd => ?_ }
    · rw [hget] at hx'
      split at hx'
      · next heq =>
          rw [← Graph.declares_eq ho, ← heq, hdecl] at hx
          cases hx
      · exact h.rostered.noted x o ho hx hx'
    · rw [hget]
      split
      · rfl
      · exact h.rostered.entered x d hd
  · rw [hget, if_neg]
    · exact h.kept x hx hk
    · rintro rfl
      exact hx hid

/-- An operation that was declared. -/
theorem Joins.enrols {o : Operation} (hg : g.Arranged) (hj : Joins g scope id o s t) (h : Rostered g s)
    (ho : g.op? id = some o) (hdecl : o.isDeclaration = true) (hnew : s.opStmt.get? id = none)
    (hwalked : g.Walked id) (hscope : s.scopeIn (g.functionAround? id) = some scope) :
    Enrols g scope [id] s t := by
  obtain ⟨hrostered, henlists⟩ := h.joins hg hj ho hnew hwalked hscope
  refine ⟨hrostered, henlists, fun x hx hk => ?_, fun _ _ => ?_⟩
  · refine (hj.others x (List.ne_of_not_mem_cons hx) fun hmem => ?_).2
    obtain ⟨i, hi⟩ := List.mem_iff_getElem?.mp hmem
    exact hk (hj.parts i x hi).1
  · rw [hj.roll.listed (h.has hscope).2, List.map_append, List.filter_cons_of_pos
      (by rw [Graph.declares_eq ho, hdecl]), List.filter_nil, List.map_singleton, List.map_singleton,
      hj.self]
    rfl

end Enrols

/-- The account of runs in a scope, which is that of the operations in the given function. -/
def enrolling (g : Graph) (around : Option OpId) (scope : Scope) : Account g where
  done l s t := Rostered g s → s.scopeIn around = some scope → Enrols g scope l s t
  failed _ _ _ := True
  idle h hs _ := hs.enrols h fun _ => nofun
  append h h' hs hscope := by
    have hst := h hs hscope
    exact hst.append (h' hst.rostered (hst.enlists.scopeIn hscope))
  fails _ _ := trivial
  later _ _ := trivial

section Account

variable {g : Graph} {around : Option OpId} {scope : Scope} {l : List OpId} {α : Type} {m : Lift α}

theorem enrolling_follows (h : ∀ s, Rostered g s → s.scopeIn around = some scope →
    Gives m s fun _ t => Enrols g scope l s t) : (enrolling g around scope).Follows l m := by
  intro s
  unfold Gives Ensures at h
  unfold Outcome
  cases hm : m s with
  | ok a t =>
      intro hs hscope
      have ht := h s hs hscope
      rwa [hm] at ht
  | error e t => trivial

theorem Account.Follows.enrols (h : (enrolling g around scope).Follows l m) {s : LiftState}
    (hs : Rostered g s) (hscope : s.scopeIn around = some scope) :
    Gives m s fun _ t => Enrols g scope l s t :=
  (h s).mono (fun _ _ ht => ht hs hscope) fun _ _ _ => trivial

end Account

namespace Lift

section Run

variable {env : LiftEnv} {scope : Scope} {id : OpId} {around : Option OpId} {s : LiftState}

/-- The rule for an operation that declares nothing itself. -/
theorem rule_enrols {lift : OpLifter} {o : Operation} {visits : OpId → List OpId}
    (ho : env.graph.op? id = some o) (hdecl : o.isDeclaration = false)
    (hlift : ∀ c ∈ env.graph.innerOps o, ∀ t, Rostered env.graph t → t.scopeIn around = some scope →
      Gives (lift scope c) t fun _ u => Enrols env.graph scope (visits c) t u)
    (hs : Rostered env.graph s) (hscope : s.scopeIn around = some scope) :
    Gives (rule env lift scope id) s fun _ t =>
      Enrols env.graph scope ((env.graph.innerOps o).flatMap visits) s t := by
  have hrule : (enrolling env.graph around scope).Follows ((env.graph.innerOps o).flatMap visits)
      (rule env lift scope id) := by
    refine rule_follows ho (fun hk => ?_) (fun hk => ?_) (fun hk => ?_) fun _ =>
      ⟨rfl, fun c hc => enrolling_follows (hlift c hc)⟩
    all_goals simp [Operation.isDeclaration, hk] at hdecl
  exact hrule.enrols hs hscope

/-- Lifting an operation in the scope where it stands. -/
theorem opAux_enrols (hg : env.graph.Arranged) (bound : Nat) (hwalked : env.graph.Walked id)
    (hs : Rostered env.graph s) (hscope : s.scopeIn (env.graph.functionAround? id) = some scope) :
    Gives (opAux env bound scope id) s fun _ t =>
      Enrols env.graph scope (env.graph.walkAux env.graph.fileInner bound id) s t := by
  induction bound generalizing id s with
  | zero =>
      unfold opAux
      refine .get_bind ?_
      split
      · exact hs.enrols rfl fun _ => nofun
      · exact .throw _ trivial
  | succ bound ih =>
      have hid : id ∈ env.graph.walkAux env.graph.fileInner (bound + 1) id := List.mem_cons_self
      cases hget : s.opStmt.get? id with
      | some r =>
          unfold Gives Ensures
          rw [opAux_hit hget]
          refine hs.enrols rfl fun hfresh x hx => ?_
          by_cases hk : env.graph.kind? id = some .field
          · rw [Graph.walkAux_field hk, List.mem_singleton] at hx
            obtain ⟨o, ho, hkind⟩ := Option.bind_eq_some_iff.mp hk
            rw [hx, Graph.declares_eq ho, Operation.isDeclaration, hkind]
          · rw [hfresh id hid hk] at hget
            cases hget
      | none =>
          cases ho : env.graph.op? id with
          | none =>
              unfold Gives Ensures
              rw [opAux_miss hget, rule_missing ho]
              trivial
          | some o =>
              cases hdecl : o.isDeclaration with
              | true =>
                  rw [Graph.walkAux_leaf ho (by rw [Graph.fileInner, hdecl]; rfl)]
                  exact (opAux_joins hg ho hdecl hget hs hscope).imp fun _ t ht =>
                    ht.enrols hg hs ho hdecl hget hwalked hscope
              | false =>
                  have hnone : env.graph.declares id = false := by rw [Graph.declares_eq ho, hdecl]
                  rw [Graph.walkAux_succ ho, Graph.fileInner, hdecl] at hid ⊢
                  have hinner : ∀ c ∈ env.graph.innerOps o, env.graph.Walked c ∧
                      env.graph.functionAround? c = env.graph.functionAround? id := by
                    intro c hc
                    obtain ⟨r, hr, hc⟩ := List.mem_flatMap.mp hc
                    have hk : o.kind? ≠ some .function := by
                      intro hk
                      simp [Operation.isDeclaration, hk] at hdecl
                    exact ⟨.inner hwalked ho hr hc, hg.functionAround?_through ho hk
                      ⟨o, r, ho, env.graph.readRegions_subset o hr, hc⟩⟩
                  have hrule := rule_enrols ho hdecl (fun c hc t ht hscope =>
                    ih (hinner c hc).1 ht ((hinner c hc).2 ▸ hscope)) hs hscope
                  refine opAux_outcome (E := fun _ _ => True) hget (hrule.imp fun r t ht => ?_)
                  exact (ht.cons hnone).recorded List.mem_cons_self hnone r

/-- The first phase lists what it declares at file level in the order in which it comes to it. -/
theorem pass_enrols (hg : env.graph.Arranged) (hs : Rostered env.graph s) :
    Gives (pass env) s fun _ t => Enrols env.graph .file env.graph.fileOps s t := by
  have hpass : (enrolling env.graph none .file).Follows env.graph.fileOps (pass env) := by
    refine .forM fun id hid => .close (enrolling_follows fun t ht hscope => ?_) fun _ => .pure _
    exact opAux_enrols hg _ (.top hid) ht (hg.functionAround?_top hid ▸ hscope)
  exact hpass.enrols hs rfl

/-- Carrying out a task that is due. -/
theorem task_enrols (hg : env.graph.Arranged) (hs : Rostered env.graph s) {task : Task}
    (htask : s.Due env.graph task) :
    Gives (Lift.task env task) s fun _ t => Rostered env.graph t ∧ s.Enlists t := by
  obtain ⟨around, hscope, hops⟩ := htask
  have hop : ∀ id ∈ env.graph.regionOps task.region,
      (enrolling env.graph around task.scope).Follows
        (env.graph.walkAux env.graph.fileInner (env.graph.operations.size + 1) id)
        (op env task.scope id) := fun id hid => enrolling_follows fun t ht hscope =>
    opAux_enrols hg _ (hops id hid).1 ht ((hops id hid).2 ▸ hscope)
  exact ((task_follows task hop).enrols hs hscope).imp fun _ t ht => ⟨ht.rostered, ht.enlists⟩

theorem drainAux_enrols (hg : env.graph.Arranged) (bound count : Nat) (hs : Rostered env.graph s) :
    Gives (Queue.drainAux (Lift.task env) LiftError.unbounded bound count) s fun _ t =>
      Rostered env.graph t ∧ s.Enlists t := by
  induction bound generalizing s count with
  | zero =>
      unfold Queue.drainAux
      refine .get_bind ?_
      split
      · exact .pure ⟨hs, .refl s⟩
      · exact .throw _ trivial
  | succ bound ih =>
      unfold Queue.drainAux
      refine .get_bind ?_
      split
      · exact .pure ⟨hs, .refl s⟩
      · next task rest hpending =>
          have hdue : ∀ {x}, x ∈ task :: rest → s.Due env.graph x := fun hx =>
            hs.tasks _ (hpending ▸ hx)
          refine (update_gives fun q => { q with pending := rest }).bind ?_
          rintro _ _ rfl
          have hpopped : Rostered env.graph { s with queue := { s.queue with pending := rest } } :=
            { hs with tasks := fun x hx => hdue (List.mem_cons_of_mem task hx) }
          refine (task_enrols hg hpopped (hdue List.mem_cons_self)).bind fun _ u hu => ?_
          refine (update_gives Queue.complete).bind ?_
          rintro _ _ rfl
          have hdone : Rostered env.graph { u with queue := u.queue.complete } := { hu.1 with }
          refine (ih (count + 1) hdone).imp fun _ t ht => ⟨ht.1, ?_⟩
          exact LiftState.Enlists.trans (t := { u with queue := u.queue.complete })
            ⟨hu.2.roll, hu.2.opDecl⟩ ht.2

theorem drain_enrols (hg : env.graph.Arranged) (hs : Rostered env.graph s) :
    Gives (drain env) s fun _ t => Rostered env.graph t ∧ s.Enlists t := by
  refine drain_of_drainAux (E := fun _ _ => True) ?_
  refine (drainAux_enrols hg _ 0 hs).imp fun _ t ht => ?_
  exact ⟨{ ht.1 with }, ⟨ht.2.roll, ht.2.opDecl⟩⟩

theorem rostered_start (g : Graph) (target : Target) : Rostered g (.start target) where
  enrolled := Program.enrolled_empty target
  known _ _ := nofun
  place _ _ _ _ _ := nofun
  noted _ _ _ _ := nofun
  entered _ _ := nofun
  covered _ h := absurd h (Nat.not_lt_zero _)
  tasks _ := nofun

/-- A lift that succeeds keeps its roster, and in its second phase also what the first one listed. -/
theorem run_enrols (hg : env.graph.Arranged) {target : Target}
    (hrun : run env (.start target) = .ok () s) :
    Rostered env.graph s ∧
      ∃ t, Enrols env.graph .file env.graph.fileOps (.start target) t ∧ t.Enlists s := by
  have hgives : Gives (run env) (.start target) fun _ s => Rostered env.graph s ∧
      ∃ t, Enrols env.graph .file env.graph.fileOps (.start target) t ∧ t.Enlists s := by
    refine (pass_enrols hg (rostered_start env.graph target)).bind fun _ t ht => ?_
    exact (drain_enrols hg ht.rostered).bind fun _ u hu => .pure ⟨hu.1, t, ht, hu.2⟩
  unfold Gives Ensures at hgives
  rwa [hrun] at hgives

end Run

end Lift

/-! ### Where declarations are listed -/

theorem Roll.Enrolled.count_eq_one {R : Roll} (h : R.Enrolled) {d : DeclId} (hd : d < R.size)
    (hrole : (R.role d).isParam = false) :
    (R.listed (R.place d)).count d = 1 ∧ ∀ scope, scope ≠ R.place d → d ∉ R.listed scope := by
  refine ⟨List.count_eq_one_of_mem (h.nodup _) ((h.listed _ d).mpr ⟨hd, rfl, hrole⟩), ?_⟩
  intro scope hne hmem
  exact hne ((h.listed scope d).mp hmem).2.1.symm

section Listed

variable {g : Graph} {s : LiftState} {id : OpId} {o : Operation} {d : DeclId}

theorem Operation.Plays.isParam {role : Role} (h : o.Plays role) : role.isParam = false := by
  cases role with
  | param _ => exact h.elim
  | _ => rfl

theorem Operation.Plays.kind? {role : Role} (h : o.Plays role) (hdecl : o.isDeclaration = false) :
    o.kind? = some .field := by
  cases role with
  | field _ => exact h
  | param _ => exact h.elim
  | _ =>
      have hk : o.kind? = some _ := h
      simp [isDeclaration, hk] at hdecl

/-- An operation with a declaration introduces it, or is a field of a record. -/
theorem Rostered.declared (h : Rostered g s) (hd : s.opDecl.get? id = some d) :
    ∃ o, g.op? id = some o ∧ (o.isDeclaration = true ∨
      ∃ r q c, g.op? r = some q ∧ q.kind? = some .record ∧ s.opDecl.get? r = some c ∧
        d ∈ s.program.declsIn (.record c)) := by
  obtain ⟨-, o, ho, hplays, hparts⟩ := h.known id d hd
  refine ⟨o, ho, ?_⟩
  cases hdecl : o.isDeclaration with
  | true => exact .inl rfl
  | false =>
      rw [hplays.kind? hdecl] at hparts
      obtain ⟨r, q, hq, hid, hr⟩ := hparts
      obtain ⟨c, hc⟩ := Option.isSome_iff_exists.mp hr
      obtain ⟨-, q', hq', -, hfields⟩ := h.known r c hc
      cases hq.symm.trans hq'
      have hk : q.kind? = some .record := by
        by_contra hne
        simp [Graph.partOps, hne] at hid
      rw [hk] at hfields
      obtain ⟨e, he, hid⟩ := exists_of_map_some hfields hid
      cases hd.symm.trans hid
      exact .inr ⟨r, q, c, hq, hk, hc, he⟩

end Listed

/-! ### The order of declarations -/

/-- The kinds of operations that a file consists of. -/
def Kind.isUnitMember : Kind → Bool
  | .translationUnit | .function | .var | .record | .typeAlias | .enumeration => true
  | _ => false

/-- There are only declarations, types and translation units at the top and in translation units, and
nothing is declared in the initial values of variables there. -/
structure Graph.Orderly (g : Graph) : Prop where
  kinds : ∀ id ∈ g.unitOps, (g.kind? id).any Kind.isUnitMember = true
  inits : ∀ id ∈ g.unitOps, ∀ o r x y, g.op? id = some o → o.kind? = some .var →
    o.regions.head? = some r → x ∈ g.regionOps r → ReflTransGen g.Encloses x y → g.declares y = false

section Order

variable {g : Graph} {s t : LiftState} {id : OpId} {o : Operation}

theorem Graph.Orderly.kind_cases (h : g.Orderly) (hid : id ∈ g.unitOps) (ho : g.op? id = some o) :
    o.kind? = some .translationUnit ∨ o.kind? = some .function ∨ o.kind? = some .var ∨
      o.kind? = some .record ∨ o.kind? = some .typeAlias ∨ o.kind? = some .enumeration := by
  have hkind := h.kinds id hid
  rw [kind?, ho, Option.bind_some] at hkind
  obtain ⟨kind, hk, hmember⟩ := (Option.any_eq_true _ _).mp hkind
  unfold Kind.isUnitMember at hmember
  split at hmember
  · exact .inl hk
  · exact .inr (.inl hk)
  · exact .inr (.inr (.inl hk))
  · exact .inr (.inr (.inr (.inl hk)))
  · exact .inr (.inr (.inr (.inr (.inl hk))))
  · exact .inr (.inr (.inr (.inr (.inr hk))))
  · cases hmember

theorem Graph.Orderly.fileOps_eq (h : g.Orderly) : g.fileOps = g.unitOps := by
  refine walk_congr fun x hx o ho => ?_
  obtain hk | hk | hk | hk | hk | hk := h.kind_cases hx ho <;>
    simp [fileInner, unitInner, Operation.isDeclaration, innerOps, readRegions, heldOps, hk]

/-- What a lift comes to outside of functions stands at the top or in a translation unit, or nothing is
declared there. -/
theorem Graph.Orderly.mem_unitOps (h : g.Orderly) (hform : g.Formed) (hwalked : g.Walked id)
    (haround : g.functionAround? id = none) :
    id ∈ g.unitOps ∨ ∀ y, ReflTransGen g.Encloses id y → g.declares y = false := by
  induction hwalked with
  | top mem => exact .inl (List.mem_flatMap.mpr ⟨_, mem, List.mem_cons_self⟩)
  | @inner outer o r j _ ho hr hj ih =>
      have hinside : g.Encloses outer j := ⟨o, r, ho, g.readRegions_subset o hr, hj⟩
      have hk : o.kind? ≠ some .function := by
        intro hk
        rw [hform.functionAround?_function ho hk hinside] at haround
        cases haround
      rw [hform.functionAround?_through ho hk hinside] at haround
      obtain houter | hnone := ih haround
      · obtain hk' | hk' | hk' | hk' | hk' | hk' := h.kind_cases houter ho
        · refine .inl (hform.mem_walk g.descends_unitInner houter ho ?_)
          rw [unitInner, if_pos hk']
          exact List.mem_flatMap.mpr ⟨r, g.readRegions_subset o hr, hj⟩
        · exact absurd hk' hk
        · refine .inr fun y => h.inits outer houter o r j y ho hk' ?_ hj
          simp only [readRegions, hk', filling?, Option.mem_toList] at hr
          exact (Option.filter_eq_some_iff.mp hr).1
        · simp [readRegions, hk'] at hr
        · simp [readRegions, hk'] at hr
        · simp [readRegions, hk'] at hr
      · exact .inr fun y hy => hnone y (.head hinside hy)

/-- What was declared at file level stands at the top or in a translation unit. -/
theorem Rostered.mem_unitOps {d : DeclId} (hs : Rostered g s) (hform : g.Formed)
    (horderly : g.Orderly) (ho : g.op? id = some o) (hdecl : o.isDeclaration = true)
    (hd : s.opDecl.get? id = some d) (hplace : s.program.roll.place d = .file) : id ∈ g.unitOps := by
  obtain ⟨hwalked, hscope⟩ := hs.place id o d ho hdecl hd
  rw [hplace] at hscope
  have haround : g.functionAround? id = none := by
    cases hf : g.functionAround? id with
    | none => rfl
    | some f =>
        rw [hf] at hscope
        obtain ⟨_, -, hscope⟩ := Option.map_eq_some_iff.mp hscope
        cases hscope
  refine (horderly.mem_unitOps hform hwalked haround).resolve_right fun hnone => ?_
  have hself := hnone id .refl
  rw [Graph.declares_eq ho, hdecl] at hself
  cases hself

/-- What a lift lists at file level. -/
theorem Rostered.topLevel_eq {target : Target} (hg : g.Arranged) (horderly : g.Orderly)
    (hs : Rostered g s) (hpass : Enrols g .file g.fileOps (.start target) t) (hts : t.Enlists s) :
    s.program.topLevel.map some = (g.unitOps.filter g.declares).map s.opDecl.get? := by
  have hnodup : g.fileOps.Nodup := hg.walk_nodup g.descends_fileInner
  have hfresh : (LiftState.start target).Fresh g g.fileOps := fun _ _ _ => rfl
  have hfirst : t.program.topLevel.map some = (g.unitOps.filter g.declares).map t.opDecl.get? := by
    have hlisted := hpass.listed hnodup hfresh
    rw [horderly.fileOps_eq] at hlisted
    exact hlisted
  obtain ⟨more, hmore⟩ := hts.roll.listed .file
  have hsplit : s.program.topLevel = t.program.topLevel ++ more := hmore.symm
  -- What is listed later is declared by an operation of the first phase.
  have hnil : more = [] := by
    refine List.eq_nil_iff_forall_not_mem.mpr fun d hd => ?_
    have hmem : d ∈ s.program.roll.listed .file := hmore ▸ List.mem_append_right _ hd
    obtain ⟨hlt, hplace, hrole⟩ := (hs.enrolled.listed .file d).mp hmem
    obtain ⟨id, hid⟩ := (hs.covered d hlt).resolve_left (by simp [hrole])
    obtain ⟨o, ho, hdecl | ⟨r, q, c, -, -, -, hfield⟩⟩ := hs.declared hid
    · have hunit := hs.mem_unitOps hg.toFormed horderly ho hdecl hid hplace
      have hdeclares : g.declares id = true := by rw [Graph.declares_eq ho, hdecl]
      obtain ⟨c, hc, hc'⟩ := exists_of_map_some hfirst (List.mem_filter.mpr ⟨hunit, hdeclares⟩)
      cases hid.symm.trans (hts.opDecl id c hc')
      have hnodup : (t.program.topLevel ++ more).Nodup := hsplit ▸ hs.enrolled.nodup .file
      exact (List.nodup_append.mp hnodup).2.2 d hc d hd rfl
    · have hrecord := ((hs.enrolled.listed (.record c) d).mp hfield).2.1
      rw [hplace] at hrecord
      cases hrecord
  rw [hsplit, hnil, List.append_nil, hfirst]
  refine List.map_congr_left fun x hx => ?_
  obtain ⟨d, -, hd⟩ := exists_of_map_some hfirst hx
  rw [hd, hts.opDecl x d hd]

end Order

/-! ### The declarations of a lift -/

theorem DeclKind.eq_param {k : DeclKind} {i : Nat} (h : k.role = .param i) :
    ∃ type, k = .param type i := by
  cases k with
  | param type _ =>
      cases h
      exact ⟨type, rfl⟩
  | _ => cases h

theorem DeclKind.eq_field {k : DeclKind} {i : Nat} (h : k.role = .field i) :
    ∃ type, k = .field type i := by
  cases k with
  | field type _ =>
      cases h
      exact ⟨type, rfl⟩
  | _ => cases h

theorem DeclKind.role_of_params {k : DeclKind} {d : DeclId} (h : d ∈ k.params) :
    k.role = .function := by
  cases k with
  | function _ _ _ _ => rfl
  | _ => cases h

/-- The declarations of the program are those of the operations that were lifted, along with the
parameters of functions and the fields of records, and each is listed where it belongs. -/
structure LiftState.Declared (g : Graph) (s : LiftState) : Prop where
  /-- An operation that was lifted has its declaration, which is listed in the function around the
  operation, or in the file, once, and nowhere else. -/
  listed : ∀ id o, g.op? id = some o → o.isDeclaration = true → (s.opStmt.get? id).isSome →
    ∃ d, s.opDecl.get? id = some d ∧ d < s.program.decls.size ∧
      o.Plays (s.program.decl d).kind.role ∧
      s.scopeIn (g.functionAround? id) = some (s.program.decl d).scope ∧
      (s.program.declsIn (s.program.decl d).scope).count d = 1 ∧
      ∀ scope, scope ≠ (s.program.decl d).scope → d ∉ s.program.declsIn scope
  /-- No two operations share a declaration. -/
  apart : ∀ id id' d, s.opDecl.get? id = some d → s.opDecl.get? id' = some d → id = id'
  /-- A function has one parameter for each input of its type. -/
  params : ∀ id o d, g.op? id = some o → o.kind? = some .function → s.opDecl.get? id = some d →
    ∃ inputs, g.inputs? o = some inputs ∧
      (s.program.decl d).kind.params.length = inputs.length ∧
      ∀ i x, (s.program.decl d).kind.params[i]? = some x →
        (∃ type, (s.program.decl x).kind = .param type i) ∧ (s.program.decl x).scope = .function d
  /-- A record has one field for each operation in its region. -/
  fields : ∀ id o d, g.op? id = some o → o.kind? = some .record → s.opDecl.get? id = some d →
    (s.program.decl d).kind.fields.map some = (g.fieldOps o).map s.opDecl.get? ∧
      ∀ i x, (s.program.decl d).kind.fields[i]? = some x →
        (∃ type, (s.program.decl x).kind = .field type i) ∧ (s.program.decl x).scope = .record d
  /-- There are no other declarations. -/
  covered : ∀ d < s.program.decls.size, ∃ id o c, g.op? id = some o ∧ (s.opStmt.get? id).isSome ∧
    s.opDecl.get? id = some c ∧
      (o.isDeclaration = true ∧ d = c ∨
        o.kind? = some .function ∧ d ∈ (s.program.decl c).kind.params ∨
        o.kind? = some .record ∧ d ∈ (s.program.decl c).kind.fields)
  /-- In a file of declarations and types, the declarations of the file come in the order of the
  operations. -/
  ordered : g.Orderly →
    s.program.topLevel.map some = (g.unitOps.filter g.declares).map s.opDecl.get?

section Declared

variable {g : Graph} {s : LiftState} {id : OpId} {o : Operation} {d : DeclId}

theorem Rostered.listed (h : Rostered g s) (ho : g.op? id = some o) (hdecl : o.isDeclaration = true)
    (hd : s.opDecl.get? id = some d) :
    o.Plays (s.program.decl d).kind.role ∧
      s.scopeIn (g.functionAround? id) = some (s.program.decl d).scope ∧
      (s.program.declsIn (s.program.decl d).scope).count d = 1 ∧
      ∀ scope, scope ≠ (s.program.decl d).scope → d ∉ s.program.declsIn scope := by
  obtain ⟨hlt, q, hq, hplays, -⟩ := h.known id d hd
  cases ho.symm.trans hq
  obtain ⟨hcount, hother⟩ := h.enrolled.count_eq_one hlt hplays.isParam
  exact ⟨hplays, (h.place id o d ho hdecl hd).2, hcount, hother⟩

theorem Rostered.params (h : Rostered g s) (ho : g.op? id = some o) (hk : o.kind? = some .function)
    (hd : s.opDecl.get? id = some d) :
    ∃ inputs, g.inputs? o = some inputs ∧
      (s.program.decl d).kind.params.length = inputs.length ∧
      ∀ i x, (s.program.decl d).kind.params[i]? = some x →
        (∃ type, (s.program.decl x).kind = .param type i) ∧
          (s.program.decl x).scope = .function d := by
  obtain ⟨-, q, hq, -, hparts⟩ := h.known id d hd
  cases ho.symm.trans hq
  rw [hk] at hparts
  obtain ⟨inputs, hinputs, hlength⟩ := hparts
  refine ⟨inputs, hinputs, hlength, fun i x hx => ?_⟩
  exact ⟨DeclKind.eq_param (h.enrolled.param d i x hx),
    ((h.enrolled.params d x).mp (List.mem_of_getElem? hx)).2.1⟩

theorem Rostered.fields (h : Rostered g s) (ho : g.op? id = some o) (hk : o.kind? = some .record)
    (hd : s.opDecl.get? id = some d) :
    (s.program.decl d).kind.fields.map some = (g.fieldOps o).map s.opDecl.get? ∧
      ∀ i x, (s.program.decl d).kind.fields[i]? = some x →
        (∃ type, (s.program.decl x).kind = .field type i) ∧
          (s.program.decl x).scope = .record d := by
  obtain ⟨-, q, hq, -, hparts⟩ := h.known id d hd
  cases ho.symm.trans hq
  rw [hk] at hparts
  refine ⟨hparts.trans (by rw [Graph.partOps, if_pos hk]), fun i x hx => ?_⟩
  exact ⟨DeclKind.eq_field (h.enrolled.field d i x hx),
    ((h.enrolled.listed (.record d) x).mp (List.mem_of_getElem? hx)).2.1⟩

theorem Rostered.origin (h : Rostered g s) (hd : d < s.program.decls.size) :
    ∃ id o c, g.op? id = some o ∧ (s.opStmt.get? id).isSome ∧ s.opDecl.get? id = some c ∧
      (o.isDeclaration = true ∧ d = c ∨
        o.kind? = some .function ∧ d ∈ (s.program.decl c).kind.params ∨
        o.kind? = some .record ∧ d ∈ (s.program.decl c).kind.fields) := by
  obtain hparam | ⟨id, hid⟩ := h.covered d hd
  · obtain ⟨f, hf⟩ := h.enrolled.owner d hd hparam
    have hmem : d ∈ (s.program.decl f).kind.params := (h.enrolled.params f d).mpr ⟨hd, hf, hparam⟩
    have hrole : s.program.roll.role f = .function := DeclKind.role_of_params hmem
    have hlt : f < s.program.decls.size := by
      have hhas := h.enrolled.place d hd
      rw [hf] at hhas
      exact hhas
    obtain ⟨id, hid⟩ := (h.covered f hlt).resolve_left (by simp [hrole, Role.isParam])
    obtain ⟨-, o, ho, hplays, -⟩ := h.known id f hid
    rw [hrole] at hplays
    exact ⟨id, o, f, ho, h.entered id f hid, hid, .inr (.inl ⟨hplays, hmem⟩)⟩
  · obtain ⟨o, ho, hdecl | ⟨r, q, c, hq, hk, hc, hfield⟩⟩ := h.declared hid
    · exact ⟨id, o, d, ho, h.entered id d hid, hid, .inl ⟨hdecl, rfl⟩⟩
    · exact ⟨r, q, c, hq, h.entered r c hc, hc, .inr (.inr ⟨hk, hfield⟩)⟩

end Declared

/-- A lift that succeeds neither loses nor doubles a declaration. -/
theorem Graph.Built.lift_declares {g : Graph} (hg : g.Built) (naming : Naming) (c : LiftConfig)
    {s : LiftState} (hlift : g.lift naming c = (.ok (), s)) : s.Declared g := by
  have hrostered : Rostered g s ∧ ∃ t, Enrols g .file g.fileOps (.start c.target) t ∧ t.Enlists s :=
    @Lift.run_enrols ⟨g, naming, c.showOps⟩ s hg.arranged _ (Graph.run_of_lift hlift)
  obtain ⟨hs, t, hpass, hts⟩ := hrostered
  refine ⟨fun id o ho hdecl hlifted => ?_, (Graph.lift_settled hg hlift).decls_inj,
    fun _ _ _ ho hk hd => hs.params ho hk hd, fun _ _ _ ho hk hd => hs.fields ho hk hd,
    fun d hd => hs.origin hd, fun horderly => hs.topLevel_eq hg.arranged horderly hpass hts⟩
  obtain ⟨d, hd⟩ := Option.isSome_iff_exists.mp (hs.noted id o ho hdecl hlifted)
  exact ⟨d, hd, (hs.known id d hd).1, hs.listed ho hdecl hd⟩

/-- A function with a parameter and a variable, and then a translation unit with a record that has two
fields and a variable that has an initial value. -/
def census : Graph :=
  .build .empty
    [.internType (.integer .int none), .internType (.function [0] [0]), .asLvalue 0,
      .createOperation 0 ((OpSpec.ofKind .function).withAttr AttrName.symName (.text "census")
        |>.withAttr AttrName.functionType (.type 1)),
      .createRegion 0, .createBlock 1 [0],
      .createOperation 1 ((OpSpec.ofKind .var).withResults [2]
        |>.withAttr AttrName.symName (.text "inner")),
      .createOperation 1 ((OpSpec.ofKind .returnStmt).withOperands [.argument 1 0]),
      .createOperation 0 (OpSpec.ofKind .translationUnit), .createRegion 3, .createBlock 2 [],
      .createOperation 2 ((OpSpec.ofKind .record).withAttr AttrName.symName (.text "pair")),
      .createRegion 4, .createBlock 3 [],
      .createOperation 3 ((OpSpec.ofKind .field).withAttr AttrName.symName (.text "left")
        |>.withAttr AttrName.type (.type 0)),
      .createOperation 3 ((OpSpec.ofKind .field).withAttr AttrName.symName (.text "right")
        |>.withAttr AttrName.type (.type 0)),
      .createOperation 2 ((OpSpec.ofKind .var).withResults [2]
        |>.withAttr AttrName.symName (.text "outer")),
      .createRegion 7, .createBlock 4 [],
      .createOperation 4 ((OpSpec.ofKind .constant).withResults [0]
        |>.withAttr AttrName.value (.integer 1)),
      .createOperation 4 ((OpSpec.ofKind .valueYield).withOperands [.result 8 0])]

theorem census_orderly : census.Orderly := by
  refine ⟨by decide +kernel, fun id hid o r x y ho hk hr hx hy => ?_⟩
  have hvar : ∀ id ∈ census.unitOps, census.kind? id = some .var → id = 7 := by decide +kernel
  obtain rfl := hvar id hid (by rw [Graph.kind?, ho, Option.bind_some, hk])
  have hregion : (census.op? 7).bind (fun o => o.regions.head?) = some 4 := by decide +kernel
  rw [ho, Option.bind_some, hr] at hregion
  cases hregion
  -- No declaration comes after the first operation of the initial value.
  have hfirst : ∀ x ∈ census.regionOps 4, 8 ≤ x := by decide +kernel
  have hlast : ∀ y < census.operations.size, 8 ≤ y → census.declares y = false := by decide +kernel
  have hle : x ≤ y := by
    obtain rfl | h := reflTransGen_iff_eq_or_transGen.mp hy
    · exact Nat.le_refl _
    · exact Nat.le_of_lt ((Graph.built_build _ _).formed.lt_of_below h)
  by_cases hsize : y < census.operations.size
  · exact hlast y hsize (Nat.le_trans (hfirst x hx) hle)
  · have hnone : census.op? y = none := Array.getElem?_eq_none (Nat.le_of_not_lt hsize)
    rw [Graph.declares, hnone]
    rfl

/-- The variable in the function is declared last, and is not among the declarations of the file. -/
theorem Graph.Built.lift_declares_census :
    census.Built ∧ census.Orderly ∧ ∃ s, census.lift .standard (.forTarget .host) = (.ok (), s) ∧
      s.Declared census ∧ s.program.decls.size = 7 ∧ s.program.topLevel = [0, 2, 5] ∧
      (s.program.decl 0).kind.params = [1] ∧ (s.program.decl 0).kind.locals = [6] ∧
      (s.program.decl 2).kind.fields = [3, 4] ∧
      (census.unitOps.filter census.declares).map s.opDecl.get? = [some 0, some 2, some 5] := by
  have hlift : (census.lift .standard (.forTarget .host)).1 = .ok () := by decide +kernel
  have hs := Graph.lift_eq_of_fst hlift
  exact ⟨built_build _ _, census_orderly, _, hs,
    Graph.Built.lift_declares (built_build _ _) .standard (.forTarget .host) hs, by decide +kernel,
    by decide +kernel, by decide +kernel, by decide +kernel, by decide +kernel, by decide +kernel⟩

end Readback
