import Readback.Proofs.Lift.Alike
import Readback.Proofs.Lift.Termination

/-! # A unit around everything

A translation unit only passes on what stands in it. Putting one around all operations at the top of a
graph changes nothing of what a lift gives but the number of lifted operations (`Graph.Wraps.lift_eq`).

The two lifts go through the same steps. They are compared by a likeness (`wrapping`) under which ids
are alike only if they are equal; the states differ in the entry of the unit and in the count
(`Beside`), and the tasks that wait fill from regions of operations that stand in the graph
(`Task.Held`). The groups of laws that a likeness has to respect are proved one by one
(`Graph.Wraps.mirrors`, `wrapping_recalls`, `wrapping_notes`, `wrapping_exprs`, `wrapping_stmts`,
`wrapping_declares`, `wrapping_fills`) and put together in `Graph.Wraps.respected`. Whole lifts follow:
the first pass (`Graph.Wraps.topLevel_beside`), one task (`Graph.Wraps.task_beside`) and the queue
(`Graph.Wraps.drainAux_beside`).

The conditions are needed (`Graph.Wraps.lift_shows_place`). Names may be chosen by looking at the block
that an operation stands in, and that block changes for the operations at the top. And where a graph
refers to the next region, block or operation, which is not there yet, it refers to those of the unit
once there is one. So the graph has to be intact, as graphs are that were built step by step
(`Graph.Formed.intact`). -/

namespace Readback

open Step Lift

/-! ### States that differ in the unit -/

/-- The state with other entries for the operations and with a higher count of them. -/
def LiftState.shifted (s : LiftState) (entries : Dict OpId (Option StmtId)) (more : Nat) :
    LiftState :=
  { s with opStmt := entries, stats := { s.stats with opsLifted := s.stats.opsLifted + more } }

/-- A task that fills from a region of an operation that stands in the graph. -/
structure Task.Held (g : Graph) (t : Task) : Prop where
  region : g.Holds t.region
  scope (r) : t.scope ≠ .record r

/-- The states are the same save for the entry of the unit, which leaves no statement, and for the
count of operations. -/
structure Beside (g : Graph) (more : Nat) (w : Twin) : Prop where
  shifted : ∃ entries, w.2 = w.1.shifted entries more ∧ (entries.get? g.operations.size).join = none ∧
    ∀ id, id ≠ g.operations.size → entries.get? id = w.1.opStmt.get? id
  noStmt : (w.1.opStmt.get? g.operations.size).join = none
  held : ∀ t ∈ w.1.queue.pending, t.Held g

/-- What stands in one graph gets the same names in the other. -/
def Graph.NamedAlike (g g' : Graph) (naming naming' : Naming) : Prop :=
  ∀ id o o', g.Placed id → g.op? id = some o → g'.op? id = some o' →
    ∀ role i, naming' role o' i = naming role o i

/-- The likeness of a lift and the lift of the graph with a unit around it: everything is the same. -/
def wrapping (env env' : LiftEnv) (more : Nat) : Likeness env env' where
  covers := env.graph.Placed
  strict := True
  atFile := True
  state := Beside env.graph more
  leads _ _ := True
  leads_refl _ := trivial
  leads_trans _ _ := trivial
  type _ := Eq
  expr _ := Eq
  stmt _ := Eq
  decl _ := Eq
  created _ := Eq
  noted _ _ := Eq

section Wrapping

variable {env env' : LiftEnv} {more : Nat} {w : Twin} {α : Type}

theorem wrapping_noted (id : OpId) (d : DeclId) :
    (wrapping env env' more).noted w id d d := rfl

theorem wrapping_typed (step : Check α) :
    (wrapping env env' more).Makes w step step fun _ => Eq := by
  rintro ⟨⟨entries, hshift, hunit, hentries⟩, hstmt, hheld⟩
  obtain ⟨s, s'⟩ := w
  obtain rfl : s' = s.shifted entries more := hshift
  unfold Together typed
  dsimp only [LiftState.shifted]
  cases step s.program with
  | ok a p => exact ⟨⟨⟨entries, rfl, hunit, hentries⟩, hstmt, hheld⟩, trivial, rfl⟩
  | error e p => exact fun _ => rfl

/-- Steps that leave the entries of operations and the queue alone. -/
theorem wrapping_modify {f : LiftState → LiftState} (hf : ∀ s entries more,
      f (s.shifted entries more) = (f s).shifted entries more ∧ (f s).opStmt = s.opStmt ∧
        (f s).queue = s.queue) :
    (wrapping env env' more).Runs w (modify f) (modify f) Likeness.anything := by
  rintro ⟨⟨entries, hshift, hunit, hentries⟩, hstmt, hheld⟩
  obtain ⟨s, s'⟩ := w
  obtain rfl : s' = s.shifted entries more := hshift
  obtain ⟨heq, hsame, hqueue⟩ := hf s entries more
  refine Together.modify ⟨⟨⟨entries, heq, hunit, ?_⟩, ?_, ?_⟩, trivial, trivial⟩
  · exact hsame ▸ hentries
  · exact hsame ▸ hstmt
  · exact hqueue ▸ hheld

theorem wrapping_insert {id : OpId} (hid : id ≠ env.graph.operations.size) (x : Option StmtId)
    {f : LiftState → LiftState}
    (hf : ∀ s entries more, f (s.shifted entries more) = (f s).shifted (entries.insert id x) more ∧
      (f s).opStmt = s.opStmt.insert id x ∧ (f s).queue = s.queue) :
    (wrapping env env' more).Runs w (modify f) (modify f) Likeness.anything := by
  rintro ⟨⟨entries, hshift, hunit, hentries⟩, hstmt, hheld⟩
  obtain ⟨s, s'⟩ := w
  obtain rfl : s' = s.shifted entries more := hshift
  obtain ⟨heq, hsame, hqueue⟩ := hf s entries more
  refine Together.modify ⟨⟨⟨_, heq, ?_, fun i hi => ?_⟩, ?_, hqueue ▸ hheld⟩, trivial, trivial⟩
  · rwa [Dict.get?_insert, if_neg hid]
  · rw [hsame, Dict.get?_insert, Dict.get?_insert, hentries i hi]
  · rw [hsame, Dict.get?_insert, if_neg hid]
    exact hstmt

theorem wrapping_defer {t : Task} (ht : t.Held env.graph) :
    (wrapping env env' more).Runs w (defer t) (defer t) Likeness.anything := by
  rintro ⟨⟨entries, hshift, hunit, hentries⟩, hstmt, hheld⟩
  obtain ⟨s, s'⟩ := w
  obtain rfl : s' = s.shifted entries more := hshift
  refine Together.modify ⟨⟨⟨entries, rfl, hunit, hentries⟩, hstmt, fun u hu => ?_⟩, trivial, trivial⟩
  obtain hu | hu := List.mem_append.mp hu
  · exact hheld u hu
  · exact List.mem_singleton.mp hu ▸ ht

/-! ### Types -/

theorem wrapping_shape (htypes : env'.graph.types = env.graph.types)
    {lift lift' : TypeId → Lift QualType}
    (hlift : ∀ id w, (wrapping env env' more).Runs w (lift id) (lift' id) fun _ => Eq)
    (id : TypeId) (s : Shape) : (wrapping env env' more).Runs w (shape env lift id s)
      (shape env' lift' id s) fun _ => Eq := by
  have same {m m' : Lift QualType} {f f' : QualType → Lift QualType} {v : Twin}
      (hm : (wrapping env env' more).Runs v m m' fun _ => Eq)
      (hf : ∀ t u, (wrapping env env' more).Runs u (f t) (f' t) fun _ => Eq) :
      (wrapping env env' more).Runs v (m >>= f) (m' >>= f') fun _ => Eq :=
    .bind hm fun t _ u _ ht => ht ▸ hf t u
  have named (kind : Builtin) (quals : Quals) (v : Twin) :
      (wrapping env env' more).Runs v (qualified kind quals) (qualified kind quals)
        fun _ => Eq := same (wrapping_typed _) fun _ _ => .pure rfl
  cases s with
  | plain kind quals => exact named _ _ w
  | integer kind quals =>
      refine .get_bind fun hw => ?_
      have htarget : w.2.program.target = w.1.program.target := by
        obtain ⟨_, h, -⟩ := hw.shifted
        rw [h]
        rfl
      change (wrapping env env' more).Runs w
        (qualified (kind.builtin w.1.program.target _) _)
        (qualified (kind.builtin w.2.program.target _) _) fun _ => Eq
      rw [htarget]
      exact named _ _ w
  | pointer element quals =>
      exact same (hlift element w) fun _ _ => same (wrapping_typed _) fun _ _ => .pure rfl
  | array element size quals =>
      exact same (hlift element w) fun _ _ => same (wrapping_typed _) fun _ _ => .pure rfl
  | lvalue element => exact hlift element w
  | function inputs results =>
      have rest (result : QualType) (v : Twin) :
          (wrapping env env' more).Runs v
            (do let params ← inputs.mapM lift; typed (Check.functionType result params false))
            (do let params ← inputs.mapM lift'; typed (Check.functionType result params false))
            fun _ => Eq := by
        refine Likeness.Runs.bind (V := fun _ => List.Forall₂ Eq)
          (.mapM (fun _ h => h) fun x _ u _ => hlift x u) fun ts ts' u _ hts => ?_
        rw [List.forall₂_eq_eq_eq] at hts
        exact hts ▸ wrapping_typed _
      match results with
      | [] => exact same (wrapping_typed _) rest
      | [single] => exact same (hlift single w) rest
      | _ :: _ :: _ => exact same (.throw fun _ => rfl) rest
  | named _ _ => exact .throw fun _ => by rw [htypes]

theorem wrapping_type (htypes : env'.graph.types = env.graph.types) (id : TypeId) :
    (wrapping env env' more).Runs w (type env id) (type env' id) fun _ => Eq := by
  unfold type
  rw [htypes]
  generalize env.graph.types.size = bound
  induction bound generalizing id w with
  | zero =>
      unfold typeAux
      refine .get_bind fun hw => ?_
      obtain ⟨_, h, -⟩ := hw.shifted
      rw [h, htypes]
      dsimp only [LiftState.shifted]
      split
      · exact .pure rfl
      · split
        · exact .throw fun _ => rfl
        · exact .throw fun _ => rfl
        · next h => cases h
  | succ bound ih =>
      unfold typeAux
      refine .get_bind fun hw => ?_
      obtain ⟨_, h, -⟩ := hw.shifted
      rw [h, htypes]
      dsimp only [LiftState.shifted]
      split
      · exact .pure rfl
      · split
        · exact .throw fun _ => rfl
        · next h => cases h
        · next h =>
            cases h
            refine .bind (wrapping_shape htypes (fun id w => ih id) id _) fun t _ u _ ht => ?_
            subst ht
            exact .bind (wrapping_modify fun _ _ _ => ⟨rfl, rfl, rfl⟩) fun _ _ _ _ _ => .pure rfl

end Wrapping

/-! ### What alike states hold -/

section Respected

variable {env env' : LiftEnv} {w : Twin} {g g' : Graph} {more : Nat} {naming naming' : Naming}
  {showOps : Bool}

theorem Beside.entry_eq (hw : Beside g more w) {id : OpId} (hid : id ≠ g.operations.size) :
    w.2.opStmt.get? id = w.1.opStmt.get? id := by
  obtain ⟨entries, hshift, -, hentries⟩ := hw.shifted
  rw [hshift]
  exact hentries id hid

/-- The unit is no expression on either side, and all other operations are the same. -/
theorem Beside.exprOf?_eq (hw : Beside g more w) (id : OpId) :
    w.2.exprOf? id = w.1.exprOf? id := by
  obtain ⟨s, s'⟩ := w
  obtain ⟨entries, hshift, hunit, hentries⟩ := hw.shifted
  obtain rfl : s' = s.shifted entries more := hshift
  have none_of_join {t : LiftState} (ht : (t.opStmt.get? g.operations.size).join = none) :
      t.exprOf? g.operations.size = none := by
    unfold LiftState.exprOf?
    cases he : t.opStmt.get? g.operations.size with
    | none => rfl
    | some x =>
        rw [he] at ht
        obtain rfl : x = none := ht
        rfl
  by_cases hid : id = g.operations.size
  · subst hid
    rw [none_of_join hunit, none_of_join hw.noStmt]
  · have hentry := hentries id hid
    unfold LiftState.exprOf?
    rw [show (s.shifted entries more).opStmt.get? id = _ from hentry]
    rfl

theorem Beside.queue_eq (hw : Beside g more w) : w.2.queue = w.1.queue := by
  obtain ⟨entries, hshift, -⟩ := hw.shifted
  rw [hshift]
  rfl

/-- The queues change in the same way. -/
theorem Beside.with_queue {s s' : LiftState} (h : Beside g more (s, s')) {q : Queue Task}
    (hq : ∀ t ∈ q.pending, t.Held g) :
    Beside g more ({ s with queue := q }, { s' with queue := q }) := by
  obtain ⟨⟨entries, hshift, hunit, hentries⟩, hstmt, -⟩ := h
  obtain rfl : s' = s.shifted entries more := hshift
  exact ⟨⟨entries, rfl, hunit, hentries⟩, hstmt, hq⟩

theorem rel_of_eq {α : Type} {x y : Option α} (h : y = x) : Option.Rel Eq x y := by
  subst h
  cases y with
  | none => exact .none
  | some _ => exact .some rfl

theorem eq_of_rel {α : Type} {x y : Option α} (h : Option.Rel Eq x y) : x = y := by
  cases h with
  | none => rfl
  | some h => rw [h]

theorem eq_of_forall₂ {α : Type} {xs ys : List α} (h : List.Forall₂ Eq xs ys) : xs = ys := by
  rwa [List.forall₂_eq_eq_eq] at h

theorem wrapping_scope {sc sc' : Scope}
    (h : (wrapping env env' more).scope w sc sc') :
    sc = sc' ∧ ∀ r, sc ≠ .record r := by
  match sc, sc', h with
  | .file, .file, _ => exact ⟨rfl, nofun⟩
  | .function f, .function f', ⟨_, hf⟩ => exact ⟨congrArg Scope.function hf, nofun⟩

/-! ### Declaring -/

section Declaring

variable {sc sc' : Scope} {id : OpId} {o o' : Operation} {d d' : DeclId}
  (hsc : (wrapping env env' more).scope w sc sc') (hshares : (wrapping env env' more).Shares id o o')
  (hd : d = d')

include hsc hshares hd

theorem wrapping_list :
    (wrapping env env' more).Runs w (do typed (Check.addDecl sc d); noteDecl o.id d)
      (do typed (Check.addDecl sc' d'); noteDecl o'.id d') fun _ _ _ => d = d' := by
  obtain rfl := (wrapping_scope hsc).1
  subst hd
  obtain ⟨b, rfl⟩ := hshares.alike
  refine .bind (wrapping_typed _) fun _ _ v _ _ => ?_
  refine Likeness.Runs.imp (V := Likeness.anything) (wrapping_modify ?_) fun _ _ _ _ _ => rfl
  exact fun _ _ _ => ⟨rfl, rfl, rfl⟩

theorem wrapping_register :
    (wrapping env env' more).Runs w (registerSymbol sc o d) (registerSymbol sc' o' d')
      Likeness.anything := by
  obtain rfl := (wrapping_scope hsc).1
  subst hd
  obtain ⟨b, rfl⟩ := hshares.alike
  unfold registerSymbol
  refine .ite .rfl (fun _ => ?_) fun _ => .pure trivial
  cases hs : o.symbol? with
  | none =>
      rw [show Operation.symbol? { o with parent := b } = none from hs]
      exact .pure trivial
  | some name =>
      rw [show Operation.symbol? { o with parent := b } = some name from hs]
      exact wrapping_modify fun _ _ _ => ⟨rfl, rfl, rfl⟩

theorem wrapping_filler {r : RegionId} (hr : env.graph.filling? o = some r) :
    (wrapping env env' more).Runs w (defer (o.filler sc d r)) (defer (o.filler sc' d' r))
      Likeness.anything := by
  obtain ⟨rfl, hrecord⟩ := wrapping_scope hsc
  subst hd
  refine wrapping_defer ⟨?_, ?_⟩
  · rw [o.region_filler]
    exact hshares.covers.holds hshares.left (Graph.mem_of_filling? hr)
  · unfold Operation.filler
    split
    · exact nofun
    · exact hrecord

end Declaring

/-! ### Every step -/

theorem wrapping_lasting : (wrapping env env' more).Lasting where
  type_mono _ h := h
  expr_mono _ h := h
  stmt_mono _ h := h
  decl_mono _ h := h
  noted_mono _ h := h

theorem Graph.Wraps.mirrors (h : g.Wraps g') (intact : g.Intact) (acyclic : g.Acyclic)
    (names : g.NamedAlike g' naming naming') :
    (wrapping ⟨g, naming, showOps⟩ ⟨g', naming', showOps⟩ more).Mirrors where
  op hid := h.ops (intact.ops hid)
  types := h.types
  naming hshares := names _ _ _ hshares.covers hshares.left hshares.right
  dump {id o o'} _ hshares := by
    have htext : g'.opText o.id = g.opText o.id := by
      rw [intact.own hshares.covers hshares.left]
      exact h.opText_eq intact acyclic hshares.covers
    obtain ⟨b, rfl⟩ := hshares.alike
    simp only [LiftEnv.dump, htext]
  hasUses hid := h.hasUses_eq (intact.ops hid)
  region hshares hr := by
    have hholds := hshares.covers.holds hshares.left hr
    exact ⟨h.region?_eq intact acyclic hholds, h.regionOps_eq intact acyclic hholds⟩
  inner {_ o _ c} hshares _ _ hc := by
    obtain ⟨r, hr, hc⟩ := List.mem_flatMap.mp hc
    exact hshares.covers.inner ⟨o, r, hshares.left, g.readRegions_subset o hr, hc⟩
  fieldOps {_ o _ c} hshares _ hc := by
    unfold Graph.fieldOps at hc
    cases hr : o.regions.head? with
    | none =>
        rw [hr] at hc
        cases hc
    | some r =>
        rw [hr] at hc
        exact hshares.covers.inner ⟨o, r, hshares.left, List.mem_of_mem_head? hr, hc⟩

theorem wrapping_recalls (intact : env.graph.Intact) : (wrapping env env' more).Recalls where
  lifted {w id} hw hid := by
    have hentry := hw.entry_eq (intact.ops hid)
    generalize w.2.opStmt.get? id = x' at hentry
    subst hentry
    cases w.1.opStmt.get? id with
    | none => exact .none
    | some x => exact .some (rel_of_eq rfl)
  declared := by
    rintro ⟨s, s'⟩ id o o' v ⟨⟨entries, hshift, -⟩, -⟩ - - -
    obtain rfl : s' = s.shifted entries more := hshift
    exact rel_of_eq rfl
  source {w _ _ _ v} hw _ _ _ := by
    refine rel_of_eq ?_
    cases v.definingOp? with
    | none => rfl
    | some id => exact hw.exprOf?_eq id
  argument := by
    rintro ⟨s, s'⟩ id o o' v ⟨⟨entries, hshift, -⟩, -⟩ - - -
    obtain rfl : s' = s.shifted entries more := hshift
    exact rel_of_eq rfl
  symbol := by
    rintro ⟨s, s'⟩ id o o' ⟨⟨entries, hshift, -⟩, -⟩ - - name
    obtain rfl : s' = s.shifted entries more := hshift
    exact rel_of_eq rfl
  asExpr := by
    rintro ⟨s, s'⟩ x x' ⟨⟨entries, hshift, -⟩, -⟩ hx
    obtain rfl : s' = s.shifted entries more := hshift
    obtain rfl : x = x' := hx
    exact rel_of_eq rfl
  exprStmt := by
    rintro ⟨s, s'⟩ e e' ⟨⟨entries, hshift, -⟩, -⟩ he
    obtain rfl : s' = s.shifted entries more := hshift
    obtain rfl : e = e' := he
    rfl

theorem wrapping_notes (intact : env.graph.Intact) : (wrapping env env' more).Notes where
  hit _ := wrapping_modify fun _ _ _ => ⟨rfl, rfl, rfl⟩
  enter {w id x x'} hid hx := by
    obtain rfl := eq_of_rel hx
    refine wrapping_insert (intact.ops hid) x fun s entries more => ⟨?_, rfl, rfl⟩
    simp only [LiftState.recorded, LiftState.shifted]
    rw [Nat.add_right_comm]
  name _ _ _ := wrapping_modify fun _ _ _ => ⟨rfl, rfl, rfl⟩

theorem wrapping_exprs (htypes : env'.graph.types = env.graph.types) :
    (wrapping env env' more).BuildsExprs where
  type _ id := wrapping_type htypes id
  declRef h := h ▸ wrapping_typed _
  integer _ h := h ▸ wrapping_typed _
  floating _ h := h ▸ wrapping_typed _
  text _ _ := wrapping_typed _
  cast _ _ _ ht he := ht ▸ he ▸ wrapping_typed _
  unary _ h := h ▸ wrapping_typed _
  binary _ hl hr := hl ▸ hr ▸ wrapping_typed _
  initList ht hes := by
    obtain rfl := eq_of_forall₂ hes
    exact ht ▸ wrapping_typed _
  call hf hes := by
    obtain rfl := eq_of_forall₂ hes
    exact hf ▸ wrapping_typed _

theorem wrapping_stmts : (wrapping env env' more).BuildsStmts where
  leaf _ _ _ := wrapping_typed _
  declares h := h ▸ wrapping_typed _
  compound hxs := by
    obtain rfl := eq_of_forall₂ hxs
    exact wrapping_typed _
  returns hf he := by
    obtain rfl := eq_of_rel he
    exact hf ▸ wrapping_typed _
  ifElse hc hy hn := by
    obtain rfl := eq_of_rel hn
    exact hc ▸ hy ▸ wrapping_typed _
  whileLoop hc hb := hc ▸ hb ▸ wrapping_typed _
  doLoop hc hb := hc ▸ hb ▸ wrapping_typed _
  forLoop hc hi hb := by
    obtain rfl := eq_of_rel hc
    obtain rfl := eq_of_rel hi
    exact hb ▸ wrapping_typed _

theorem wrapping_declares (intact : env.graph.Intact) : (wrapping env env' more).Declares where
  functionDecl _ hsc ht := (wrapping_scope hsc).1 ▸ ht ▸ wrapping_typed _
  varDecl _ _ hsc ht := (wrapping_scope hsc).1 ▸ ht ▸ wrapping_typed _
  recordDecl _ hsc := (wrapping_scope hsc).1 ▸ wrapping_typed _
  list hsc hshares hd := wrapping_list hsc hshares hd
  register hsc hshares hd := wrapping_register hsc hshares hd
  param _ _ hf ht := hf ▸ ht ▸ wrapping_typed _
  bind _ _ _ hd := hd ▸ wrapping_modify fun _ _ _ => ⟨rfl, rfl, rfl⟩
  setParams hf hps := by
    obtain rfl := eq_of_forall₂ hps
    exact hf ▸ (wrapping_typed _).imp fun _ _ _ _ _ => trivial
  field _ hr ht := hr ▸ ht ▸ wrapping_typed _
  enterField {w id d d'} hid hd := by
    obtain rfl : d = d' := hd
    exact .bind (wrapping_modify fun _ _ _ => ⟨rfl, rfl, rfl⟩) fun _ _ _ _ _ =>
      wrapping_insert (intact.ops hid) none fun _ _ _ => ⟨rfl, rfl, rfl⟩

theorem wrapping_fills : (wrapping env env' more).Fills where
  defer hsc hshares hd hr := wrapping_filler hsc hshares hd hr
  setBody hf hb := hf ▸ hb ▸ (wrapping_typed _).imp fun _ _ _ _ _ => trivial
  setInit hd he := hd ▸ he ▸ (wrapping_typed _).imp fun _ _ _ _ _ => trivial

/-- All steps of the lifts respect their likeness. -/
theorem Graph.Wraps.respected (h : g.Wraps g') (intact : g.Intact) (acyclic : g.Acyclic)
    (names : g.NamedAlike g' naming naming') :
    (wrapping ⟨g, naming, showOps⟩ ⟨g', naming', showOps⟩ more).Respected where
  toLasting := wrapping_lasting
  toMirrors := h.mirrors intact acyclic names
  toRecalls := wrapping_recalls intact
  toNotes := wrapping_notes intact
  toBuildsExprs := wrapping_exprs h.types
  toBuildsStmts := wrapping_stmts
  toDeclares := wrapping_declares intact
  toFills := wrapping_fills

/-! ### Whole lifts -/

variable (h : g.Wraps g')

include h

/-- Lifting the unit is lifting what stands in it. -/
theorem Graph.Wraps.rule_unit (lift : OpLifter) (scope : Scope) :
    rule ⟨g', naming', showOps⟩ lift scope g.operations.size = (do
      g.topLevelOps.forM fun c => do let _ ← lift scope c
      return none) := by
  obtain ⟨o, ho, hk, hregions⟩ := h.added
  have hops : o.regions.flatMap g'.regionOps = g.topLevelOps := by
    rw [hregions, List.flatMap_singleton, h.moved]
  unfold rule operation
  simp only [ho, pure_bind, hk, hops]

variable (intact : g.Intact) (acyclic : g.Acyclic) (names : g.NamedAlike g' naming naming')

include intact acyclic names

/-- The unit in one graph and the operations of the body in the other. -/
theorem Graph.Wraps.topLevel_beside (target : Target) :
    Together (g.topLevelOps.forM fun id => do let _ ← op ⟨g, naming, showOps⟩ .file id)
      (g'.topLevelOps.forM fun id => do let _ ← op ⟨g', naming', showOps⟩ .file id)
      (LiftState.start target) (LiftState.start target)
      (fun _ _ t t' => Beside g 1 (t, t')) Eq := by
  have hL : (wrapping ⟨g, naming, showOps⟩ ⟨g', naming', showOps⟩ 0).Respected :=
    h.respected intact acyclic names
  have hstart : Beside g 0 (LiftState.start target, LiftState.start target) :=
    ⟨⟨.empty, rfl, rfl, fun _ _ => rfl⟩, rfl, nofun⟩
  have hpass : Together (g.topLevelOps.forM fun id => do let _ ← op ⟨g, naming, showOps⟩ .file id)
      (g.topLevelOps.forM fun id => do
        let _ ← opAux ⟨g', naming', showOps⟩ g'.operations.size .file id)
      (LiftState.start target) (LiftState.start target)
      (fun _ _ t t' => Beside g 0 (t, t')) Eq := by
    refine (Likeness.Runs.forM (fun c hc v _ => .bind (Likeness.opAux_lifts hL
      (Graph.placed_of_top hc) (.inl h.size.symm) v .file .file trivial)
      fun _ _ _ _ _ => .pure trivial) hstart).mono (fun _ _ _ _ h => h.1) fun _ _ he => he trivial
  generalize (g.topLevelOps.forM fun id => do
    let _ ← op ⟨g, naming, showOps⟩ .file id) = pass at hpass ⊢
  rw [h.top]
  -- The unit is the only operation at the top, and its rule is what is done without it.
  refine Together.bind_right (P := fun _ _ t t' => Beside g 1 (t, t')) ?_
    fun _ _ _ _ ht => .pure ht
  refine Together.bind_right (P := fun _ _ t t' => Beside g 1 (t, t')) ?_
    fun _ _ _ _ ht => .pure ht
  unfold op opAux
  refine .get_bind_right ?_
  dsimp only
  rw [show (LiftState.start target).opStmt.get? g.operations.size = none from rfl, h.rule_unit]
  refine Together.bind_right (P := fun _ r t t' => r = none ∧ Beside g 0 (t, t')) ?_ ?_
  · exact hpass.bind_right fun _ _ _ _ ht => .pure ⟨rfl, ht⟩
  · rintro _ _ t t' ⟨rfl, ⟨entries, hshift, -, hentries⟩, hstmt, hheld⟩
    obtain rfl : t' = t.shifted entries 0 := hshift
    refine ⟨⟨entries.insert g.operations.size none, rfl, ?_, fun id hid => ?_⟩, hstmt, hheld⟩
    · rw [Dict.get?_insert, if_pos rfl]
      rfl
    · rw [Dict.get?_insert, if_neg (Ne.symm hid), hentries id hid]

/-- A task in one graph and in the other. -/
theorem Graph.Wraps.task_beside {t : Task} (ht : t.Held g) :
    (wrapping ⟨g, naming, showOps⟩ ⟨g', naming', showOps⟩ 1).Runs w
      (Lift.task ⟨g, naming, showOps⟩ t) (Lift.task ⟨g', naming', showOps⟩ t) Likeness.anything := by
  have hL : (wrapping ⟨g, naming, showOps⟩ ⟨g', naming', showOps⟩ 1).Respected :=
    h.respected intact acyclic names
  have hcovered : (wrapping ⟨g, naming, showOps⟩ ⟨g', naming', showOps⟩ 1).Covered
      (op ⟨g, naming, showOps⟩) (op ⟨g', naming', showOps⟩) t.region := by
    refine ⟨h.regionOps_eq intact acyclic ht.region, fun c hc => ht.region.placed hc,
      fun c hc => Likeness.opAux_lifts hL (ht.region.placed hc) (.inr ⟨?_, ?_⟩)⟩
    · exact acyclic.shallow c
    · rw [h.size]
      exact (acyclic.shallow c).succ
  cases t with
  | body f r => exact Likeness.body_runs hL (wrapping_noted 0 f) hcovered
  | init sc d r =>
      refine Likeness.init_runs hL ?_ (wrapping_noted 0 d) hcovered
      cases sc with
      | file => trivial
      | function f => exact ⟨0, rfl⟩
      | record d => exact absurd rfl (ht.scope d)

/-- The tasks that wait, carried out in one graph and in the other. One more round may be allowed in
the other, but it is not needed. -/
theorem Graph.Wraps.drainAux_beside (bound count : Nat) {finished : Nat} {s s' : LiftState}
    (hs : Beside g 1 (s, s')) (hbal : Balanced g finished 0 s)
    (hbound : g.declarers.card ≤ bound + finished) :
    Together (Queue.drainAux (Lift.task ⟨g, naming, showOps⟩) LiftError.unbounded bound count)
      (Queue.drainAux (Lift.task ⟨g', naming', showOps⟩) LiftError.unbounded (bound + 1) count) s s'
      (fun _ _ t t' => Beside g 1 (t, t')) Eq := by
  have hle := hbal.le_card
  have hserved := hbal.served
  induction bound generalizing s s' finished count with
  | zero =>
      unfold Queue.drainAux
      have hqueue : s'.queue = s.queue := hs.queue_eq
      refine .get_bind ?_
      simp only [HasQueue.queue, hqueue]
      cases hq : s.queue.pending with
      | nil => exact .pure hs
      | cons t rest =>
          rw [hq, List.length_cons] at hserved
          omega
  | succ bound ih =>
      unfold Queue.drainAux
      have hqueue : s'.queue = s.queue := hs.queue_eq
      refine .get_bind ?_
      simp only [HasQueue.queue, hqueue]
      cases hq : s.queue.pending with
      | nil => exact .pure hs
      | cons t rest =>
          have hpopped := hs.with_queue (q := { s.queue with pending := rest }) fun t ht =>
            hs.held t (hq ▸ List.mem_cons_of_mem _ ht)
          have hbalance : (balancing g finished 1).Follows []
              (Lift.task ⟨g, naming, showOps⟩ t) := task_balancing acyclic t
          refine Together.bind (.modify (Q := fun _ _ u u' =>
            u = { s with queue := { s.queue with pending := rest } } ∧
              u' = { s' with queue := { s.queue with pending := rest } }) ⟨rfl, ?_⟩) ?_
          · exact congrArg (fun q : Queue Task => { s' with queue := { q with pending := rest } }) hqueue
          rintro _ _ _ _ ⟨rfl, rfl⟩
          refine Together.bind (((h.task_beside intact acyclic names (hs.held t (hq ▸ List.mem_cons_self))
            hpopped).mono (fun _ _ _ _ h => h) fun _ _ he => he trivial).and_outcome
              ((hbalance _).mono (fun _ _ h => h (hbal.pop hq)) fun _ _ _ => trivial)) ?_
          rintro _ _ u u' ⟨⟨hu, -, -⟩, hubal⟩
          refine Together.bind (.modify (Q := fun _ _ x x' =>
            x = { u with queue := u.queue.complete } ∧ x' = { u' with queue := u.queue.complete })
              ⟨rfl, ?_⟩) ?_
          · exact congrArg (fun q : Queue Task => { u' with queue := q.complete }) hu.queue_eq
          rintro _ _ _ _ ⟨rfl, rfl⟩
          have hdone := hubal.complete
          exact ih (count + 1) (hu.with_queue hu.held) hdone (by omega) hdone.le_card hdone.served

/-- The two lifts end alike. -/
theorem Graph.Wraps.run_beside (target : Target) :
    Together (run ⟨g, naming, showOps⟩) (run ⟨g', naming', showOps⟩) (LiftState.start target)
      (LiftState.start target) (fun _ _ t t' => Beside g 1 (t, t')) Eq := by
  refine Together.bind ((h.topLevel_beside intact acyclic names target).and_outcome
    (topLevel_balanced (show (LiftEnv.mk g naming showOps).graph.Acyclic from acyclic) target)) ?_
  rintro _ _ s s' ⟨hs, hbal⟩
  refine Together.bind (drain_together ?_) fun _ _ _ _ ht => .pure ht
  have hcard := g.card_declarers_le
  have hsize : g'.operations.size + s'.queue.size = g.operations.size + s.queue.size + 1 := by
    rw [h.size, show s'.queue = s.queue from hs.queue_eq, Nat.add_right_comm]
  dsimp only
  rw [hsize]
  refine (h.drainAux_beside intact acyclic names _ 0 hs hbal (by omega)).imp fun _ _ t t' ht => ?_
  obtain ⟨⟨entries, hshift, hunit, hentries⟩, hstmt, hheld⟩ := ht
  obtain rfl : t' = t.shifted entries 1 := hshift
  exact ⟨⟨entries, rfl, hunit, hentries⟩, hstmt, hheld⟩

end Respected

/-- Putting a translation unit around everything is not seen in what a lift gives. Where no operation
contains itself, what stands in the graph refers to nothing that is missing, and the names are chosen
alike, the lift fails with the same failure, or it gives the same program, node by node, and the same
counts, but for one operation more. -/
theorem Graph.Wraps.lift_eq {g g' : Graph} (h : g.Wraps g') (intact : g.Intact) (acyclic : g.Acyclic)
    {naming naming' : Naming} (names : g.NamedAlike g' naming naming') (c : LiftConfig) :
    (g'.lift naming' c).1 = (g.lift naming c).1 ∧
      ((g.lift naming c).1 = .ok () →
        (g'.lift naming' c).2.program = (g.lift naming c).2.program ∧
        (g'.lift naming' c).2.stats =
          { (g.lift naming c).2.stats with opsLifted := (g.lift naming c).2.stats.opsLifted + 1 }) := by
  have hrun : Together (run ⟨g, naming, c.showOps⟩) (run ⟨g', naming', c.showOps⟩)
      (LiftState.start c.target) (LiftState.start c.target)
      (fun _ _ t t' => Beside g 1 (t, t')) Eq := h.run_beside intact acyclic names c.target
  unfold Together at hrun
  unfold Graph.lift
  cases hl : run ⟨g, naming, c.showOps⟩ (LiftState.start c.target) <;>
    cases hr : run ⟨g', naming', c.showOps⟩ (LiftState.start c.target) <;>
    rw [hl, hr] at hrun
  · next t _ t' =>
      obtain ⟨entries, hshift, -⟩ := hrun.shifted
      obtain rfl : t' = t.shifted entries 1 := hshift
      exact ⟨rfl, fun _ => ⟨rfl, rfl⟩⟩
  · exact hrun.elim
  · exact hrun.elim
  · exact ⟨by rw [hrun], nofun⟩

/-- The standard names do not depend on where an operation stands. -/
theorem Naming.standard_alike {o o' : Operation} (h : o.Alike o') (role : NameRole) (i : Nat) :
    standard role o' i = standard role o i := by
  obtain ⟨b, rfl⟩ := h
  cases role <;> rfl

theorem Graph.Wraps.named_standard {g g' : Graph} (h : g.Wraps g') (intact : g.Intact) :
    g.NamedAlike g' .standard .standard := by
  intro id o o' hid ho ho'
  have hop := h.ops (intact.ops hid)
  rw [ho, ho'] at hop
  cases hop with
  | some halike => exact Naming.standard_alike halike

theorem wraps_seeded : seeded.Wraps (seeded.wrapped ⟨Kind.translationUnit.name, none⟩) :=
  Graph.wraps_wrapped (R := ⟨0, none, [0]⟩) (b := 0) (B := ⟨0, 0, [], [0, 5]⟩) (by decide +kernel) rfl
    (by decide +kernel) (by decide +kernel)

/-- A function with a variable in it and a bare variable, with a unit around both: one operation more
is lifted. -/
theorem Graph.Wraps.lift_eq_seeded :
    seeded.Wraps (seeded.wrapped ⟨Kind.translationUnit.name, none⟩) ∧ seeded.Intact ∧ seeded.Acyclic ∧
      seeded.NamedAlike (seeded.wrapped ⟨Kind.translationUnit.name, none⟩) .standard .standard ∧
      ((seeded.wrapped ⟨Kind.translationUnit.name, none⟩).lift .standard (.forTarget .host)).1 = .ok () ∧
      ((seeded.wrapped ⟨Kind.translationUnit.name, none⟩).lift .standard (.forTarget .host)).2.program =
        (seeded.lift .standard (.forTarget .host)).2.program ∧
      ((seeded.wrapped ⟨Kind.translationUnit.name, none⟩).lift .standard
        (.forTarget .host)).2.stats.opsLifted = 7 := by
  have hbuilt : seeded.WellBuilt := wellBuilt_build (by decide +kernel)
  have hform := hbuilt.built.formed
  have names := wraps_seeded.named_standard hform.intact
  obtain ⟨hsame, hprogram⟩ := wraps_seeded.lift_eq hform.intact hform.acyclic names (.forTarget .host)
  have hok : (seeded.lift .standard (.forTarget .host)).1 = .ok () := by decide +kernel
  have hcount : (seeded.lift .standard (.forTarget .host)).2.stats.opsLifted = 6 := by
    decide +kernel
  obtain ⟨hprogram, hstats⟩ := hprogram hok
  exact ⟨wraps_seeded, hform.intact, hform.acyclic, names, hsame.trans hok, hprogram,
    by rw [hstats, hcount]⟩

/-! ### Where the unit is seen -/

/-- The standard names, each with the block that the operation stands in. -/
def Naming.placed : Naming := fun role o i =>
  standard role o i ++ "_in_" ++ toString (o.parent.getD 0)

/-- A graph with one operation at the top, and with further regions and blocks. -/
def lone (o : Operation) (regions : Array Region) (blocks : Array Block) : Graph :=
  { Graph.build .empty [.internType (.integer .int none), .internType (.function [] [0])] with
    operations := #[o], regions := #[⟨0, none, [0]⟩] ++ regions,
    blocks := #[⟨0, 0, [], [0]⟩] ++ blocks, body := 0 }

/-- Where nothing stands in operations but what is missing, none contains itself. -/
theorem Graph.acyclic_of_missing {g : Graph}
    (h : ∀ o ∈ g.operations.toList, ∀ r ∈ o.regions, ∀ c ∈ g.regionOps r, g.op? c = none) :
    g.Acyclic := by
  have missing {id c : OpId} (henc : g.Encloses id c) : g.op? c = none := by
    obtain ⟨o, r, ho, hr, hc⟩ := henc
    exact h o (Array.mem_toList_iff.mpr (Array.mem_of_getElem? ho)) r hr c hc
  have there {id c : OpId} (henc : g.Encloses id c) : g.op? id ≠ none := by
    obtain ⟨o, r, ho, -⟩ := henc
    simp [ho]
  intro id hid
  obtain ⟨c, hc, hrest⟩ := Relation.TransGen.head'_iff.mp hid
  obtain rfl | ⟨d, hd, -⟩ := hrest.cases_head
  · exact there hc (missing hc)
  · exact there hd (missing hc)

theorem lone_wraps (o : Operation) (regions : Array Region) (blocks : Array Block) :
    (lone o regions blocks).Wraps
      ((lone o regions blocks).wrapped ⟨Kind.translationUnit.name, none⟩) :=
  Graph.wraps_wrapped (R := ⟨0, none, [0]⟩) (b := 0) (B := ⟨0, 0, [], [0]⟩)
    (by simp [lone, Graph.region?]) rfl (by simp [lone, Graph.block?]) (by decide +kernel)

/-- A function, with what there is of its region. -/
def loneFunction (regions : Array Region) (blocks : Array Block) : Graph :=
  lone ⟨0, ⟨Kind.function.name, none⟩, [], [], [1],
    (Dict.empty.insert AttrName.functionType (.type 1)).insert AttrName.symName (.text "f"), some 0⟩
    regions blocks

/-- A function whose region is not there. -/
def bodiless : Graph := loneFunction #[] #[]

/-- A function whose block is not there. -/
def blockless : Graph := loneFunction #[⟨1, some 0, [1]⟩] #[]

/-- A function in which an operation stands that is not there. -/
def opless : Graph := loneFunction #[⟨1, some 0, [1]⟩] #[⟨1, 1, [], [1]⟩]

/-- An operation without a rule, which says that it is the next one. -/
def misnumbered : Graph := lone ⟨1, ⟨"stray", none⟩, [], [], [], .empty, some 0⟩ #[] #[]

/-- The conditions are needed. A naming that tells the block of an operation gives other names under
the unit. What refers to the next region, block or operation refers to those of the unit once there is
one: a function that was only declared gets a body, one whose body was empty meets itself in it, and
one that could not be lifted for what is missing in it is lifted. And the failure at an operation that
carries the next id lists the unit. -/
theorem Graph.Wraps.lift_shows_place :
    (let g := seeded
      let g' := g.wrapped ⟨Kind.translationUnit.name, none⟩
      g.Wraps g' ∧ g.Intact ∧ g.Acyclic ∧ (g.lift .placed (.forTarget .host)).1 = .ok () ∧
        (g'.lift .placed (.forTarget .host)).1 = .ok () ∧
        (g'.lift .placed (.forTarget .host)).2.program ≠ (g.lift .placed (.forTarget .host)).2.program) ∧
    (let g := bodiless
      let g' := g.wrapped ⟨Kind.translationUnit.name, none⟩
      g.Wraps g' ∧ g.Acyclic ∧ (g.lift .standard (.forTarget .host)).1 = .ok () ∧
        (g'.lift .standard (.forTarget .host)).1 = .ok () ∧
        (g'.lift .standard (.forTarget .host)).2.program ≠
          (g.lift .standard (.forTarget .host)).2.program) ∧
    (let g := blockless
      let g' := g.wrapped ⟨Kind.translationUnit.name, none⟩
      g.Wraps g' ∧ g.Acyclic ∧ (g.lift .standard (.forTarget .host)).1 = .ok () ∧
        (g'.lift .standard (.forTarget .host)).1 = .ok () ∧
        (g'.lift .standard (.forTarget .host)).2.stats.memoHits ≠
          (g.lift .standard (.forTarget .host)).2.stats.memoHits) ∧
    (let g := opless
      let g' := g.wrapped ⟨Kind.translationUnit.name, none⟩
      g.Wraps g' ∧ g.Acyclic ∧ (g'.lift .standard (.forTarget .host)).1 = .ok () ∧
        (g.lift .standard (.forTarget .host)).1 ≠ .ok ()) ∧
    (let g := misnumbered
      let g' := g.wrapped ⟨Kind.translationUnit.name, none⟩
      g.Wraps g' ∧ g.Acyclic ∧
        (g'.lift .standard (.forTarget .host)).1 ≠ (g.lift .standard (.forTarget .host)).1) := by
  have hbuilt : seeded.WellBuilt := wellBuilt_build (by decide +kernel)
  have hform := hbuilt.built.formed
  have first_name {p q : Program} (h : p.decls[0]?.map Decl.name ≠ q.decls[0]?.map Decl.name) : p ≠ q :=
    fun heq => h (heq ▸ rfl)
  have stmts {p q : Program} (h : p.stmts.size ≠ q.stmts.size) : p ≠ q := fun heq => h (heq ▸ rfl)
  refine ⟨⟨wraps_seeded, hform.intact, hform.acyclic, ?_, ?_, first_name ?_⟩,
    ⟨lone_wraps .., acyclic_of_missing ?_, ?_, ?_, stmts ?_⟩,
    ⟨lone_wraps .., acyclic_of_missing ?_, ?_, ?_, ?_⟩,
    ⟨lone_wraps .., acyclic_of_missing ?_, ?_, ?_⟩, ⟨lone_wraps .., acyclic_of_missing ?_, ?_⟩⟩
  all_goals decide +kernel

end Readback
