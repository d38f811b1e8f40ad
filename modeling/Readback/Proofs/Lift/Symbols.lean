import Readback.Graph.Builder
import Readback.Proofs.Lift.Memo

/-! # Symbols

A lift has two phases so that a body can refer to a declaration that comes after it. When the first one
is over, every symbol stands for the declaration of the last function or variable with this symbol at
file level, and no symbol is ever lost after that.

* `Graph.AtFileLevel` says which operations are at file level: those at the top, and those in an
  operation at file level that declares nothing. `Graph.fileOps` lists them in the order in which a lift
  comes to them (`Formed.mem_fileOps`). Translation units are among the operations that declare nothing,
  so what stands in them is at file level, but so is what stands in a scope (`Graph.unitOps` leaves that
  out).
* `Graph.lastNamed?` is the last operation of a list with a symbol. `Named` says what lifting a list of
  operations does: other operations keep their entries, and if none of the list was lifted before, each
  symbol stands for the last of them that has it. It is kept when two lists are lifted one after the
  other (`Named.append`) and when an operation is lifted along with those in it (`Named.cons`).
* `Lift.pass` is the first phase. It names the operations at file level (`Lift.pass_named`); that all of
  them are declared then is `Lift.pass_noted`.
* `keeping` is the account of runs that lose no symbol, and fail for unknown ones only. Tasks are
  such runs (`Lift.drainAux_keeping`).

The main result is `Graph.Built.symbols_resolve`: in a graph that was built step by step, no body and no
initial value fails for a symbol that some function or variable at file level has, whether it stands
before or after. In `ahead` a function is called before it is declared. `Graph.lift_shades_function`
shows that the condition is about file level and not about the top: in `shaded`, a variable in a scope
takes the symbol from a function. -/

namespace Readback

open Step LiftState

namespace Graph

/-! ### The operations at file level -/

/-- The operations that a lift comes to from an operation at file level. What stands in a function or
a variable is put off, and what stands in a record is no declaration of the file. -/
def fileInner (g : Graph) (o : Operation) : List OpId := if o.isDeclaration then [] else g.innerOps o

/-- The operations at file level, in the order in which a lift comes to them. -/
def fileOps (g : Graph) : List OpId := g.walk g.fileInner

/-- The operations that stand in a translation unit. -/
def unitInner (g : Graph) (o : Operation) : List OpId :=
  if o.kind? = some .translationUnit then g.heldOps o else []

/-- The operations at the top and in translation units, in the order of the walk. -/
def unitOps (g : Graph) : List OpId := g.walk g.unitInner

/-- The operation stands at the top, or in an operation at file level that declares nothing. -/
inductive AtFileLevel (g : Graph) : OpId → Prop where
  | top {id} (mem : id ∈ g.topLevelOps) : AtFileLevel g id
  | inner {outer o id} (level : AtFileLevel g outer) (op : g.op? outer = some o)
      (opens : o.isDeclaration = false) (mem : id ∈ g.innerOps o) : AtFileLevel g id

section FileLevel

variable {g : Graph}

theorem descends_fileInner (g : Graph) : g.Descends g.fileInner := by
  intro o
  unfold fileInner
  split
  · exact List.nil_sublist _
  · exact (g.readRegions_sublist o).flatMap g.regionOps

theorem descends_unitInner (g : Graph) : g.Descends g.unitInner := by
  intro o
  unfold unitInner
  split
  · exact .refl _
  · exact List.nil_sublist _

/-- Everything at file level is listed, and nothing else. -/
theorem Formed.mem_fileOps (hform : g.Formed) {id : OpId} : id ∈ g.fileOps ↔ g.AtFileLevel id := by
  constructor
  · intro hid
    refine walk_induction (fun _ => .top) (fun x o c hx ho hc => ?_) hid
    unfold fileInner at hc
    split at hc
    · cases hc
    · next hopens => exact .inner hx ho (Bool.eq_false_of_not_eq_true hopens) hc
  · intro h
    induction h with
    | top mem => exact List.mem_flatMap.mpr ⟨_, mem, List.mem_cons_self⟩
    | inner _ op opens mem ih =>
        refine hform.mem_walk g.descends_fileInner ih op ?_
        rw [fileInner, opens]
        exact mem

/-- The operations in translation units are at file level. -/
theorem atFileLevel_of_unit {id : OpId} (h : id ∈ g.unitOps) : g.AtFileLevel id := by
  refine walk_induction (fun _ => .top) (fun x o c hx ho hc => ?_) h
  unfold unitInner at hc
  split at hc
  · next hk =>
      refine .inner hx ho (by simp [Operation.isDeclaration, hk]) ?_
      simpa [heldOps, innerOps, readRegions, hk] using hc
  · cases hc

theorem walkAux_field {n : Nat} {id : OpId} (hk : g.kind? id = some .field) :
    g.walkAux g.fileInner (n + 1) id = [id] := by
  obtain ⟨o, ho, hkind⟩ := Option.bind_eq_some_iff.mp hk
  refine walkAux_leaf ho ?_
  simp [fileInner, Operation.isDeclaration, innerOps, readRegions, hkind]

end FileLevel

/-! ### The last operation with a symbol -/

/-- The symbol of a function or a variable. -/
def symbolOf? (g : Graph) (id : OpId) : Option String :=
  (g.op? id).bind fun o =>
    if o.kind? = some .function ∨ o.kind? = some .var then o.symbol? else none

/-- The last function or variable of the list that has the symbol. -/
def lastNamed? (g : Graph) (l : List OpId) (name : String) : Option OpId :=
  (l.filter fun id => g.symbolOf? id = some name).getLast?

section LastNamed

variable {g : Graph} {l : List OpId} {name : String} {id : OpId}

theorem lastNamed?_append (a b : List OpId) :
    g.lastNamed? (a ++ b) name = (g.lastNamed? b name).or (g.lastNamed? a name) := by
  rw [lastNamed?, List.filter_append, List.getLast?_append]
  rfl

theorem lastNamed?_cons (h : g.symbolOf? id = none) :
    g.lastNamed? (id :: l) name = g.lastNamed? l name := by
  rw [lastNamed?, List.filter_cons_of_neg (by simp [h])]
  rfl

theorem of_lastNamed? (h : g.lastNamed? l name = some id) :
    id ∈ l ∧ g.symbolOf? id = some name := by
  simpa using List.mem_of_getLast? h

theorem lastNamed?_isSome (hmem : id ∈ l) (hname : g.symbolOf? id = some name) :
    ∃ last, g.lastNamed? l name = some last := by
  have hid : id ∈ l.filter fun id => g.symbolOf? id = some name := by simp [hmem, hname]
  exact ⟨_, List.getLast?_eq_some_getLast (List.ne_nil_of_mem hid)⟩

theorem kind?_of_symbolOf? (h : g.symbolOf? id = some name) : g.kind? id ≠ some .field := by
  intro hk
  obtain ⟨o, ho, hsymbol⟩ := Option.bind_eq_some_iff.mp h
  have hkind : o.kind? = some .field := by simpa [kind?, ho] using hk
  simp [hkind] at hsymbol

end LastNamed

end Graph

/-! ### What the first pass does to the symbols -/

/-- None of the operations was lifted by a rule. -/
def LiftState.Fresh (g : Graph) (l : List OpId) (s : LiftState) : Prop :=
  ∀ x ∈ l, g.kind? x ≠ some .field → s.opStmt.get? x = none

/-- What lifting the operations of the list at file level does: entries of other operations stay, and
if none of the list was lifted before, each symbol stands for the last of them that has it, and all that
have one are declared. -/
structure Named (g : Graph) (l : List OpId) (s t : LiftState) : Prop where
  kept : ∀ x, x ∉ l → g.kind? x ≠ some .field →
    t.opStmt.get? x = s.opStmt.get? x ∧ t.opDecl.get? x = s.opDecl.get? x
  last : l.Nodup → s.Fresh g l → ∀ name id, g.lastNamed? l name = some id →
    ∃ d, t.opDecl.get? id = some d ∧ t.symbols.get? name = some d
  other : l.Nodup → s.Fresh g l → ∀ name, g.lastNamed? l name = none →
    t.symbols.get? name = s.symbols.get? name
  noted : l.Nodup → s.Fresh g l → ∀ id ∈ l, ∀ name, g.symbolOf? id = some name →
    ∃ d, t.opDecl.get? id = some d

section Named

variable {g : Graph} {s t u : LiftState} {l a b : List OpId} {id : OpId}

theorem LiftState.Fresh.subset (h : s.Fresh g b) (hab : a ⊆ b) : s.Fresh g a :=
  fun x hx => h x (hab hx)

/-- What comes later in a list is still new after a run over what comes first. -/
theorem LiftState.Fresh.later (h : s.Fresh g (a ++ b)) (hdisjoint : ∀ x ∈ a, ∀ y ∈ b, x ≠ y)
    (kept : ∀ x, x ∉ a → g.kind? x ≠ some .field → t.opStmt.get? x = s.opStmt.get? x) :
    t.Fresh g b := by
  intro x hx hk
  rw [kept x (fun hxa => hdisjoint x hxa x hx rfl) hk]
  exact h x (List.mem_append_right a hx) hk

/-- A run that leaves the symbols alone has named the operations of a list without symbols. -/
theorem named_of_symbols (hnone : ∀ x ∈ l, g.symbolOf? x = none) (hsymbols : t.symbols = s.symbols)
    (kept : ∀ x, x ∉ l → g.kind? x ≠ some .field →
      t.opStmt.get? x = s.opStmt.get? x ∧ t.opDecl.get? x = s.opDecl.get? x) : Named g l s t := by
  have nameless {id : OpId} {name : String} (hmem : id ∈ l) : g.symbolOf? id ≠ some name := by
    rw [hnone id hmem]
    nofun
  refine ⟨kept, fun _ _ name id hlast => ?_, fun _ _ name _ => by rw [hsymbols],
    fun _ _ id hmem name hname => absurd hname (nameless hmem)⟩
  obtain ⟨hmem, hname⟩ := Graph.of_lastNamed? hlast
  exact absurd hname (nameless hmem)

theorem named_of_tables (h : Same LiftState.tables s t) : Named g [] s t := by
  refine named_of_symbols nofun (congrArg Tables.symbols h) fun x _ _ => ?_
  have hstmt : t.opStmt = s.opStmt := congrArg Tables.opStmt h
  have hdecl : t.opDecl = s.opDecl := congrArg Tables.opDecl h
  rw [hstmt, hdecl]
  exact ⟨rfl, rfl⟩

/-- Coming to an operation again. Only for fields can this happen in a list of new operations. -/
theorem named_of_entered {r : Option StmtId} (hs : s.opStmt.get? id = some r) (hid : id ∈ l)
    (hfield : g.kind? id = some .field → l = [id]) (h : Same LiftState.tables s t) :
    Named g l s t := by
  have kept : ∀ x, x ∉ l → g.kind? x ≠ some .field →
      t.opStmt.get? x = s.opStmt.get? x ∧ t.opDecl.get? x = s.opDecl.get? x := fun x _ =>
    (named_of_tables h).kept x List.not_mem_nil
  by_cases hk : g.kind? id = some .field
  · refine named_of_symbols (fun x hx => ?_) (congrArg Tables.symbols h) kept
    rw [hfield hk, List.mem_singleton] at hx
    subst hx
    by_contra hsome
    obtain ⟨name, hname⟩ := Option.ne_none_iff_exists'.mp hsome
    exact Graph.kind?_of_symbolOf? hname hk
  · have hold : ¬ s.Fresh g l := by
      intro hfresh
      rw [hfresh id hid hk] at hs
      cases hs
    exact ⟨kept, fun _ hfresh => absurd hfresh hold, fun _ hfresh => absurd hfresh hold,
      fun _ hfresh => absurd hfresh hold⟩

theorem Named.append (hst : Named g a s t) (htu : Named g b t u) : Named g (a ++ b) s u := by
  refine ⟨fun x hx hk => ?_, fun hnodup hfresh name id hlast => ?_, fun hnodup hfresh name hnone => ?_,
    fun hnodup hfresh id hmem name hname => ?_⟩
  · rw [List.mem_append, not_or] at hx
    obtain ⟨h₁, h₂⟩ := hst.kept x hx.1 hk
    obtain ⟨h₃, h₄⟩ := htu.kept x hx.2 hk
    exact ⟨h₃.trans h₁, h₄.trans h₂⟩
  all_goals
    obtain ⟨hna, hnb, hdisjoint⟩ := List.nodup_append.mp hnodup
    have hfa : s.Fresh g a := hfresh.subset (List.subset_append_left a b)
    have hfb : t.Fresh g b := hfresh.later hdisjoint fun x hx hk => (hst.kept x hx hk).1
  · rw [Graph.lastNamed?_append] at hlast
    cases hb : g.lastNamed? b name with
    | some j =>
        rw [hb, Option.some_or] at hlast
        cases hlast
        exact htu.last hnb hfb name id hb
    | none =>
        rw [hb, Option.none_or] at hlast
        obtain ⟨d, hd, hsymbol⟩ := hst.last hna hfa name id hlast
        obtain ⟨hmem, hname⟩ := Graph.of_lastNamed? hlast
        have hid : id ∉ b := fun hidb => hdisjoint id hmem id hidb rfl
        refine ⟨d, ?_, ?_⟩
        · rw [(htu.kept id hid (Graph.kind?_of_symbolOf? hname)).2]
          exact hd
        · rw [htu.other hnb hfb name hb]
          exact hsymbol
  · rw [Graph.lastNamed?_append] at hnone
    obtain ⟨hb, ha⟩ := Option.or_eq_none_iff.mp hnone
    rw [htu.other hnb hfb name hb, hst.other hna hfa name ha]
  · obtain hida | hidb := List.mem_append.mp hmem
    · have hid : id ∉ b := fun hidb => hdisjoint id hida id hidb rfl
      rw [(htu.kept id hid (Graph.kind?_of_symbolOf? hname)).2]
      exact hst.noted hna hfa id hida name hname
    · exact htu.noted hnb hfb id hidb name hname

/-- An operation without a symbol, along with those in it. -/
theorem Named.cons (h : Named g l s t) (hid : g.symbolOf? id = none) : Named g (id :: l) s t := by
  have hsub : l ⊆ id :: l := List.subset_cons_self id l
  refine ⟨fun x hx => h.kept x fun hmem => hx (hsub hmem), fun hnodup hfresh name x hlast => ?_,
    fun hnodup hfresh name hnone => ?_, fun hnodup hfresh x hmem name hname => ?_⟩
  · rw [Graph.lastNamed?_cons hid] at hlast
    exact h.last (List.nodup_cons.mp hnodup).2 (hfresh.subset hsub) name x hlast
  · rw [Graph.lastNamed?_cons hid] at hnone
    exact h.other (List.nodup_cons.mp hnodup).2 (hfresh.subset hsub) name hnone
  · obtain rfl | hmem := List.mem_cons.mp hmem
    · rw [hid] at hname
      cases hname
    · exact h.noted (List.nodup_cons.mp hnodup).2 (hfresh.subset hsub) x hmem name hname

theorem Named.recorded (h : Named g l s t) (hid : id ∈ l) (r : Option StmtId) :
    Named g l s (t.recorded id r) := by
  refine ⟨fun x hx hk => ⟨?_, (h.kept x hx hk).2⟩, h.last, h.other, h.noted⟩
  have hne : id ≠ x := by
    rintro rfl
    exact hx hid
  exact ((Dict.get?_insert ..).trans (if_neg hne)).trans (h.kept x hx hk).1

/-- A function or a variable that was declared at file level. -/
theorem named_of_noted {o : Operation} {d : DeclId} {task : Option Task} (ho : g.op? o.id = some o)
    (hk : o.kind? = some .function ∨ o.kind? = some .var)
    (ht : t.tables = (s.tables.noted .file o d).deferring task) : Named g [o.id] s t := by
  have hstmt : t.opStmt = s.opStmt := (congrArg Tables.opStmt ht).trans (Tables.deferring_opStmt ..)
  have hdecl : t.opDecl = s.opDecl.insert o.id d :=
    (congrArg Tables.opDecl ht).trans (by rw [Tables.deferring_opDecl]; rfl)
  have hsymbols : t.symbols = o.symbol?.elim s.symbols fun name => s.symbols.insert name d :=
    (congrArg Tables.symbols ht).trans (by rw [Tables.deferring_symbols]; rfl)
  have hsymbol : g.symbolOf? o.id = o.symbol? := by
    rw [Graph.symbolOf?, ho, Option.bind_some, if_pos hk]
  refine ⟨fun x hx _ => ?_, fun _ _ name id hlast => ?_, fun _ _ name hnone => ?_,
    fun _ _ id hmem _ _ => ?_⟩
  · rw [hstmt, hdecl, Dict.get?_insert, if_neg (Ne.symm (List.ne_of_not_mem_cons hx))]
    exact ⟨rfl, rfl⟩
  · obtain ⟨hmem, hname⟩ := Graph.of_lastNamed? hlast
    cases List.mem_singleton.mp hmem
    rw [hsymbol] at hname
    refine ⟨d, ?_, ?_⟩
    · rw [hdecl, Dict.get?_insert, if_pos rfl]
    · rw [hsymbols, hname, Option.elim_some, Dict.get?_insert, if_pos rfl]
  · rw [hsymbols]
    cases hname : o.symbol? with
    | none => rfl
    | some name' =>
        have hne : name' ≠ name := by
          rintro rfl
          obtain ⟨last, hlast⟩ :=
            Graph.lastNamed?_isSome (List.mem_singleton_self o.id) (hsymbol.trans hname)
          rw [hlast] at hnone
          cases hnone
        rw [Option.elim_some, Dict.get?_insert, if_neg hne]
  · cases List.mem_singleton.mp hmem
    exact ⟨d, by rw [hdecl, Dict.get?_insert, if_pos rfl]⟩

end Named

/-- The account of runs at file level. -/
def registering (g : Graph) : Account g where
  done := Named g
  failed _ _ _ := True
  idle h := named_of_tables (tables_of_records h)
  append := Named.append
  fails _ _ := trivial
  later _ _ := trivial

namespace Lift

section Pass

variable {env : LiftEnv} {id : OpId} {o : Operation}

/-- The rule for a declaration at file level names it. -/
theorem rule_registers {lift : OpLifter} (hform : env.graph.Formed) (ho : env.graph.op? id = some o)
    (hdecl : o.isDeclaration = true) :
    (registering env.graph).Follows [id] (rule env lift .file id) := by
  obtain rfl := hform.op_id id o ho
  have hdeclares {α : Type} {m : Lift α} (hk : o.kind? = some .function ∨ o.kind? = some .var)
      (hm : Declares env .file o m) : (registering env.graph).Follows [o.id] m := fun s =>
    (hm s).mono (fun _ _ ⟨_, _, _, ht⟩ => named_of_noted ho hk ht) fun _ _ _ => trivial
  have hrecord (hk : o.kind? = some .record) :
      (registering env.graph).Follows [o.id] (record env .file o) := by
    have hnone : env.graph.symbolOf? o.id = none := by simp [Graph.symbolOf?, ho, hk]
    refine record_follows named_of_tables (fun d s => ?_) fun id d s hfield => ?_
    · refine named_of_symbols (by simpa using hnone) rfl fun x hx _ => ⟨rfl, ?_⟩
      exact (Dict.get?_insert ..).trans (if_neg (Ne.symm (List.ne_of_not_mem_cons hx)))
    · refine named_of_symbols nofun rfl fun x _ hx => ?_
      have hne : id ≠ x := by
        rintro rfl
        exact hx hfield
      exact ⟨(Dict.get?_insert ..).trans (if_neg hne), (Dict.get?_insert ..).trans (if_neg hne)⟩
  have hother : o.isDeclaration = false → [o.id] = (env.graph.innerOps o).flatMap (fun _ => []) ∧
      ∀ op ∈ env.graph.innerOps o, (registering env.graph).Follows [] (lift .file op) :=
    fun h => absurd hdecl (by simp [h])
  exact rule_follows ho (fun hk => hdeclares (.inl hk) (function_declares hk))
    (fun hk => hdeclares (.inr hk) (var_declares hk)) hrecord hother

theorem rule_registers_inner {lift : OpLifter} {visits : OpId → List OpId}
    (ho : env.graph.op? id = some o) (hdecl : o.isDeclaration = false)
    (hlift : ∀ c ∈ env.graph.innerOps o,
      (registering env.graph).Follows (visits c) (lift .file c)) :
    (registering env.graph).Follows (id :: (env.graph.innerOps o).flatMap visits)
      (rule env lift .file id) := by
  have hkind : o.kind? ≠ some .function ∧ o.kind? ≠ some .var ∧ o.kind? ≠ some .record := by
    refine ⟨?_, ?_, ?_⟩ <;> rintro hk <;> simp [Operation.isDeclaration, hk] at hdecl
  have hnone : env.graph.symbolOf? id = none := by simp [Graph.symbolOf?, ho, hkind]
  have hrule : (registering env.graph).Follows _ (rule env lift .file id) :=
    rule_follows ho (fun hk => absurd hk hkind.1) (fun hk => absurd hk hkind.2.1)
      (fun hk => absurd hk hkind.2.2) fun _ => ⟨rfl, hlift⟩
  exact fun s => (hrule s).mono (fun _ _ h => Named.cons h hnone) fun _ _ h => h

/-- Lifting an operation at file level names it and what stands in it at file level. -/
theorem opAux_registers (hform : env.graph.Formed) (bound : Nat) (id : OpId) :
    (registering env.graph).Follows (env.graph.walkAux env.graph.fileInner bound id)
      (opAux env bound .file id) := by
  induction bound generalizing id with
  | zero =>
      unfold opAux
      refine .get_bind fun s => ?_
      split
      · exact named_of_tables rfl
      · trivial
  | succ bound ih =>
      intro s
      have hid : id ∈ env.graph.walkAux env.graph.fileInner (bound + 1) id :=
        List.mem_cons_self
      cases hs : s.opStmt.get? id with
      | some r =>
          rw [Outcome, opAux_hit hs]
          exact named_of_entered hs hid Graph.walkAux_field rfl
      | none =>
          refine opAux_outcome hs ?_
          cases ho : env.graph.op? id with
          | none =>
              rw [Outcome, rule_missing ho]
              trivial
          | some o =>
              have hrule : (registering env.graph).Follows
                  (env.graph.walkAux env.graph.fileInner (bound + 1) id)
                  (rule env (opAux env bound) .file id) := by
                rw [Graph.walkAux_succ ho, Graph.fileInner]
                cases hdecl : o.isDeclaration with
                | true => exact rule_registers hform ho hdecl
                | false => exact rule_registers_inner ho hdecl fun c _ => ih c
              exact (hrule s).mono (fun r t ht => Named.recorded ht hid r) fun _ _ _ => trivial

/-- The first phase of a lift, at the end of which all declarations at file level have been made. -/
def pass (env : LiftEnv) : Lift Unit :=
  env.graph.topLevelOps.forM fun id => do
    let _ ← op env .file id

theorem run_eq : run env = (do pass env; let _ ← drain env) := rfl

section Passed

variable (hg : env.graph.Built) {target : Target} {s : LiftState}
  (hpass : pass env (.start target) = .ok () s)

include hg hpass

/-- The first phase lifts the operations at file level. -/
theorem pass_registers : Named env.graph env.graph.fileOps (.start target) s := by
  have hfollows : (registering env.graph).Follows env.graph.fileOps (pass env) :=
    .forM fun id _ => .close (opAux_registers hg.formed _ id) fun _ => .pure _
  have hnamed : Outcome (pass env) (.start target) _ _ := hfollows (.start target)
  unfold Outcome at hnamed
  rw [hpass] at hnamed
  exact hnamed

/-- The first phase leaves all other operations alone. -/
theorem pass_kept {id : OpId} (hid : ¬ env.graph.AtFileLevel id)
    (hk : env.graph.kind? id ≠ some .field) : s.opStmt.get? id = none := by
  have hmem : id ∉ env.graph.fileOps := fun h => hid (hg.formed.mem_fileOps.mp h)
  exact ((pass_registers hg hpass).kept id hmem hk).1

/-- After the first phase all functions and variables at file level are declared. -/
theorem pass_noted {id : OpId} (hid : env.graph.AtFileLevel id) {name : String}
    (hname : env.graph.symbolOf? id = some name) : ∃ d, s.opDecl.get? id = some d :=
  (pass_registers hg hpass).noted (hg.arranged.walk_nodup env.graph.descends_fileInner)
    (fun _ _ _ => rfl) id (hg.formed.mem_fileOps.mpr hid) name hname

/-- After the first phase each symbol stands for the last operation at file level that has it. -/
theorem pass_named (name : String) :
    s.symbols.get? name = (env.graph.lastNamed? env.graph.fileOps name).bind s.opDecl.get? ∧
      ((env.graph.lastNamed? env.graph.fileOps name).isSome → (s.symbols.get? name).isSome) := by
  have hnamed := pass_registers hg hpass
  have hnodup : env.graph.fileOps.Nodup := hg.arranged.walk_nodup env.graph.descends_fileInner
  have hfresh : (LiftState.start target).Fresh env.graph env.graph.fileOps := fun _ _ _ => rfl
  cases hlast : env.graph.lastNamed? env.graph.fileOps name with
  | none =>
      refine ⟨?_, nofun⟩
      rw [hnamed.other hnodup hfresh name hlast]
      rfl
  | some id =>
      obtain ⟨d, hd, hsymbol⟩ := hnamed.last hnodup hfresh name id hlast
      rw [hsymbol, Option.bind_some, hd]
      exact ⟨rfl, fun _ => rfl⟩

end Passed

end Pass

end Lift

/-! ### Symbols stay -/

/-- The account of runs that lose no symbol, and fail for unknown ones only. -/
def keeping (g : Graph) : Account g where
  done _ s t := ∀ name, (s.symbols.get? name).isSome → (t.symbols.get? name).isSome
  failed s e t := (∀ name, (s.symbols.get? name).isSome → (t.symbols.get? name).isSome) ∧
    ∀ name, e = .unresolved ("@" ++ name) → s.symbols.get? name = none
  idle {s t} h name hs := by
    have hsymbols : t.symbols = s.symbols := congrArg Tables.symbols (tables_of_records h)
    rwa [hsymbols]
  append h h' name hs := h' name (h name hs)
  fails {s e t} h he := by
    have hsymbols : t.symbols = s.symbols := congrArg Tables.symbols h
    exact ⟨fun name hs => by rwa [hsymbols], he.known⟩
  later h h' := by
    refine ⟨fun name hs => h'.1 name (h name hs), fun name he => ?_⟩
    by_contra hsome
    have ht := h name (Option.isSome_iff_ne_none.mpr hsome)
    rw [h'.2 name he] at ht
    cases ht

theorem keeping_free (g : Graph) : (keeping g).Free := by
  intro s t h name hs
  have hsymbols : t.symbols = s.symbols := congrArg Tables.symbols h
  rwa [hsymbols]

/-- Noting a declaration loses no symbol. -/
theorem Tables.isSome_noted (T : Tables) (scope : Scope) (o : Operation) (d : DeclId) {name : String}
    (h : (T.symbols.get? name).isSome) : ((T.noted scope o d).symbols.get? name).isSome := by
  unfold noted
  dsimp only
  split
  · cases o.symbol? with
    | none => exact h
    | some name' =>
        rw [Option.elim_some, Dict.get?_insert]
        split
        · rfl
        · exact h
  · exact h

namespace Lift

section Keeping

variable {env : LiftEnv}

theorem Declares.keeping {α : Type} {scope : Scope} {o : Operation} {m : Lift α}
    (hm : Declares env scope o m) : (keeping env.graph).Follows [] m := by
  intro s
  refine (hm s).mono (fun _ t ⟨d, task, _, ht⟩ name hs => ?_)
    fun e t ⟨he, ht⟩ => ⟨fun name hs => ?_, he.known⟩
  · have hsymbols : t.symbols = (s.tables.noted scope o d).symbols :=
      (congrArg Tables.symbols ht).trans (Tables.deferring_symbols ..)
    rw [hsymbols]
    exact s.tables.isSome_noted scope o d hs
  · obtain ht | ⟨d, ht⟩ := ht
    · have hsymbols : t.symbols = s.symbols := congrArg Tables.symbols ht
      rwa [hsymbols]
    · have hsymbols : t.symbols = (s.tables.noted scope o d).symbols := congrArg Tables.symbols ht
      rw [hsymbols]
      exact s.tables.isSome_noted scope o d hs

theorem opAux_keeping (bound : Nat) (scope : Scope) (id : OpId) :
    (keeping env.graph).Follows [] (opAux env bound scope id) := by
  induction bound generalizing scope id with
  | zero =>
      unfold opAux
      refine .get_bind fun s => ?_
      split
      · exact (keeping env.graph).idle rfl
      · exact ⟨fun _ h => h, fun _ h => by cases h⟩
  | succ bound ih =>
      have hrule : (keeping env.graph).Follows [] (rule env (opAux env bound) scope id) := by
        cases ho : env.graph.op? id with
        | none =>
            intro s
            rw [Outcome, rule_missing ho]
            exact (keeping env.graph).fails rfl (LiftError.plain_malformed ..)
        | some o =>
            exact rule_follows ho (fun hk => (function_declares hk).keeping)
              (fun hk => (var_declares hk).keeping)
              (fun _ => record_follows (keeping_free _) (fun _ _ _ h => h) fun _ _ _ _ _ h => h)
              fun _ => ⟨by simp, fun c _ => ih scope c⟩
      intro s
      unfold opAux
      refine .get_bind ?_
      split
      · exact (keeping env.graph).idle rfl
      · suffices hrest : (keeping env.graph).Follows [] _ from hrest s
        exact .bind hrule fun _ => .bind (.modify fun _ _ h => h) fun _ => .pure _

theorem op_keeping (scope : Scope) (id : OpId) : (keeping env.graph).Follows [] (op env scope id) :=
  opAux_keeping _ scope id

/-- Carrying out tasks loses no symbol, however far it comes. -/
theorem drainAux_keeping (bound count : Nat) :
    (keeping env.graph).Follows [] (Queue.drainAux (task env) LiftError.unbounded bound count) :=
  drainAux_follows (A := keeping env.graph) (fun h => h) (fun _ _ _ h => h)
    (fun _ => ⟨fun _ h => h, nofun⟩) op_keeping bound count

theorem drain_keeping : (keeping env.graph).Follows [] (drain env) := by
  refine drain_follows (A := keeping env.graph) (fun h => h) (fun _ _ _ h => h)
    (fun _ => ⟨fun _ h => h, nofun⟩) (fun {s e t u} h ht => ⟨fun name hs => ?_, h.2⟩) op_keeping
  have hsymbols : u.symbols = t.symbols := congrArg Tables.symbols ht
  exact hsymbols ▸ h.1 name hs

end Keeping

end Lift

/-- When the first phase of a lift has succeeded, every symbol of a function or a variable at file
level, which is where those at the top and in translation units are, stands for the declaration of
the last one that has it; no task is carried out in vain for such a symbol, wherever the operation
stands; and carrying out tasks never loses a symbol. -/
theorem Graph.Built.symbols_resolve {g : Graph} (hg : g.Built) (naming : Naming) (c : LiftConfig)
    {s : LiftState} (hpass : Lift.pass ⟨g, naming, c.showOps⟩ (.start c.target) = .ok () s) :
    let env : LiftEnv := ⟨g, naming, c.showOps⟩
    (∀ id ∈ g.unitOps, g.AtFileLevel id) ∧
    (∀ id name, g.AtFileLevel id → g.symbolOf? id = some name →
      (∃ last d, g.lastNamed? g.fileOps name = some last ∧ g.AtFileLevel last ∧
        s.opDecl.get? last = some d ∧ s.symbols.get? name = some d) ∧
      ∀ e t, Lift.drain env s = .error e t → e ≠ .unresolved ("@" ++ name)) ∧
    ∀ u bound name, (u.symbols.get? name).isSome →
      ((after (Queue.drainAux (Lift.task env) LiftError.unbounded bound 0) u).symbols.get?
        name).isSome := by
  intro env
  refine ⟨fun _ => atFileLevel_of_unit, fun id name hid hname => ?_, fun u bound name hu => ?_⟩
  · obtain ⟨last, hlast⟩ := lastNamed?_isSome (hg.formed.mem_fileOps.mpr hid) hname
    obtain ⟨hsymbols, hdefined⟩ := @Lift.pass_named env hg _ s hpass name
    obtain ⟨d, hd⟩ := Option.isSome_iff_exists.mp (hdefined (by rw [hlast]; rfl))
    have hdecl : s.opDecl.get? last = some d := by rw [← hd, hsymbols, hlast, Option.bind_some]
    refine ⟨⟨last, d, hlast, hg.formed.mem_fileOps.mp (of_lastNamed? hlast).1, hdecl, hd⟩, ?_⟩
    rintro e t hdrain rfl
    have hfails : Outcome (Lift.drain env) s _ _ := Lift.drain_keeping s
    unfold Outcome at hfails
    rw [hdrain] at hfails
    have hnone := hfails.2 name rfl
    rw [hd] at hnone
    cases hnone
  · have hkeeps : Outcome (Queue.drainAux (Lift.task env) _ bound 0) u _ _ :=
      Lift.drainAux_keeping bound 0 u
    unfold Outcome at hkeeps
    unfold after
    split at hkeeps
    · exact hkeeps name hu
    · exact hkeeps.1 name hu

/-- A function that calls another one, which is declared after it in a translation unit and defined
after that at the top. -/
def ahead : Graph :=
  .build .empty
    [.internType (.integer .int none), .internType (.function [0] [0]),
      .createOperation 0 ((OpSpec.ofKind .function).withAttr AttrName.symName (.text "caller")
        |>.withAttr AttrName.functionType (.type 1)),
      .createRegion 0, .createBlock 1 [0],
      .createOperation 1 ((OpSpec.ofKind .call).withOperands [.argument 1 0] |>.withResults [0]
        |>.withAttr AttrName.callee (.symbol "callee")),
      .createOperation 1 ((OpSpec.ofKind .returnStmt).withOperands [.result 1 0]),
      .createOperation 0 (OpSpec.ofKind .translationUnit), .createRegion 3, .createBlock 2 [],
      .createOperation 2 ((OpSpec.ofKind .function).withAttr AttrName.symName (.text "callee")
        |>.withAttr AttrName.functionType (.type 1)),
      .createOperation 0 ((OpSpec.ofKind .function).withAttr AttrName.symName (.text "callee")
        |>.withAttr AttrName.functionType (.type 1)),
      .createRegion 5, .createBlock 3 [0],
      .createOperation 3 ((OpSpec.ofKind .returnStmt).withOperands [.argument 3 0])]

/-- The symbol stands for the definition, and the call does not fail for it. -/
theorem Graph.Built.symbols_resolve_ahead :
    let env : LiftEnv := ⟨ahead, .marked "c_", true⟩
    ahead.Built ∧ ∃ s, Lift.pass env (.start .host) = .ok () s ∧ 4 ∈ ahead.unitOps ∧
      ahead.symbolOf? 4 = some "callee" ∧ ahead.lastNamed? ahead.fileOps "callee" = some 5 ∧
      (∃ d, s.opDecl.get? 5 = some d ∧ s.symbols.get? "callee" = some d) ∧
      ∀ e t, Lift.drain env s = .error e t → e ≠ .unresolved ("@" ++ "callee") := by
  intro env
  have hbuilt : ahead.Built := built_build _ _
  have hunit : 4 ∈ ahead.unitOps := by decide +kernel
  have hname : ahead.symbolOf? 4 = some "callee" := by decide +kernel
  have hlast : ahead.lastNamed? ahead.fileOps "callee" = some 5 := by decide +kernel
  have hs := ok_of_run (by decide +kernel : (Lift.pass env).run' (.start .host) = some ())
  obtain ⟨hlevel, hnamed, -⟩ :=
    Graph.Built.symbols_resolve hbuilt (.marked "c_") (.forTarget .host) hs
  obtain ⟨⟨last, d, hlast', -, hd, hsymbol⟩, hdrain⟩ := hnamed 4 "callee" (hlevel 4 hunit) hname
  cases hlast.symm.trans hlast'
  exact ⟨hbuilt, _, hs, hunit, hname, hlast, ⟨d, hd, hsymbol⟩, hdrain⟩

/-- A function at the top, and after it a scope with a variable that has the same symbol. -/
def shaded : Graph :=
  .build .empty
    [.internType (.integer .int none), .internType (.function [0] [0]), .asLvalue 0,
      .createOperation 0 ((OpSpec.ofKind .function).withAttr AttrName.symName (.text "shade")
        |>.withAttr AttrName.functionType (.type 1)),
      .createOperation 0 (OpSpec.named Registry.scopeName), .createRegion 1, .createBlock 1 [],
      .createOperation 1 ((OpSpec.ofKind .var).withResults [2]
        |>.withAttr AttrName.symName (.text "shade"))]

/-- A declaration in a scope at the top takes the symbol from a function at the top, although it
stands in no translation unit. -/
theorem Graph.lift_shades_function :
    shaded.Built ∧ ∃ s d d', Lift.pass ⟨shaded, .standard, true⟩ (.start .host) = .ok () s ∧
      shaded.lastNamed? shaded.unitOps "shade" = some 0 ∧ s.opDecl.get? 0 = some d ∧
      s.symbols.get? "shade" = some d' ∧ d ≠ d' := by
  have hs := ok_of_run (by decide +kernel :
    (Lift.pass ⟨shaded, .standard, true⟩).run' (.start .host) = some ())
  exact ⟨built_build _ _, _, 0, 2, hs, by decide +kernel, by decide +kernel, by decide +kernel,
    by decide⟩

end Readback
