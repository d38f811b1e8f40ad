import Mathlib.Data.Set.Card
import Readback.Graph.Builder
import Readback.Lift.Run
import Readback.Proofs.Graph.Walk
import Readback.Proofs.Lift.Account

/-! # Operations are lifted once

A lift enters what each operation became only after the rule for the operation has run, and that rule
may lift other operations, enter the fields of a record and fail half-way.

* `Recalls g S` is what every step does to the entries all the same: they keep their values, each new
  one is counted, and it belongs to an operation in `S` or to a field. Fields are the exception
  throughout. They have no rule (`Lift.rule_field`); their record enters them, and they are not counted.
* `LiftState.Counted` says that as many operations are counted as were lifted by a rule
  (`LiftState.lifted`). Entering an operation that was not lifted before keeps that
  (`LiftState.Counted.enter`).
* The rule for an operation stays below it: it lifts at most the operations that it encloses
  (`Lift.rule_recalls`). So where no operation encloses itself, the rule does not come back to its
  operation (`Lift.rule_new`), and the entry that follows is a new one (`Lift.opAux_recalls`). Without
  that condition the rule might enter the operation first, and it would be counted twice.

`LiftCall` lists the calls that a lift offers, and `LiftState.play` makes a sequence of them, whether
they succeed or fail.

The main result is `Graph.lift_once`. Where no operation encloses itself, whatever calls were made
before: an operation that has been lifted is not lifted again, lifting it again in any scope gives the
same and counts as a hit; no entry ever changes; and as many operations are counted as were lifted, not
counting fields. `Graph.lift_once_cell` is a record with a field. -/

namespace Readback

open Step Relation

namespace LiftState

/-- The operations that were lifted by a rule. Fields have no rule; their record enters them. -/
def lifted (g : Graph) (s : LiftState) : Set OpId :=
  {id | (s.opStmt.get? id).isSome ∧ g.kind? id ≠ some .field}

/-- The operations that were lifted are counted, and fields leave no statement. -/
structure Counted (g : Graph) (s : LiftState) : Prop where
  count : (s.lifted g).encard = s.stats.opsLifted
  field : ∀ id r, g.kind? id = some .field → s.opStmt.get? id = some r → r = none

/-- Between `s` and `t` no entry changed, and new ones belong to operations in `S` or to fields. -/
structure Remembers (g : Graph) (S : Set OpId) (s t : LiftState) : Prop where
  counted : t.Counted g
  kept : ∀ id r, s.opStmt.get? id = some r → t.opStmt.get? id = some r
  new : ∀ id, id ∉ S → g.kind? id ≠ some .field → s.opStmt.get? id = none → t.opStmt.get? id = none

/-- What a step does to the entries of a state whose entries are counted. -/
def Recalls (g : Graph) (S : Set OpId) (s t : LiftState) : Prop := s.Counted g → Remembers g S s t

variable {g : Graph} {S : Set OpId}

instance : Std.Refl (Recalls g S) := ⟨fun _ h => ⟨h, fun _ _ h => h, fun _ _ _ h => h⟩⟩

instance : IsTrans LiftState (Recalls g S) where
  trans s t u hst htu hs := by
    have ht := hst hs
    have hu := htu ht.counted
    exact ⟨hu.counted, fun id r h => hu.kept id r (ht.kept id r h),
      fun id hid hk h => hu.new id hid hk (ht.new id hid hk h)⟩

theorem Recalls.mono {S' : Set OpId} {s t : LiftState} (h : Recalls g S s t) (hS : S ⊆ S') :
    Recalls g S' s t := fun hs =>
  ⟨(h hs).counted, (h hs).kept, fun id hid => (h hs).new id fun hmem => hid (hS hmem)⟩

theorem recalls_of_tables {s t : LiftState} (hentries : t.tables.opStmt = s.tables.opStmt)
    (hcount : t.tables.opsLifted = s.tables.opsLifted) : Recalls g S s t := by
  replace hentries : t.opStmt = s.opStmt := hentries
  replace hcount : t.stats.opsLifted = s.stats.opsLifted := hcount
  refine fun hs => ⟨⟨?_, ?_⟩, fun id r hr => ?_, fun id _ _ hr => ?_⟩
  · rw [hcount, ← hs.count, lifted, lifted, hentries]
  · rw [hentries]
    exact hs.field
  · rw [hentries]
    exact hr
  · rw [hentries]
    exact hr

theorem Counted.congr {s t : LiftState} (h : s.Counted g)
    (hentries : t.tables.opStmt = s.tables.opStmt)
    (hcount : t.tables.opsLifted = s.tables.opsLifted) : t.Counted g :=
  (recalls_of_tables (S := Set.univ) hentries hcount h).counted

/-- Entering a field. -/
theorem recalls_field {s : LiftState} {id : OpId} (d : DeclId) (hk : g.kind? id = some .field) :
    Recalls g S s (s.withField id d) := by
  intro hs
  have hget : ∀ x, g.kind? x ≠ some .field → (s.withField id d).opStmt.get? x = s.opStmt.get? x := by
    intro x hx
    rw [withField_opStmt, if_neg]
    rintro rfl
    exact hx hk
  refine ⟨⟨?_, fun x r hx hr => ?_⟩, fun x r hr => ?_, fun x _ hx hr => (hget x hx).trans hr⟩
  · show ((s.withField id d).lifted g).encard = s.stats.opsLifted
    rw [← hs.count]
    congr 1
    ext x
    refine and_congr_left fun hx => ?_
    rw [hget x hx]
  · rw [withField_opStmt] at hr
    split at hr
    · cases hr
      rfl
    · exact hs.field x r hx hr
  · rw [withField_opStmt]
    split
    · next heq => rw [hs.field id r hk (heq ▸ hr)]
    · exact hr

/-- Entering an operation that was not lifted before. -/
theorem Counted.enter {s : LiftState} (hs : s.Counted g) {id : OpId} (hid : s.opStmt.get? id = none)
    (hk : g.kind? id ≠ some .field) (r : Option StmtId) :
    Remembers g {id} s (s.recorded id r) := by
  have hget : ∀ x, (s.recorded id r).opStmt.get? x = if id = x then some r else s.opStmt.get? x :=
    fun x => Dict.get?_insert ..
  refine ⟨⟨?_, fun x r' hx hr => ?_⟩, fun x r' hr => ?_, fun x hx _ hr => ?_⟩
  · have hnew : id ∉ s.lifted g := by simp [lifted, hid]
    show Set.encard _ = ((s.stats.opsLifted + 1 : ℕ) : ℕ∞)
    rw [Nat.cast_succ, ← hs.count, ← Set.encard_insert_of_notMem hnew]
    congr 1
    ext x
    by_cases hx : id = x
    · subst hx
      simp [lifted, hget, hk]
    · simp [lifted, hget, hx, Ne.symm hx]
  · rw [hget, if_neg] at hr
    · exact hs.field x r' hx hr
    · rintro rfl
      exact hk hx
  · rw [hget, if_neg]
    · exact hr
    · rintro rfl
      rw [hid] at hr
      cases hr
  · rw [hget, if_neg (Ne.symm hx)]
    exact hr

end LiftState

open LiftState

/-- The account of runs that keep and count entries, and make new ones in `S` or for fields. -/
def recalling (g : Graph) (S : Set OpId) : Account g where
  done _ := Recalls g S
  failed s _ := Recalls g S s
  idle h := recalls_of_tables (congrArg Tables.opStmt (tables_of_records h))
    (congrArg Tables.opsLifted (tables_of_records h))
  append h h' := IsTrans.trans _ _ _ h h'
  fails h _ := recalls_of_tables (congrArg Tables.opStmt h) (congrArg Tables.opsLifted h)
  later h h' := IsTrans.trans _ _ _ h h'

section Recalling

variable {g : Graph} {S : Set OpId} {α : Type} {l : List OpId} {m : Lift α}

theorem recalling_free : (recalling g S).Free := fun h =>
  recalls_of_tables (congrArg Tables.opStmt h) (congrArg Tables.opsLifted h)

theorem recalls_follows (h : (recalling g S).Follows l m) : Moves (Recalls g S) m := by
  intro s
  have hs := h s
  unfold after
  unfold Outcome at hs
  cases hm : m s <;> rw [hm] at hs <;> exact hs

theorem recalling_mono {S' : Set OpId} (h : (recalling g S).Follows l m) (hS : S ⊆ S') :
    (recalling g S').Follows l m := fun s =>
  (h s).mono (fun _ _ ht => Recalls.mono ht hS) fun _ _ ht => Recalls.mono ht hS

end Recalling

namespace Lift

/-! ### Operations -/

section Rules

variable {env : LiftEnv} {S : Set OpId}

/-- The rule for an operation lifts at most the operations that it encloses. -/
theorem rule_recalls {lift : OpLifter} {scope : Scope} {id : OpId}
    (hlift : ∀ c, env.graph.Encloses id c → (recalling env.graph S).Follows [] (lift scope c)) :
    (recalling env.graph S).Follows [] (rule env lift scope id) := by
  cases ho : env.graph.op? id with
  | none =>
      intro s
      rw [Outcome, rule_missing ho]
      exact recalls_of_tables rfl rfl
  | some o =>
      have hdecl {α : Type} {m : Lift α} (hm : Declares env scope o m) :
          (recalling env.graph S).Follows [] m := by
        refine fun s => (hm s).mono (fun _ t ⟨d, task, _, ht⟩ => ?_) fun e t ⟨_, ht⟩ => ?_
        · exact recalls_of_tables (by simp [ht]) (by simp [ht])
        · obtain ht | ⟨d, ht⟩ := ht
          · exact recalls_of_tables (by simp [ht]) (by simp [ht])
          · exact recalls_of_tables (by simp [ht]) (by simp [ht])
      have hrecord : (recalling env.graph S).Follows [] (record env scope o) :=
        record_follows recalling_free (fun _ _ => recalls_of_tables rfl rfl)
          fun _ d _ hk => recalls_field d hk
      refine rule_follows ho (fun hk => hdecl (function_declares hk))
        (fun hk => hdecl (var_declares hk)) (fun _ => hrecord)
        fun _ => ⟨by simp, fun c hc => hlift c ?_⟩
      obtain ⟨r, hr, hc⟩ := List.mem_flatMap.mp hc
      exact ⟨o, r, ho, env.graph.readRegions_subset o hr, hc⟩

/-- There is no rule for fields. -/
theorem rule_field {lift : OpLifter} {scope : Scope} {id : OpId}
    (hk : env.graph.kind? id = some .field) (s : LiftState) :
    ∃ e, rule env lift scope id s = .error e s := by
  obtain ⟨o, ho, hkind⟩ := Option.bind_eq_some_iff.mp hk
  refine ⟨env.noRule o, ?_⟩
  unfold rule operation
  rw [ho, pure_bind, hkind]
  rfl

theorem opAux_hit {s : LiftState} {id : OpId} {r : Option StmtId} (h : s.opStmt.get? id = some r)
    (bound : Nat) (scope : Scope) :
    opAux env bound scope id s =
      .ok r { s with stats := { s.stats with memoHits := s.stats.memoHits + 1 } } := by
  unfold opAux
  rw [get_bind, h]
  rfl

theorem opAux_miss {s : LiftState} {id : OpId} (h : s.opStmt.get? id = none) (bound : Nat)
    (scope : Scope) :
    opAux env (bound + 1) scope id s = match rule env (opAux env bound) scope id s with
      | .ok r t => .ok r (t.recorded id r)
      | .error e t => .error e t := by
  rw [opAux, get_bind, h]
  show EStateM.bind (rule env (opAux env bound) scope id) _ s = _
  unfold EStateM.bind
  cases rule env (opAux env bound) scope id s <;> rfl

/-- Lifting an operation that was not lifted before is its rule, after which it is recorded. -/
theorem opAux_outcome {s : LiftState} {id : OpId} (hs : s.opStmt.get? id = none) {bound : Nat}
    {scope : Scope} {Q : Option StmtId → LiftState → Prop} {E : LiftError → LiftState → Prop}
    (h : Outcome (rule env (opAux env bound) scope id) s (fun r t => Q r (t.recorded id r)) E) :
    Outcome (opAux env (bound + 1) scope id) s Q E := by
  unfold Outcome at h ⊢
  rw [opAux_miss hs]
  cases hr : rule env (opAux env bound) scope id s with
  | ok r t =>
      rw [hr] at h
      exact h
  | error e t =>
      rw [hr] at h
      exact h

/-- What is lifted is entered. -/
theorem opAux_ok {s t : LiftState} {bound : Nat} {scope : Scope} {id : OpId} {r : Option StmtId}
    (h : opAux env bound scope id s = .ok r t) : t.opStmt.get? id = some r := by
  cases hs : s.opStmt.get? id with
  | some r' =>
      rw [opAux_hit hs] at h
      cases h
      exact hs
  | none =>
      cases bound with
      | zero =>
          unfold opAux at h
          rw [get_bind, hs] at h
          cases h
      | succ bound =>
          rw [opAux_miss hs] at h
          split at h
          · cases h
            exact (Dict.get?_insert ..).trans (if_pos rfl)
          · cases h

section Below

variable {lift : OpLifter} {scope : Scope} {id : OpId}
  (hlift : ∀ c, env.graph.Encloses id c →
    (recalling env.graph {x | ReflTransGen env.graph.Encloses c x}).Follows [] (lift scope c))

include hlift

theorem rule_below : (recalling env.graph {x | TransGen env.graph.Encloses id x}).Follows []
    (rule env lift scope id) :=
  rule_recalls fun c hc => recalling_mono (hlift c hc) fun _ hx => .head' hc hx

/-- The rule for an operation does not come back to it. -/
theorem rule_new (hacyclic : env.graph.Acyclic) {s t : LiftState} {r : Option StmtId}
    (hs : s.Counted env.graph) (hid : s.opStmt.get? id = none)
    (hrule : rule env lift scope id s = .ok r t) :
    Remembers env.graph {x | TransGen env.graph.Encloses id x} s t ∧ t.opStmt.get? id = none ∧
      env.graph.kind? id ≠ some .field := by
  have hk : env.graph.kind? id ≠ some .field := by
    intro hk
    obtain ⟨e, he⟩ := rule_field hk s
    rw [he] at hrule
    cases hrule
  have hbelow := rule_below hlift s
  unfold Outcome at hbelow
  rw [hrule] at hbelow
  exact ⟨hbelow hs, (hbelow hs).new id (hacyclic id) hk hid, hk⟩

end Below

/-- Lifting an operation enters at most the operation itself and those below it. -/
theorem opAux_recalls (hacyclic : env.graph.Acyclic) (bound : Nat) (scope : Scope) (id : OpId) :
    (recalling env.graph {x | ReflTransGen env.graph.Encloses id x}).Follows []
      (opAux env bound scope id) := by
  induction bound generalizing scope id with
  | zero =>
      unfold opAux
      refine .get_bind fun s => ?_
      split
      · exact recalls_of_tables rfl rfl
      · exact recalls_of_tables rfl rfl
  | succ bound ih =>
      intro s
      unfold Outcome
      cases hs : s.opStmt.get? id with
      | some r =>
          rw [opAux_hit hs]
          exact recalls_of_tables rfl rfl
      | none =>
          have hbelow : {x | TransGen env.graph.Encloses id x} ⊆
              {x | ReflTransGen env.graph.Encloses id x} := fun _ => TransGen.to_reflTransGen
          rw [opAux_miss hs]
          cases hr : rule env (opAux env bound) scope id s with
          | error e t =>
              have hrule := rule_below (fun c (_ : env.graph.Encloses id c) => ih scope c) s
              unfold Outcome at hrule
              rw [hr] at hrule
              exact Recalls.mono hrule hbelow
          | ok r t =>
              intro hcounted
              obtain ⟨ht, hnew, hk⟩ := rule_new (fun c _ => ih scope c) hacyclic hcounted hs hr
              have henter := ht.counted.enter hnew hk r
              refine ⟨henter.counted, fun x l hx => henter.kept x l (ht.kept x l hx), ?_⟩
              intro x hx hkx hnone
              refine henter.new x ?_ hkx (ht.new x (fun hb => hx (hbelow hb)) hkx hnone)
              rintro rfl
              exact hx .refl

/-- Lifting an operation, whatever it enters. -/
theorem op_follows (hacyclic : env.graph.Acyclic) (scope : Scope) (id : OpId) :
    (recalling env.graph Set.univ).Follows [] (op env scope id) :=
  recalling_mono (opAux_recalls hacyclic _ scope id) (Set.subset_univ _)

theorem op_recalls (hacyclic : env.graph.Acyclic) (scope : Scope) (id : OpId) :
    Moves (Recalls env.graph Set.univ) (op env scope id) :=
  recalls_follows (op_follows hacyclic scope id)

theorem drain_recalls (hacyclic : env.graph.Acyclic) :
    Moves (Recalls env.graph Set.univ) (drain env) :=
  recalls_follows (drain_follows (A := recalling env.graph Set.univ) (fun h => h)
    (fun _ _ => recalls_of_tables rfl rfl) (fun _ => recalls_of_tables rfl rfl)
    (fun h ht => IsTrans.trans _ _ _ h
      (recalls_of_tables (congrArg Tables.opStmt ht) (congrArg Tables.opsLifted ht)))
    (op_follows hacyclic))

end Rules

end Lift

/-! ### Sequences of calls -/

/-- A call that a lift offers. -/
inductive LiftCall where
  | op (scope : Scope) (id : OpId)
  | type (id : TypeId)
  | value (v : Value)
  | drain
deriving DecidableEq

/-- Makes a call and drops its result. -/
def LiftCall.run (env : LiftEnv) : LiftCall → Lift Unit
  | .op scope id => discard (Lift.op env scope id)
  | .type id => discard (Lift.type env id)
  | .value v => discard (Lift.value v)
  | .drain => discard (Lift.drain env)

/-- The state after a sequence of calls, whether they succeed or fail. -/
def LiftState.play (env : LiftEnv) (s : LiftState) (calls : List LiftCall) : LiftState :=
  calls.foldl (fun s call => after (call.run env) s) s

section Calls

variable {env : LiftEnv}

theorem LiftCall.run_recalls (hacyclic : env.graph.Acyclic) (call : LiftCall) :
    Moves (Recalls env.graph Set.univ) (call.run env) := by
  have dropped {α : Type} {m : Lift α} (hm : Moves (Recalls env.graph Set.univ) m) :
      Moves (Recalls env.graph Set.univ) (discard m) := fun s => (after_discard m s).symm ▸ hm s
  cases call with
  | op scope id => exact dropped (Lift.op_recalls hacyclic scope id)
  | type id => exact dropped (recalls_follows (Lift.type_follows id))
  | value v => exact dropped (recalls_follows (Lift.value_follows v))
  | drain => exact dropped (Lift.drain_recalls hacyclic)

theorem LiftState.play_recalls (hacyclic : env.graph.Acyclic) (s : LiftState)
    (calls : List LiftCall) : Recalls env.graph Set.univ s (s.play env calls) := by
  induction calls generalizing s with
  | nil => exact Std.Refl.refl s
  | cons call calls ih => exact IsTrans.trans _ _ _ (call.run_recalls hacyclic s) (ih _)

theorem LiftState.counted_start (g : Graph) (target : Target) : (start target).Counted g := by
  refine ⟨?_, fun id r _ h => ?_⟩
  · have hnone : (start target).lifted g = ∅ := by
      simp [lifted, start]
    rw [hnone, Set.encard_empty]
    rfl
  · cases h

end Calls

/-- Where no operation encloses itself, whatever calls were made before: an operation that has been
lifted is not lifted again, and lifting it again in any scope gives the same and counts as a hit; no
entry ever changes; and as many operations are counted as were lifted by a rule. -/
theorem Graph.lift_once (env : LiftEnv) (hacyclic : env.graph.Acyclic) (target : Target)
    (calls : List LiftCall) :
    let s := (LiftState.start target).play env calls
    (∀ scope id r t, Lift.op env scope id s = .ok r t → ∀ later scope',
      let u := t.play env later
      Lift.op env scope' id u =
        .ok r { u with stats := { u.stats with memoHits := u.stats.memoHits + 1 } }) ∧
    (∀ id r, s.opStmt.get? id = some r → ∀ later, (s.play env later).opStmt.get? id = some r) ∧
    {id | (s.opStmt.get? id).isSome ∧ env.graph.kind? id ≠ some .field}.encard =
      s.stats.opsLifted := by
  intro s
  have hs : s.Counted env.graph :=
    (LiftState.play_recalls hacyclic _ calls (LiftState.counted_start env.graph target)).counted
  refine ⟨fun scope id r t ht later scope' => ?_, fun id r hid later => ?_, hs.count⟩
  · have hop := Lift.op_recalls hacyclic scope id s
    unfold after at hop
    rw [ht] at hop
    refine Lift.opAux_hit ?_ _ _
    exact (LiftState.play_recalls hacyclic t later (hop hs).counted).kept id r (Lift.opAux_ok ht)
  · exact (LiftState.play_recalls hacyclic s later hs).kept id r hid

/-- A record with one field. -/
def cell : Graph :=
  .build .empty
    [.internType (.integer .int none),
      .createOperation 0 ((OpSpec.ofKind .record).withAttr AttrName.symName (.text "cell")),
      .createRegion 0, .createBlock 1 [],
      .createOperation 1 ((OpSpec.ofKind .field).withAttr AttrName.symName (.text "content")
        |>.withAttr AttrName.type (.type 0))]

/-- The record is entered along with its field, and is the only one that is counted. -/
theorem Graph.lift_once_cell :
    let env : LiftEnv := ⟨cell, .standard, true⟩
    ∃ r t, Lift.op env .file 0 (LiftState.start .host) = .ok r t ∧ t.opStmt.keys = [1, 0] ∧
      t.stats.opsLifted = 1 ∧ ∀ later scope,
        let u := t.play env later
        Lift.op env scope 0 u =
          .ok r { u with stats := { u.stats with memoHits := u.stats.memoHits + 1 } } := by
  intro env
  have hrun : (match Lift.op env .file 0 (LiftState.start .host) with
      | .ok _ t => decide (t.opStmt.keys = [1, 0] ∧ t.stats.opsLifted = 1)
      | .error _ _ => false) = true := by decide +kernel
  have hacyclic : env.graph.Acyclic := (Graph.Built.formed (built_build _ _)).acyclic
  obtain ⟨honce, -, -⟩ := Graph.lift_once env hacyclic .host []
  split at hrun
  · next r t ht =>
      obtain ⟨hkeys, hcount⟩ := of_decide_eq_true hrun
      exact ⟨r, t, ht, hkeys, hcount, honce .file 0 r t ht⟩
  · cases hrun

end Readback
