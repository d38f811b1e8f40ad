import Readback.Proofs.Graph.Swapped
import Readback.Proofs.Lift.Alike
import Readback.Proofs.Lift.Type
import Readback.Proofs.Typing.PairedDecl

/-! # Lifts in tandem

Two lifts of one operation, from states that agree except for what some other lift entered, stay in
agreement: they build the same nodes under other numbers, and enter them at the same keys.

* A `Share` is a set of keys of the tables of a lift. A `Tandem` has the share that its lifts may enter,
  and one that is hidden, because another lift entered it in only one of the two states.
* The states agree (`Tandem.Holds`) if their programs are in accord and the tables hold paired nodes
  outside of what is hidden (`LiftState.Agrees`). Lifting leaves the tables alone outside of the share
  (`LiftState.Stays`) and puts off paired tasks (`Task.Paired`); this is `Tandem.Leads`.
* `Tandem.likeness` is the likeness of the two lifts. It does not ask for the same failures: a message may
  name nodes by their numbers.

The share has to fit the graph (`Tandem.Fits`). It is closed under what is lifted along with its
operations, it has the keys that they enter, and what they read is not hidden. Under this condition all
steps respect the likeness (`Tandem.Fits.respected`):

* construction in accord is lifting in tandem (`Tandem.typed_runs`),
* types are lifted to alike types, whatever was lifted before on either side (`Tandem.type_runs`), as
  both sides denote the same type of C,
* entering, listing and registering keep the tables in agreement (`Tandem.noteDecl_runs`,
  `Tandem.enter_runs`, `Tandem.list_runs`, `Tandem.Fits.register_runs`), and so does putting a task off
  (`Tandem.Fits.filler_runs`).

What whole rules do in tandem is then that of lifts that run alike. -/

namespace Readback

open Step Program

/-! ### Shares of the tables -/

/-- Keys of the tables of a lift: operations, values and symbols. -/
structure Share where
  ops : OpId → Prop
  values : Value → Prop
  names : String → Prop

/-- No keys. -/
def Share.none : Share := ⟨fun _ => False, fun _ => False, fun _ => False⟩

namespace LiftState

/-- The tables stay as they are outside the share. -/
structure Stays (share : Share) (s t : LiftState) : Prop where
  opStmt {id} : ¬ share.ops id → t.opStmt.get? id = s.opStmt.get? id
  opDecl {id} : ¬ share.ops id → t.opDecl.get? id = s.opDecl.get? id
  argDecl {v} : ¬ share.values v → t.argDecl.get? v = s.argDecl.get? v
  symbols {n} : ¬ share.names n → t.symbols.get? n = s.symbols.get? n

/-- The tables hold paired nodes, except for the keys that are hidden. -/
structure Agrees (ρ : Pairing) (hidden : Share) (s t : LiftState) : Prop where
  opStmt {id} : ¬ hidden.ops id →
    Option.Rel (Option.Rel ρ.stmt) (s.opStmt.get? id) (t.opStmt.get? id)
  opDecl {id} : ¬ hidden.ops id → Option.Rel ρ.decl (s.opDecl.get? id) (t.opDecl.get? id)
  argDecl {v} : ¬ hidden.values v → Option.Rel ρ.decl (s.argDecl.get? v) (t.argDecl.get? v)
  symbols {n} : ¬ hidden.names n → Option.Rel ρ.decl (s.symbols.get? n) (t.symbols.get? n)

variable {share hidden : Share} {ρ σ : Pairing} {s t u s' t' : LiftState}

theorem Stays.of_eq (hs : t.opStmt = s.opStmt) (hd : t.opDecl = s.opDecl) (ha : t.argDecl = s.argDecl)
    (hn : t.symbols = s.symbols) : Stays share s t :=
  ⟨fun _ => by rw [hs], fun _ => by rw [hd], fun _ => by rw [ha], fun _ => by rw [hn]⟩

theorem Stays.refl (share : Share) (s : LiftState) : Stays share s s := .of_eq rfl rfl rfl rfl

theorem Stays.trans (h : Stays share s t) (h' : Stays share t u) : Stays share s u :=
  ⟨fun hid => (h'.opStmt hid).trans (h.opStmt hid), fun hid => (h'.opDecl hid).trans (h.opDecl hid),
    fun hv => (h'.argDecl hv).trans (h.argDecl hv), fun hn => (h'.symbols hn).trans (h.symbols hn)⟩

theorem Agrees.mono (h : Agrees ρ hidden s t) (hρ : ρ.Within σ) : Agrees σ hidden s t :=
  ⟨fun hid => optionRel_imp (optionRel_imp hρ.stmt) (h.opStmt hid),
    fun hid => optionRel_imp hρ.decl (h.opDecl hid), fun hv => optionRel_imp hρ.decl (h.argDecl hv),
    fun hn => optionRel_imp hρ.decl (h.symbols hn)⟩

theorem Agrees.congr (h : Agrees ρ hidden s t) (hs : s'.opStmt = s.opStmt) (hd : s'.opDecl = s.opDecl)
    (ha : s'.argDecl = s.argDecl) (hn : s'.symbols = s.symbols) (ht : t'.opStmt = t.opStmt)
    (hd' : t'.opDecl = t.opDecl) (ha' : t'.argDecl = t.argDecl) (hn' : t'.symbols = t.symbols) :
    Agrees ρ hidden s' t' :=
  ⟨fun hid => by rw [hs, ht]; exact h.opStmt hid, fun hid => by rw [hd, hd']; exact h.opDecl hid,
    fun hv => by rw [ha, ha']; exact h.argDecl hv, fun hn₀ => by rw [hn, hn']; exact h.symbols hn₀⟩

theorem typesLifted_congr {g g' : Graph} {target : Target} (h : g'.types = g.types) :
    s.TypesLifted g' target ↔ s.TypesLifted g target :=
  ⟨fun hs => ⟨hs.onTarget, h ▸ hs.types⟩, fun hs => ⟨hs.onTarget, h.symm ▸ hs.types⟩⟩

theorem TypesLifted.later {g : Graph} {target : Target} (h : s.TypesLifted g target)
    (htarget : t.program.target = s.program.target) (htypes : s.program.types.Within t.program.types)
    (hlifted : t.typeOf = s.typeOf) : t.TypesLifted g target :=
  (keepsTypes_of_within htarget htypes hlifted h).1

end LiftState

/-- Paired values at one key more. -/
theorem optionRel_insert {κ α : Type} [DecidableEq κ] {R : α → α → Prop} {d d' : Dict κ α} {k i : κ}
    {x x' : α} (hx : R x x') (h : Option.Rel R (d.get? i) (d'.get? i)) :
    Option.Rel R ((d.insert k x).get? i) ((d'.insert k x').get? i) := by
  rw [Dict.get?_insert, Dict.get?_insert]
  split
  · exact .some hx
  · exact h

/-- An entry inside is not seen outside. -/
theorem get?_insert_outside {κ α : Type} [DecidableEq κ] {P : κ → Prop} {k i : κ} (hk : P k)
    (hi : ¬ P i) (d : Dict κ α) (x : α) : (d.insert k x).get? i = d.get? i := by
  rw [Dict.get?_insert, if_neg]
  rintro rfl
  exact hi hk

/-! ### Lifting types -/

/-- Only types are interned, none of them that of a record, and the tables of operations stay. -/
structure LiftState.Retypes (s t : LiftState) : Prop where
  program : s.program.TypesOnly t.program
  distinct : s.program.types.Distinct → t.program.types.Distinct
  recordless : s.program.types.Recordless → t.program.types.Recordless
  opStmt : t.opStmt = s.opStmt
  opDecl : t.opDecl = s.opDecl
  argDecl : t.argDecl = s.argDecl
  symbols : t.symbols = s.symbols
  queue : t.queue = s.queue

namespace Lift

open LiftState

instance : Std.Refl Retypes := ⟨fun _ => ⟨Std.Refl.refl _, id, id, rfl, rfl, rfl, rfl, rfl⟩⟩

instance : IsTrans LiftState Retypes where
  trans _ _ _ h h' :=
    ⟨IsTrans.trans _ _ _ h.program h'.program, h'.distinct ∘ h.distinct, h'.recordless ∘ h.recordless,
      h'.opStmt.trans h.opStmt, h'.opDecl.trans h.opDecl, h'.argDecl.trans h.argDecl,
      h'.symbols.trans h.symbols, h'.queue.trans h.queue⟩

theorem intern_retypes {node : TypeNode} (hnode : ∀ d, node ≠ .record d) :
    Moves Retypes (typed (Check.internNode node)) := fun _ =>
  ⟨rfl, fun h => h.intern node, fun h => h.intern hnode, rfl, rfl, rfl, rfl, rfl⟩

theorem shape_retypes {env : LiftEnv} {lift : TypeId → Lift QualType}
    (hlift : ∀ id, Moves Retypes (lift id)) (id : TypeId) (s : Shape) :
    Moves Retypes (shape env lift id s) := by
  have named (kind : Builtin) (quals : Quals) : Moves Retypes (qualified kind quals) :=
    .bind (intern_retypes nofun) fun _ => .pure _
  cases s with
  | plain kind quals => exact named _ _
  | integer kind quals => exact .bind (.bind .get fun _ => .pure _) fun _ => named _ _
  | pointer element quals =>
      exact .bind (hlift element) fun _ => .bind (intern_retypes nofun) fun _ => .pure _
  | array element size quals =>
      exact .bind (hlift element) fun _ => .bind (intern_retypes nofun) fun _ => .pure _
  | lvalue element => exact hlift element
  | function inputs results =>
      have rest (result : QualType) : Moves Retypes (do
          let params ← inputs.mapM lift
          typed (Check.functionType result params false)) :=
        .bind (.mapM fun id _ => hlift id) fun _ => intern_retypes nofun
      match results with
      | [] => exact .bind (intern_retypes nofun) rest
      | [single] => exact .bind (hlift single) rest
      | _ :: _ :: _ => exact .bind (.throw _) rest
  | named _ _ => exact .throw _

theorem typeAux_retypes (env : LiftEnv) (bound : Nat) (id : TypeId) :
    Moves Retypes (typeAux env bound id) := by
  induction bound generalizing id with
  | zero =>
      unfold typeAux
      refine .bind .get fun s => ?_
      split
      · exact .pure _
      · split
        · exact .throw _
        · exact .throw _
        · next h => cases h
  | succ bound ih =>
      unfold typeAux
      refine .bind .get fun s => ?_
      split
      · exact .pure _
      · split
        · exact .throw _
        · next h => cases h
        · next h =>
            cases h
            exact .bind (shape_retypes ih id _) fun _ =>
              .bind (.modify fun _ =>
                ⟨Std.Refl.refl _, fun h => h, fun h => h, rfl, rfl, rfl, rfl, rfl⟩) fun _ => .pure _

/-- Lifting a type: what it gives, what it fails with, and what stays. -/
theorem type_outcome {env : LiftEnv} {target : Target} (id : TypeId) {s : LiftState}
    (hs : s.TypesLifted env.graph target) :
    Outcome (type env id) s
      (fun t s' => (s.Retypes s' ∧ s'.TypesLifted env.graph target ∧
        s.program.types.Within s'.program.types) ∧ (env.graph.types.tree id).fault? = none ∧
        s'.program.types.Denotes t ((env.graph.types.tree id).ctype target))
      fun _ _ => (env.graph.types.tree id).fault? ≠ none := by
  have hlifts := type_lifts_or_faulty id s hs
  have hstays : s.Retypes (after (type env id) s) := typeAux_retypes env _ id s
  unfold Outcome at hlifts ⊢
  unfold after at hstays
  cases hrun : type env id s with
  | ok t s' =>
      rw [hrun] at hlifts hstays
      obtain ⟨hkeeps, hnone, ht⟩ := hlifts
      exact ⟨⟨hstays, hkeeps hs⟩, hnone, ht⟩
  | error e s' =>
      rw [hrun] at hlifts
      exact hlifts.2

end Lift

/-! ### Tasks -/

/-- The same task: it fills declarations that `own` relates from a region that is reached. Variables at
file level wait only if `late` holds. -/
inductive Task.Paired (late : Prop) (reach : RegionId → Prop) (own : DeclId → DeclId → Prop) :
    Task → Task → Prop where
  | body {f f' : DeclId} {r : RegionId} (hf : own f f') (hr : reach r) :
      Paired late reach own (.body f r) (.body f' r)
  | init {sc sc' : Scope} {d d' : DeclId} {r : RegionId} (hsc : sc.Paired late own sc')
      (hd : own d d') (hr : reach r) : Paired late reach own (.init sc d r) (.init sc' d' r)

theorem Task.Paired.mono {late late' : Prop} {reach reach' : RegionId → Prop}
    {own own' : DeclId → DeclId → Prop} {t t' : Task} (h : t.Paired late reach own t')
    (hlate : late → late') (hreach : ∀ {r}, reach r → reach' r)
    (hown : ∀ {d d'}, own d d' → own' d d') : t.Paired late' reach' own' t' := by
  cases h with
  | body hf hr => exact .body (hown hf) (hreach hr)
  | init hsc hd hr => exact .init (hsc.mono hlate hown) (hown hd) (hreach hr)

/-! ### Two lifts -/

/-- Two lifts that run side by side. -/
structure Tandem where
  accord : Accord
  /-- What the lifts may enter. -/
  share : Share
  /-- Where the states need not agree. -/
  hidden : Share
  /-- The regions that tasks fill declarations from. -/
  reach : RegionId → Prop
  /-- Whether variables at file level may wait. -/
  late : Prop

namespace Tandem

/-- The states agree. -/
structure Holds (T : Tandem) (g : Graph) (target : Target) (w : Twin) : Prop where
  kept : T.accord.Kept w.1.program w.2.program
  agrees : LiftState.Agrees (T.accord.pairing w.1.program) T.hidden w.1 w.2
  typed : w.1.TypesLifted g target ∧ w.2.TypesLifted g target

/-- What the lifts do to the states. -/
structure Leads (T : Tandem) (w v : Twin) : Prop where
  program : T.accord.Leads w.1.program w.2.program v.1.program v.2.program
  left : LiftState.Stays T.share w.1 v.1
  right : LiftState.Stays T.share w.2 v.2
  queue : ∃ ts ts', v.1.queue.pending = w.1.queue.pending ++ ts ∧
    v.2.queue.pending = w.2.queue.pending ++ ts' ∧
    List.Forall₂ (Task.Paired T.late T.reach (T.accord.mine v.1.program)) ts ts'

theorem Leads.quiet {T : Tandem} {w v : Twin}
    (program : T.accord.Leads w.1.program w.2.program v.1.program v.2.program)
    (left : LiftState.Stays T.share w.1 v.1) (right : LiftState.Stays T.share w.2 v.2)
    (hq : v.1.queue = w.1.queue) (hq' : v.2.queue = w.2.queue) : T.Leads w v :=
  ⟨program, left, right, [], [], by rw [hq, List.append_nil], by rw [hq', List.append_nil], .nil⟩

theorem Leads.refl (T : Tandem) (w : Twin) : T.Leads w w :=
  .quiet (.refl ..) (.refl ..) (.refl ..) rfl rfl

theorem Leads.trans {T : Tandem} {u v w : Twin} (h : T.Leads u v) (h' : T.Leads v w) :
    T.Leads u w := by
  obtain ⟨ts, ts', hts, hts', hpaired⟩ := h.queue
  obtain ⟨us, us', hus, hus', hpaired'⟩ := h'.queue
  refine ⟨h.program.trans h'.program, h.left.trans h'.left, h.right.trans h'.right, ts ++ us,
    ts' ++ us', ?_, ?_, ?_⟩
  · rw [hus, hts, List.append_assoc]
  · rw [hus', hts', List.append_assoc]
  · exact List.rel_append (hpaired.imp fun _ _ ht => ht.mono id id
      (Accord.mine_mono h'.program.left.decls_size)) hpaired'

/-- The likeness of the two lifts. -/
def likeness (T : Tandem) (target : Target) (env env' : LiftEnv) : Likeness env env' where
  covers := T.share.ops
  strict := False
  atFile := T.accord.atFile
  state := T.Holds env.graph target
  leads := T.Leads
  leads_refl := .refl T
  leads_trans := .trans
  type w := Accord.types w.1.program w.2.program
  expr w := T.accord.exprs w.1.program w.2.program
  stmt w := T.accord.stmts w.1.program w.2.program
  decl w := (T.accord.pairing w.1.program).decl
  created w := T.accord.mine w.1.program
  noted w _ := T.accord.mine w.1.program

variable {T : Tandem} {target : Target} {env env' : LiftEnv} {w : Twin} {α α' : Type}

/-- Construction in accord is lifting in tandem. -/
theorem typed_runs {m : Check α} {m' : Check α'} {V : Program → Program → α → α' → Prop}
    (h : T.accord.Runs w.1.program w.2.program m m' V) :
    (T.likeness target env env').Makes w m m' fun v => V v.1.program v.2.program := by
  intro hw
  have hrun := h hw.kept
  unfold Together at hrun ⊢
  unfold Lift.typed
  dsimp only
  cases hm : m w.1.program <;> cases hm' : m' w.2.program <;> rw [hm, hm'] at hrun
  · obtain ⟨hkept, hleads, hv⟩ := hrun
    refine ⟨⟨hkept, ?_, ?_, ?_⟩, .quiet hleads (.of_eq rfl rfl rfl rfl) (.of_eq rfl rfl rfl rfl)
      rfl rfl, hv⟩
    · exact (hw.agrees.mono hleads.pairing).congr rfl rfl rfl rfl rfl rfl rfl rfl
    · exact hw.typed.1.later hleads.left.target hleads.left.types rfl
    · exact hw.typed.2.later hleads.right.target hleads.right.types rfl
  · exact hrun.elim
  · exact hrun.elim
  · exact False.elim

/-- Steps that leave programs, types and tasks alone. -/
theorem modify_runs {f f' : LiftState → LiftState} {V : Twin → PUnit → PUnit → Prop}
    (hf : ∀ s, (f s).program = s.program ∧ (f s).typeOf = s.typeOf ∧ (f s).queue = s.queue ∧
      s.Stays T.share (f s))
    (hf' : ∀ s, (f' s).program = s.program ∧ (f' s).typeOf = s.typeOf ∧ (f' s).queue = s.queue ∧
      s.Stays T.share (f' s))
    (hagrees : T.Holds env.graph target w →
      LiftState.Agrees (T.accord.pairing w.1.program) T.hidden (f w.1) (f' w.2))
    (hV : V (f w.1, f' w.2) ⟨⟩ ⟨⟩) :
    (T.likeness target env env').Runs w (modify f) (modify f') V := by
  intro hw
  obtain ⟨hp, ht, hq, hs⟩ := hf w.1
  obtain ⟨hp', ht', hq', hs'⟩ := hf' w.2
  refine Together.modify ⟨⟨?_, ?_, ?_, ?_⟩, .quiet ?_ hs hs' hq hq', hV⟩
  · rw [hp, hp']
    exact hw.kept
  · rw [hp]
    exact hagrees hw
  · exact hw.typed.1.later (by rw [hp]) (by rw [hp]; exact .refl _) ht
  · exact hw.typed.2.later (by rw [hp']) (by rw [hp']; exact .refl _) ht'
  · rw [hp, hp']
    exact .refl ..

theorem defer_runs {t t' : Task} (ht : t.Paired T.late T.reach (T.accord.mine w.1.program) t') :
    (T.likeness target env env').Runs w (Lift.defer t) (Lift.defer t') Likeness.anything := by
  intro hw
  refine Together.modify ⟨⟨hw.kept, ?_, ?_, ?_⟩, ⟨.refl .., .of_eq rfl rfl rfl rfl,
    .of_eq rfl rfl rfl rfl, [t], [t'], rfl, rfl, .cons ht .nil⟩, trivial⟩
  · exact hw.agrees.congr rfl rfl rfl rfl rfl rfl rfl rfl
  · exact hw.typed.1.later rfl (.refl _) rfl
  · exact hw.typed.2.later rfl (.refl _) rfl

/-! ### Every step -/

/-- The operations of the share are closed under what is lifted along with them, what they enter is in
the share, and what they read is not hidden. -/
structure Fits (T : Tandem) (g : Graph) : Prop where
  region {id o r} : T.share.ops id → g.op? id = some o → r ∈ o.regions → r ≠ g.body
  inner {id o c} : T.share.ops id → g.op? id = some o → o.kind? ≠ some .function →
    o.kind? ≠ some .var → c ∈ g.innerOps o → T.share.ops c
  fieldOps {id o c} : T.share.ops id → g.op? id = some o → o.kind? = some .record →
    c ∈ g.fieldOps o → T.share.ops c
  values {id o b} (i : Nat) : T.share.ops id → g.op? id = some o → g.entry? o = some b →
    T.share.values (.argument b i)
  names {id o n} : T.accord.atFile → T.share.ops id → g.op? id = some o → o.symbol? = some n →
    T.share.names n
  reach {id o r} : T.share.ops id → g.op? id = some o → g.filling? o = some r → T.reach r
  late {id o} : T.accord.atFile → T.share.ops id → g.op? id = some o → o.kind? ≠ some .function →
    T.late
  apart {id} : T.share.ops id → ¬ T.hidden.ops id
  operands {id o v} : T.share.ops id → g.op? id = some o → o.isDeclaration = false → v ∈ o.operands →
    ¬ T.hidden.values v ∧ ∀ c, v.definingOp? = some c → ¬ T.hidden.ops c
  symbols {id o} : T.share.ops id → g.op? id = some o → o.isDeclaration = false →
    ∀ n, ¬ T.hidden.names n

section Fits

variable {g g' : Graph} {naming : Naming} {showOps : Bool} {id : OpId} {o o' : Operation}

/-- Compared operations are the same in both graphs. -/
theorem shares_eq (hg : g.Reordered g')
    (h : (T.likeness target ⟨g, naming, showOps⟩ ⟨g', naming, showOps⟩).Shares id o o') : o' = o := by
  have hright := h.right
  rw [show (LiftEnv.mk g' naming showOps).graph.op? id = g.op? id from hg.op?_eq id,
    show g.op? id = some o from h.left] at hright
  exact (Option.some.inj hright).symm

theorem scope_paired {sc sc' : Scope} (h : (T.likeness target env env').scope w sc sc') :
    sc.Paired T.accord.atFile (T.accord.mine w.1.program) sc' := by
  match sc, sc', h with
  | .file, .file, h => exact h
  | .function _, .function _, ⟨_, h⟩ => exact h

/-- Alike sources of values: nothing where the value is no result, else what the tables hold. -/
theorem bind_rel {α : Type} {R : α → α → Prop} {x : Option OpId} {f f' : OpId → Option α}
    (h : ∀ c, x = some c → Option.Rel R (f c) (f' c)) : Option.Rel R (x.bind f) (x.bind f') := by
  cases x with
  | none => exact .none
  | some c => exact h c rfl

theorem Holds.asExpr {g : Graph} (hw : T.Holds g target w) {s s' : StmtId}
    (hs : (T.accord.pairing w.1.program).stmt s s') :
    Option.Rel (T.accord.pairing w.1.program).expr (w.1.program.asExpr? s) (w.2.program.asExpr? s') := by
  obtain ⟨hlt, hlt', hkind⟩ := hw.kept.matched.stmt hs
  have read {p : Program} {s : StmtId} (hlt : s < p.stmts.size) :
      p.stmts[s]? = some (p.stmt s) := by
    rw [Program.stmt, Array.getElem?_eq_getElem hlt]
    rfl
  unfold Program.asExpr?
  rw [read hlt, read hlt']
  generalize w.1.program.stmt s = x at hkind
  generalize w.2.program.stmt s' = x' at hkind
  obtain ⟨_, k⟩ := x
  obtain ⟨_, k'⟩ := x'
  cases hkind with
  | expr he => exact .some he
  | _ => exact .none

theorem Holds.exprOf {g : Graph} (hw : T.Holds g target w) {id : OpId} (hid : ¬ T.hidden.ops id) :
    Option.Rel (T.accord.pairing w.1.program).expr (w.1.exprOf? id) (w.2.exprOf? id) := by
  have hstmt := hw.agrees.opStmt hid
  unfold LiftState.exprOf?
  generalize w.1.opStmt.get? id = x at hstmt
  generalize w.2.opStmt.get? id = x' at hstmt
  cases hstmt with
  | none => exact .none
  | some h =>
      cases h with
      | none => exact .none
      | some h => exact hw.asExpr h

/-- Types are lifted to alike types, whatever was lifted before on either side. -/
theorem type_runs (hg : g.Reordered g') (id : TypeId) :
    (T.likeness target ⟨g, naming, showOps⟩ ⟨g', naming, showOps⟩).Runs w
      (Lift.type ⟨g, naming, showOps⟩ id) (Lift.type ⟨g', naming, showOps⟩ id)
      fun v => Accord.types v.1.program v.2.program := by
  intro hw
  have hl := @Lift.type_outcome ⟨g, naming, showOps⟩ target id _ hw.typed.1
  have hr := @Lift.type_outcome ⟨g', naming, showOps⟩ target id _
    ((LiftState.typesLifted_congr hg.types).mpr hw.typed.2)
  dsimp only at hl hr
  rw [hg.types] at hr
  refine Together.of_outcomes hl hr ?_ ?_ ?_ ?_
  · rintro t t' u u' ⟨⟨hu, htyped, hwithin⟩, -, ht⟩ ⟨⟨hu', htyped', hwithin'⟩, -, ht'⟩
    have hp := hu.program.continues T.accord.FreeLeft hwithin
    have hq := hu'.program.continues T.accord.FreeRight hwithin'
    have hkept : T.accord.Kept u.program u'.program := by
      obtain ⟨hdistinct, hdistinct'⟩ := hw.kept.matched.distinct
      obtain ⟨hrecordless, hrecordless'⟩ := hw.kept.matched.recordless
      exact hw.kept.retyped hu.program hu'.program hwithin hwithin'
        ⟨hu.distinct hdistinct, hu'.distinct hdistinct'⟩
        ⟨hu.recordless hrecordless, hu'.recordless hrecordless'⟩
    have hleads : T.accord.Leads w.1.program w.2.program u.program u'.program :=
      .quiet hp hq (by rw [hu.program]) (by rw [hu'.program])
    refine ⟨⟨hkept, ?_, htyped, (LiftState.typesLifted_congr hg.types).mp htyped'⟩,
      .quiet hleads (.of_eq hu.opStmt hu.opDecl hu.argDecl hu.symbols)
        (.of_eq hu'.opStmt hu'.opDecl hu'.argDecl hu'.symbols) hu.queue hu'.queue, ⟨_, ht, ht'⟩⟩
    exact (hw.agrees.mono hleads.pairing).congr hu.opStmt hu.opDecl hu.argDecl hu.symbols hu'.opStmt
      hu'.opDecl hu'.argDecl hu'.symbols
  · exact fun _ _ _ _ _ _ => False.elim
  · exact fun _ _ _ _ ⟨_, hnone, _⟩ hfault => hfault hnone
  · exact fun _ _ _ _ ⟨_, hnone, _⟩ hfault => hfault hnone

/-! ### Entering -/

theorem noteDecl_runs {d d' : DeclId} (hid : T.share.ops id) (hd : T.accord.mine w.1.program d d') :
    (T.likeness target env env').Runs w (Lift.noteDecl id d) (Lift.noteDecl id d')
      fun v _ _ => T.accord.mine v.1.program d d' := by
  have stays (d : DeclId) (s : LiftState) :
      s.Stays T.share { s with opDecl := s.opDecl.insert id d } :=
    ⟨fun _ => rfl, fun hi => get?_insert_outside hid hi .., fun _ => rfl, fun _ => rfl⟩
  refine modify_runs (fun s => ⟨rfl, rfl, rfl, stays d s⟩) (fun s => ⟨rfl, rfl, rfl, stays d' s⟩)
    (fun hw => ?_) hd
  exact { hw.agrees with
    opDecl := fun hi => optionRel_insert (Accord.mine_pairing hd) (hw.agrees.opDecl hi) }

theorem enter_runs {x x' : Option StmtId} (hid : T.share.ops id)
    (hx : Option.Rel (T.accord.pairing w.1.program).stmt x x') {f f' : LiftState → LiftState}
    (hf : ∀ s, f s = { s with opStmt := s.opStmt.insert id x, stats := (f s).stats })
    (hf' : ∀ s, f' s = { s with opStmt := s.opStmt.insert id x', stats := (f' s).stats }) :
    (T.likeness target env env').Runs w (modify f) (modify f') Likeness.anything := by
  have stays (x : Option StmtId) (stats : Stats) (s : LiftState) :
      s.Stays T.share { s with opStmt := s.opStmt.insert id x, stats } :=
    ⟨fun hi => get?_insert_outside hid hi .., fun _ => rfl, fun _ => rfl, fun _ => rfl⟩
  refine modify_runs (fun s => ?_) (fun s => ?_) (fun hw => ?_) trivial
  · rw [hf s]
    exact ⟨rfl, rfl, rfl, stays x _ s⟩
  · rw [hf' s]
    exact ⟨rfl, rfl, rfl, stays x' _ s⟩
  · rw [hf w.1, hf' w.2]
    exact { hw.agrees with opStmt := fun hi => optionRel_insert hx (hw.agrees.opStmt hi) }

/-- Steps that only count or note names. -/
theorem note_runs {f : LiftState → LiftState}
    (hf : ∀ s, f s = { s with stats := (f s).stats, names := (f s).names }) :
    (T.likeness target env env').Runs w (modify f) (modify f) Likeness.anything := by
  refine modify_runs (fun s => ?_) (fun s => ?_) (fun hw => ?_) trivial
  · rw [hf s]
    exact ⟨rfl, rfl, rfl, .of_eq rfl rfl rfl rfl⟩
  · rw [hf s]
    exact ⟨rfl, rfl, rfl, .of_eq rfl rfl rfl rfl⟩
  · rw [hf w.1, hf w.2]
    exact hw.agrees.congr rfl rfl rfl rfl rfl rfl rfl rfl

/-- A declaration is listed, and the operation is noted as its origin. -/
theorem list_runs (hform : g.Formed) (hg : g.Reordered g') {sc sc' : Scope} {d d' : DeclId}
    (hsc : (T.likeness target ⟨g, naming, showOps⟩ ⟨g', naming, showOps⟩).scope w sc sc')
    (hshares : (T.likeness target ⟨g, naming, showOps⟩ ⟨g', naming, showOps⟩).Shares id o o')
    (hd : T.accord.mine w.1.program d d') :
    (T.likeness target ⟨g, naming, showOps⟩ ⟨g', naming, showOps⟩).Runs w
      (do Lift.typed (Check.addDecl sc d); Lift.noteDecl o.id d)
      (do Lift.typed (Check.addDecl sc' d'); Lift.noteDecl o'.id d')
      fun v _ _ => T.accord.mine v.1.program d d' := by
  obtain rfl := shares_eq hg hshares
  have hid : o'.id = id := hform.op_id _ _ hshares.left
  rw [hid]
  refine .bind (typed_runs (Accord.addDecl_runs (scope_paired hsc) (Accord.mine_pairing hd)))
    fun _ _ v hv _ => ?_
  exact noteDecl_runs hshares.covers (Accord.mine_mono hv.program.left.decls_size hd)

theorem symbol_runs {n : String} {d d' : DeclId} (hn : T.share.names n)
    (hd : T.accord.mine w.1.program d d') :
    (T.likeness target env env').Runs w
      (modify fun s => { s with symbols := s.symbols.insert n d })
      (modify fun s => { s with symbols := s.symbols.insert n d' }) Likeness.anything := by
  have stays (d : DeclId) (s : LiftState) :
      s.Stays T.share { s with symbols := s.symbols.insert n d } :=
    ⟨fun _ => rfl, fun _ => rfl, fun _ => rfl, fun hi => get?_insert_outside hn hi ..⟩
  refine modify_runs (fun s => ⟨rfl, rfl, rfl, stays d s⟩) (fun s => ⟨rfl, rfl, rfl, stays d' s⟩)
    (fun hw => ?_) trivial
  exact { hw.agrees with
    symbols := fun hi => optionRel_insert (Accord.mine_pairing hd) (hw.agrees.symbols hi) }

theorem argument_runs {v : Value} {d d' : DeclId} (hv : T.share.values v)
    (hd : (T.accord.pairing w.1.program).decl d d') :
    (T.likeness target env env').Runs w
      (modify fun s => { s with argDecl := s.argDecl.insert v d })
      (modify fun s => { s with argDecl := s.argDecl.insert v d' }) Likeness.anything := by
  have stays (d : DeclId) (s : LiftState) :
      s.Stays T.share { s with argDecl := s.argDecl.insert v d } :=
    ⟨fun _ => rfl, fun _ => rfl, fun hi => get?_insert_outside hv hi .., fun _ => rfl⟩
  refine modify_runs (fun s => ⟨rfl, rfl, rfl, stays d s⟩) (fun s => ⟨rfl, rfl, rfl, stays d' s⟩)
    (fun hw => ?_) trivial
  exact { hw.agrees with argDecl := fun hi => optionRel_insert hd (hw.agrees.argDecl hi) }

/-- A symbol is registered at file level only, where its name is in the share. -/
theorem Fits.register_runs (h : T.Fits g) (hg : g.Reordered g') {sc sc' : Scope} {d d' : DeclId}
    (hsc : (T.likeness target ⟨g, naming, showOps⟩ ⟨g', naming, showOps⟩).scope w sc sc')
    (hshares : (T.likeness target ⟨g, naming, showOps⟩ ⟨g', naming, showOps⟩).Shares id o o')
    (hd : T.accord.mine w.1.program d d') :
    (T.likeness target ⟨g, naming, showOps⟩ ⟨g', naming, showOps⟩).Runs w
      (Lift.registerSymbol sc o d) (Lift.registerSymbol sc' o' d') Likeness.anything := by
  obtain rfl := shares_eq hg hshares
  match sc, sc', scope_paired hsc with
  | .function _, .function _, _ => exact .pure trivial
  | .file, .file, hfile =>
      unfold Lift.registerSymbol
      rw [if_pos rfl, if_pos rfl]
      cases hs : o'.symbol? with
      | none => exact .pure trivial
      | some n => exact symbol_runs (h.names hfile hshares.covers hshares.left hs) hd

/-- The tasks that fill alike declarations of one operation are paired. -/
theorem Fits.filler_runs (h : T.Fits g) {sc sc' : Scope} {d d' : DeclId} {r : RegionId}
    (hsc : (T.likeness target ⟨g, naming, showOps⟩ ⟨g', naming, showOps⟩).scope w sc sc')
    (hshares : (T.likeness target ⟨g, naming, showOps⟩ ⟨g', naming, showOps⟩).Shares id o o')
    (hd : T.accord.mine w.1.program d d') (hr : g.filling? o = some r) :
    (T.likeness target ⟨g, naming, showOps⟩ ⟨g', naming, showOps⟩).Runs w
      (Lift.defer (o.filler sc d r)) (Lift.defer (o.filler sc' d' r)) Likeness.anything := by
  have hreach := h.reach hshares.covers hshares.left hr
  refine defer_runs ?_
  unfold Operation.filler
  split
  · exact .body hd hreach
  · next hk =>
      have hscope := scope_paired hsc
      refine .init ?_ hd hreach
      match sc, sc', hscope with
      | .file, .file, hfile => exact h.late hfile hshares.covers hshares.left hk
      | .function _, .function _, hf => exact hf

/-! ### Whole likenesses -/

theorem likeness_lasting : (T.likeness target env env').Lasting where
  type_mono hl ht := hl.program.types ht
  expr_mono hl he := hl.program.pairing.expr he
  stmt_mono hl hs := hl.program.pairing.stmt hs
  decl_mono hl hd := hl.program.pairing.decl hd
  noted_mono hl hd := Accord.mine_mono hl.program.left.decls_size hd

theorem Fits.mirrors (h : T.Fits g) (hg : g.Reordered g') :
    (T.likeness target ⟨g, naming, showOps⟩ ⟨g', naming, showOps⟩).Mirrors where
  op {id} _ := by
    rw [show (LiftEnv.mk g' naming showOps).graph.op? id = g.op? id from hg.op?_eq id]
    dsimp only
    cases g.op? id with
    | none => exact .none
    | some o => exact .some ⟨o.parent, rfl⟩
  types := hg.types
  naming hshares _ _ := by rw [shares_eq hg hshares]
  dump := False.elim
  hasUses _ := hg.hasUses_eq _
  region {_ _ _ r} hshares hr :=
    ⟨hg.region?_eq r, hg.inner (h.region hshares.covers hshares.left hr)⟩
  inner hshares := h.inner hshares.covers hshares.left
  fieldOps hshares := h.fieldOps hshares.covers hshares.left

theorem Fits.recalls (h : T.Fits g) :
    (T.likeness target ⟨g, naming, showOps⟩ ⟨g', naming, showOps⟩).Recalls where
  lifted hw hid := hw.agrees.opStmt (h.apart hid)
  declared hw hshares hdecl hv := bind_rel fun c hc =>
    hw.agrees.opDecl ((h.operands hshares.covers hshares.left hdecl hv).2 c hc)
  source hw hshares hdecl hv := bind_rel fun c hc =>
    hw.exprOf ((h.operands hshares.covers hshares.left hdecl hv).2 c hc)
  argument hw hshares hdecl hv :=
    hw.agrees.argDecl (h.operands hshares.covers hshares.left hdecl hv).1
  symbol hw hshares hdecl name :=
    hw.agrees.symbols (h.symbols hshares.covers hshares.left hdecl name)
  asExpr hw hs := hw.asExpr hs
  exprStmt hw he := (hw.kept.matched.expr he).2.2.stmt

theorem likeness_notes : (T.likeness target env env').Notes where
  hit _ := note_runs fun _ => rfl
  enter hid hx := enter_runs hid hx (fun _ => rfl) fun _ => rfl
  name _ _ _ := note_runs fun _ => rfl

theorem likeness_exprs (hg : g.Reordered g') :
    (T.likeness target ⟨g, naming, showOps⟩ ⟨g', naming, showOps⟩).BuildsExprs where
  type _ id := type_runs hg id
  declRef hd := typed_runs (Accord.declRef_runs hd)
  integer i ht := typed_runs (Accord.integer_runs i ht)
  floating x ht := typed_runs (Accord.floating_runs x ht)
  text _ s := typed_runs (Accord.text_runs s)
  cast style c category ht he := typed_runs (Accord.cast_runs style c category ht he)
  unary op he := typed_runs (Accord.unary_runs op he)
  binary op hl hr := typed_runs (Accord.binary_runs op hl hr)
  initList ht hes := typed_runs (Accord.initList_runs ht hes)
  call he hes := typed_runs (Accord.call_runs he hes)

theorem likeness_stmts : (T.likeness target env env').BuildsStmts where
  leaf w k hk := typed_runs <| Accord.pushStmt_runs <| by
    simp only [List.mem_cons, List.not_mem_nil, or_false] at hk
    obtain rfl | rfl | rfl := hk
    · exact .breaks
    · exact .continues
    · exact .empty
  declares hd := typed_runs (Accord.pushStmt_runs (.declares (Accord.mine_pairing hd)))
  compound hxs := typed_runs (Accord.compound_runs hxs)
  returns hf he := typed_runs (Accord.returns_runs (Accord.mine_pairing hf) he)
  ifElse hc hy hn := typed_runs (Accord.ifElse_runs hc hy hn)
  whileLoop hc hs := typed_runs (Accord.whileLoop_runs hc hs)
  doLoop hc hs := typed_runs (Accord.doLoop_runs hs hc)
  forLoop hc hi hs := typed_runs (Accord.forLoop_runs hc hi hs)

theorem Fits.declares (h : T.Fits g) (hform : g.Formed) (hg : g.Reordered g') :
    (T.likeness target ⟨g, naming, showOps⟩ ⟨g', naming, showOps⟩).Declares where
  functionDecl name _ ht := typed_runs (Accord.functionDecl_runs name _ _ ht)
  varDecl name storage _ ht := typed_runs (Accord.varDecl_runs name storage _ _ ht)
  recordDecl name _ := typed_runs (Accord.recordDecl_runs name _ _)
  list hsc hshares hd := list_runs hform hg hsc hshares hd
  register hsc hshares hd := h.register_runs hg hsc hshares hd
  param name index _ ht := typed_runs <|
    (Accord.param_runs name index _ _ ht).imp fun _ _ _ _ hd => Accord.mine_pairing hd
  bind index hshares hb hd := argument_runs (h.values index hshares.covers hshares.left hb) hd
  setParams hf hps := typed_runs (Accord.setParams_runs hf hps)
  field name hr ht := typed_runs (Accord.fieldDecl_runs name hr ht)
  enterField hid hd :=
    .bind (noteDecl_runs hid hd) fun _ _ _ _ _ => enter_runs hid .none (fun _ => rfl) fun _ => rfl

theorem Fits.fills (h : T.Fits g) :
    (T.likeness target ⟨g, naming, showOps⟩ ⟨g', naming, showOps⟩).Fills where
  defer hsc hshares hd hr := h.filler_runs hsc hshares hd hr
  setBody hf hs := typed_runs (Accord.setBody_runs hf hs)
  setInit hd he := typed_runs (Accord.setInit_runs hd he)

/-- Where the shares fit the graph, all steps of the lifts respect their likeness. -/
theorem Fits.respected (h : T.Fits g) (hform : g.Formed) (hg : g.Reordered g') :
    (T.likeness target ⟨g, naming, showOps⟩ ⟨g', naming, showOps⟩).Respected where
  toLasting := likeness_lasting
  toMirrors := h.mirrors hg
  toRecalls := h.recalls
  toNotes := likeness_notes
  toBuildsExprs := likeness_exprs hg
  toBuildsStmts := likeness_stmts
  toDeclares := h.declares hform hg
  toFills := h.fills

end Fits

end Tandem

end Readback
