import Readback.Proofs.Lift.Region

/-! # Lifting declarations

What the rules for functions, variables and records do to the tables of a lift, in a form from which the
invariant of the lift can be kept.

* `Declaring g s id o d t` says that `t` comes from `s` by declaring `d` for the operation `o` at `id`:
  the operation gets the new declaration `d`, its symbol and its parameters become known, and what fills
  the declaration is put off. The fields of a record are declared with it (`FieldOf`).
* `Introduces` is the part that the three rules have in common. A declaration is made, listed and noted
  for its operation, and its symbol is registered (`introduce_gives`).
* `AddsParams` is what follows for functions: the parameters are made one after the other and noted for
  the arguments of the entry block (`LiftState.Declaring.withParams`).
* `LiftState.Declaring.field` declares one more field of a record, and `LiftState.Declaring.defer` puts
  the task off that fills the declaration (`Fills`).

The program is still being built while these steps are made, and completing a declaration changes it
(`Program.Extends.setDeclKind`); that is why the relation speaks of the state in which it started.

From a state that comes by declaring, the operation can be recorded: `Inv.record_decl` keeps the
invariant, and says whose declaration every declaration is (`LiftState.Declaring.entry`). The lemmas
`function_records`, `var_records` and `record_records` are the rules as a whole, together with the
statement that a declaration in a function leaves (`declStmt_gives`). -/

namespace Readback

open Step LiftState

namespace LiftState

/-- The operation is a field that was declared after `s`. -/
structure FieldOf (g : Graph) (s t : LiftState) (id x : OpId) (d : DeclId) : Prop where
  kind : g.kind? x = some .field
  above : id < x
  noted : t.opDecl.get? x = some d
  opStmt : t.opStmt.get? x = some none
  new : s.program.decls.size ≤ d
  known : d < t.program.decls.size
  notValue : ¬ (t.program.decl d).kind.IsValue

/-- The state `t` comes from `s` by declaring `d` for the operation `o` at `id` and putting off
`tasks`. -/
structure Declaring (g : Graph) (s : LiftState) (id : OpId) (o : Operation) (d : DeclId)
    (tasks : List Task) (t : LiftState) : Prop where
  program : s.program.Extends t.program
  new : s.program.decls.size ≤ d
  known : d < t.program.decls.size
  declares : ∃ k, o.kind? = some k ∧ k ≠ .field ∧ k.Declares (t.program.decl d).kind
  slot : (t.program.decl d).kind.slot = none
  opStmt : ∀ x, t.opStmt.get? x = s.opStmt.get? x ∨ ∃ c, s.FieldOf g t id x c
  noted : t.opDecl.get? id = some d
  opDecl : ∀ x, x ≠ id → t.opDecl.get? x = s.opDecl.get? x ∨ ∃ c, s.FieldOf g t id x c
  inj : ∀ x x' c, s.program.decls.size ≤ c → t.opDecl.get? x = some c →
    t.opDecl.get? x' = some c → x = x'
  args : ∀ v x, t.argDecl.get? v = some x → s.argDecl.get? v = some x ∨ t.ParamOf g v x
  argDecl : ∀ v x, s.argDecl.get? v = some x → (∀ k b, g.entry? o = some b → v ≠ .argument b k) →
    t.argDecl.get? v = some x
  symbols : ∀ name x, t.symbols.get? name = some x →
    s.symbols.get? name = some x ∨ t.Named g name x
  kept : ∀ name x, s.symbols.get? name = some x →
    ∃ y, t.symbols.get? name = some y ∧ (y = x ∨ y = d)
  queue : t.queue.pending = s.queue.pending ++ tasks
  typeOf : ∀ id type, s.typeOf.get? id = some type → t.typeOf.get? id = some type

end LiftState

/-- The tasks fill the declaration `d` of the operation `o`. -/
def Fills (g : Graph) (o : Operation) (d : DeclId) (tasks : List Task) : Prop :=
  tasks.map Task.region = (g.filling? o).toList ∧
    ∀ task ∈ tasks, task.decl = d ∧ (o.kind? = some .function ↔ task.isBody = true)

section Record

variable {g : Graph} {extra : List Task} {s t : LiftState} {id : OpId} {o : Operation} {d : DeclId}
  {tasks : List Task}

/-- What a field became. -/
theorem Inv.field_silent (h : Inv g extra s) {x : OpId} (hk : g.kind? x = some .field)
    {r : Option StmtId} (hx : s.opStmt.get? x = some r) : r = none := by
  obtain ⟨q, hq, hs⟩ := h.shown x r hx
  have hkind : q.kind? = some .field := by simpa [Graph.kind?, hq] using hk
  cases hs with
  | expr _ _ node => simpa [hkind, Kind.isExpr] using node.isExpr
  | stmt _ node => cases node <;> simp_all
  | silent => rfl

/-- Declaring and recording only add to the state. -/
theorem LiftState.Declaring.grows (hform : g.Formed) (h : Inv g extra s) (hd : s.Declaring g id o d tasks t)
    (hop : g.op? id = some o) (hid : s.opStmt.get? id = none) {r : Option StmtId}
    (hr : ∀ i, r = some i → s.program.stmts.size ≤ i) : Grows g id s (t.recorded id r) where
  program := hd.program.grows
  below x hx := by
    show (t.opStmt.insert id r).get? x = _
    rw [Dict.get?_insert, if_neg (Nat.ne_of_gt hx)]
    obtain hsame | ⟨c, hc⟩ := hd.opStmt x
    · exact hsame
    · exact absurd hc.above (Nat.lt_asymm hx)
  opStmt x l hx := by
    show (t.opStmt.insert id r).get? x = _
    rw [Dict.get?_insert]
    split
    · next heq =>
        rw [← heq, hid] at hx
        cases hx
    · obtain hsame | ⟨c, hc⟩ := hd.opStmt x
      · exact hsame.trans hx
      · rw [hc.opStmt, h.field_silent hc.kind hx]
  opDecl x c hk hx := by
    have hne : x ≠ id := by
      rintro rfl
      obtain ⟨l, hl⟩ := h.noted x c hx
      rw [hid] at hl
      cases hl
    obtain hsame | ⟨c', hc⟩ := hd.opDecl x hne
    · exact hsame.trans hx
    · exact absurd hc.kind hk
  argDecl v x hv := by
    refine hd.argDecl v x hv fun k b hb hvb => ?_
    -- The operation of the parameter would be this one, which has not been lifted.
    obtain ⟨f, q, b', k', d', _, _, _, _, hq, _, hb', hv', hf, _⟩ := h.args v x hv
    rw [hvb] at hv'
    cases hv'
    cases hform.entry_unique hop hq hb hb'
    obtain ⟨l, hl⟩ := h.noted _ _ hf
    rw [hid] at hl
    cases hl
  typeOf := hd.typeOf
  fresh x i hx hi := by
    have hx : (t.opStmt.insert id r).get? x = some (some i) := hx
    rw [Dict.get?_insert] at hx
    split at hx
    · cases hx
      exact absurd hi (Nat.not_lt.mpr (hr i rfl))
    · obtain hsame | ⟨c, hc⟩ := hd.opStmt x
      · exact ⟨x, hsame ▸ hx⟩
      · rw [hc.opStmt] at hx
        cases hx
  symbols name x hx := by
    obtain ⟨y, hy, rfl | rfl⟩ := hd.kept name x hx
    · exact ⟨y, hy, .inl rfl⟩
    · exact ⟨y, hy, .inr hd.new⟩
  cited x q l name y hq hname hs hx _ := by
    -- Only the operation itself and fields were lifted, and they cite nothing.
    obtain ⟨k, hk, -, hdecl⟩ := hd.declares
    have hx : (t.opStmt.insert id r).get? x = some l := hx
    rw [Dict.get?_insert] at hx
    split at hx
    · next heq =>
        subst heq
        cases hop.symm.trans hq
        cases k <;> first
          | exact hdecl.elim
          | cases (o.cited?_eq_none ⟨_, hk, rfl⟩ rfl).symm.trans hname
    · obtain hsame | ⟨c, hc⟩ := hd.opStmt x
      · rw [hsame, hs] at hx
        cases hx
      · have hkind : q.kind? = some .field := by simpa [Graph.kind?, hq] using hc.kind
        cases (q.cited?_eq_none ⟨_, hkind, rfl⟩ rfl).symm.trans hname

/-- Whose declaration `c` is. -/
theorem LiftState.Declaring.entry (hd : s.Declaring g id o d tasks t) {x : OpId} {c : DeclId}
    (hx : t.opDecl.get? x = some c) : x = id ∧ c = d ∨ s.opDecl.get? x = some c ∨
      s.FieldOf g t id x c := by
  by_cases hne : x = id
  · subst hne
    exact .inl ⟨rfl, Option.some.inj (hx.symm.trans hd.noted)⟩
  · obtain hsame | ⟨c', hf⟩ := hd.opDecl x hne
    · exact .inr (.inl (hsame ▸ hx))
    · cases hf.noted.symm.trans hx
      exact .inr (.inr hf)

theorem LiftState.Declaring.decls_inj (h : Inv g extra s) (hd : s.Declaring g id o d tasks t)
    {x x' : OpId} {c : DeclId} (hx : t.opDecl.get? x = some c) (hx' : t.opDecl.get? x' = some c) :
    x = x' := by
  -- Declarations of `s` are where they were, and the others are told apart by the step.
  have old : ∀ {y}, t.opDecl.get? y = some c → c < s.program.decls.size →
      s.opDecl.get? y = some c := by
    intro y hy hlt
    obtain ⟨-, rfl⟩ | hs | hf := hd.entry hy
    · exact absurd hlt (Nat.not_lt.mpr hd.new)
    · exact hs
    · exact absurd hlt (Nat.not_lt.mpr hf.new)
  by_cases hlt : c < s.program.decls.size
  · exact h.decls_inj x x' c (old hx hlt) (old hx' hlt)
  · exact hd.inj x x' c (Nat.le_of_not_lt hlt) hx hx'

/-- A field has nothing that fills it. -/
theorem Graph.filling?_field {x : OpId} {q : Operation} (hq : g.op? x = some q)
    (hk : g.kind? x = some .field) : g.filling? q = none := by
  have hkind : q.kind? = some .field := by simpa [Graph.kind?, hq] using hk
  rw [Graph.filling?, hkind]

theorem DeclKind.slot_of_not_isValue {k : DeclKind} (h : ¬ k.IsValue) : k.slot = none := by
  cases k <;> first | rfl | exact absurd trivial h

/-- Recording what a declaring operation became. -/
theorem Inv.record_decl (hform : g.Formed) (h : Inv g extra s) (hd : s.Declaring g id o d tasks t)
    (hfills : Fills g o d tasks) (hop : g.op? id = some o) (hid : s.opStmt.get? id = none) {r : Option StmtId}
    (hr : ∀ i, r = some i → s.program.stmts.size ≤ i) (hs : Shown g (t.recorded id r) o r) :
    Recorded g extra s id r t := by
  have hg : Grows g id s (t.recorded id r) := hd.grows hform h hop hid hr
  obtain ⟨hregions, htasks⟩ := hfills
  have howed : (t.recorded id r).owed extra = s.owed extra ++ tasks := by
    show extra ++ t.queue.pending = _
    rw [hd.queue, owed, List.append_assoc]
  have hget : ∀ x, (t.recorded id r).opStmt.get? x =
      if id = x then some r else t.opStmt.get? x := fun x => Dict.get?_insert ..
  have hentry : ∀ {x c}, (t.recorded id r).opDecl.get? x = some c → _ := fun hx => hd.entry hx
  refine ⟨?_, hg⟩
  constructor
  case twinned => exact hd.program.twinned h.twinned
  case shown =>
    intro x l hx
    rw [hget] at hx
    split at hx
    · next heq =>
        cases hx
        exact ⟨o, heq ▸ hop, hs⟩
    · obtain hsame | ⟨c, hc⟩ := hd.opStmt x
      · obtain ⟨q, hq, hshown⟩ := h.shown x l (hsame ▸ hx)
        refine ⟨q, hq, hshown.mono ?_ hg⟩
        rw [hform.op_id x q hq]
        exact hq
      · cases hc.opStmt.symm.trans hx
        obtain ⟨q, hq, hk⟩ := Option.bind_eq_some_iff.mp hc.kind
        exact ⟨q, hq, .silent (.name (.inl hk))⟩
  case decls =>
    intro x c hx
    obtain ⟨rfl, rfl⟩ | hold | hf := hentry hx
    · obtain ⟨k, hk, -, hdecl⟩ := hd.declares
      exact ⟨hd.known, k, by simp [Graph.kind?, hop, hk], hdecl⟩
    · exact (h.decls x c hold).mono hg
    · exact ⟨hf.known, .field, hf.kind, hf.notValue⟩
  case noted =>
    intro x c hx
    rw [hget]
    split
    · exact ⟨r, rfl⟩
    · next hne =>
        obtain ⟨rfl, -⟩ | hold | hf := hentry hx
        · exact absurd rfl hne
        · obtain ⟨l, hl⟩ := h.noted x c hold
          have := hg.opStmt x l hl
          rw [hget, if_neg hne] at this
          exact ⟨l, this⟩
        · exact ⟨none, hf.opStmt⟩
  case decls_inj => exact fun x x' c hx hx' => hd.decls_inj h hx hx'
  case args =>
    intro v x hv
    obtain hold | hnew := hd.args v x hv
    · exact (h.args v x hold).mono hg
    · exact hnew
  case symbols =>
    intro name c hname
    obtain hold | hnew := hd.symbols name c hname
    · exact (h.symbols name c hold).mono hg
    · exact hnew
  case filled =>
    intro f q c r' hq hf hr'
    rw [howed]
    obtain ⟨rfl, rfl⟩ | hold | hfield := hentry hf
    · cases hop.symm.trans hq
      have hmem : r' ∈ tasks.map Task.region := by simp [hregions, hr']
      obtain ⟨task, htask, hregion⟩ := List.mem_map.mp hmem
      exact .inr ⟨task, List.mem_append_right _ htask, (htasks task htask).1, hregion⟩
    · obtain hfill | ⟨task, hmem, htask⟩ := h.filled f q c r' hq hold hr'
      · exact .inl (hfill.mono (h.decls f c hold).1 hg hd.program.slots)
      · exact .inr ⟨task, List.mem_append_left _ hmem, htask⟩
    · rw [Graph.filling?_field hq hfield.kind] at hr'
      cases hr'
  case vacant =>
    intro f q c hq hf hr'
    obtain ⟨rfl, rfl⟩ | hold | hfield := hentry hf
    · exact hd.slot
    · exact (hd.program.slots c (h.decls f c hold).1).trans (h.vacant f q c hq hold hr')
    · exact DeclKind.slot_of_not_isValue hfield.notValue
  case tasks =>
    intro task hmem
    rw [howed] at hmem
    obtain hold | hnew := List.mem_append.mp hmem
    · obtain ⟨f, q, hq, hf, hfill, hbody⟩ := h.tasks task hold
      refine ⟨f, q, hq, hg.opDecl f _ (fun hk => ?_) hf, hfill, hbody⟩
      rw [Graph.filling?_field hq hk] at hfill
      cases hfill
    · obtain ⟨hdecl, hbody⟩ := htasks task hnew
      refine ⟨id, o, hop, by rw [hdecl]; exact hd.noted, ?_, hbody⟩
      have hmem' : task.region ∈ (g.filling? o).toList := hregions ▸ List.mem_map_of_mem hnew
      simpa using hmem'

end Record

/-! ### Introducing a declaration -/

namespace LiftState

/-- The state `t` comes from `s` by introducing `d`, noted for the operation `o`. -/
structure Introduces (s : LiftState) (scope : Scope) (o : Operation) (d : DeclId)
    (t : LiftState) : Prop where
  program : s.program.Extends t.program
  new : s.program.decls.size ≤ d
  known : d < t.program.decls.size
  place : (t.program.decl d).scope = scope
  opStmt : t.opStmt = s.opStmt
  opDecl : t.opDecl = s.opDecl.insert o.id d
  argDecl : t.argDecl = s.argDecl
  symbols : ∀ name x, t.symbols.get? name = some x →
    s.symbols.get? name = some x ∨ scope = .file ∧ o.symbol? = some name ∧ x = d
  kept : ∀ name x, s.symbols.get? name = some x →
    ∃ y, t.symbols.get? name = some y ∧ (y = x ∨ y = d)
  queue : t.queue.pending = s.queue.pending
  typeOf : ∀ id type, s.typeOf.get? id = some type → t.typeOf.get? id = some type

theorem Introduces.after {s s' t : LiftState} {scope : Scope} {o : Operation} {d : DeclId}
    (h : s'.Introduces scope o d t) (hb : s.Builds s') : s.Introduces scope o d t where
  program := hb.program.trans h.program
  new := Nat.le_trans hb.program.grows.decls_size h.new
  known := h.known
  place := h.place
  opStmt := h.opStmt.trans hb.opStmt
  opDecl := hb.opDecl ▸ h.opDecl
  argDecl := h.argDecl.trans hb.argDecl
  symbols := hb.symbols ▸ h.symbols
  kept := hb.symbols ▸ h.kept
  queue := h.queue.trans hb.queue
  typeOf id type hid := h.typeOf id type (hb.typeOf id type hid)

/-- What has been introduced is declared. Only functions and variables have symbols. -/
theorem Introduces.declaring {g : Graph} {extra : List Task} {s t : LiftState} {scope : Scope}
    {o : Operation} {d : DeclId} (h : Inv g extra s) (hi : s.Introduces scope o d t)
    (hop : g.op? o.id = some o) {k : Kind} (hk : o.kind? = some k) (hfield : k ≠ .field)
    (hsymbols : k = .function ∨ k = .var ∨ t.symbols = s.symbols)
    (declares : k.Declares (t.program.decl d).kind)
    (slot : (t.program.decl d).kind.slot = none) : s.Declaring g o.id o d [] t := by
  have hget : ∀ x, t.opDecl.get? x = if o.id = x then some d else s.opDecl.get? x := by
    intro x
    rw [hi.opDecl, Dict.get?_insert]
  have hself : t.opDecl.get? o.id = some d := by rw [hget, if_pos rfl]
  constructor
  case program => exact hi.program
  case new => exact hi.new
  case known => exact hi.known
  case declares => exact ⟨k, hk, hfield, declares⟩
  case slot => exact slot
  case opStmt => exact fun x => .inl (by rw [hi.opStmt])
  case noted => exact hself
  case opDecl => exact fun x hx => .inl (by rw [hget, if_neg (Ne.symm hx)])
  case inj =>
    -- Nothing but `o` was noted.
    have only : ∀ {y c}, s.program.decls.size ≤ c → t.opDecl.get? y = some c → o.id = y := by
      intro y c hc hy
      rw [hget] at hy
      split at hy
      · next heq => exact heq
      · exact absurd (h.decls y c hy).1 (Nat.not_lt.mpr hc)
    exact fun x x' c hc hx hx' => (only hc hx).symm.trans (only hc hx')
  case args => exact fun v x hv => .inl (hi.argDecl ▸ hv)
  case argDecl => exact fun v x hv _ => hi.argDecl ▸ hv
  case symbols =>
    intro name x hx
    obtain hold | ⟨hscope, hsym, rfl⟩ := hi.symbols name x hx
    · exact .inl hold
    · have hnamed : o.kind? = some .function ∨ o.kind? = some .var → t.Named g name x := fun hk' =>
        ⟨o.id, o, hop, hk', hsym, hself, hi.known, hi.place.trans hscope⟩
      obtain rfl | rfl | hsame := hsymbols
      · exact .inr (hnamed (.inl hk))
      · exact .inr (hnamed (.inr hk))
      · exact .inl (hsame ▸ hx)
  case kept => exact hi.kept
  case queue => rw [hi.queue, List.append_nil]
  case typeOf => exact hi.typeOf

end LiftState

namespace Lift

section Introduce

variable {s : LiftState}

theorem registerSymbol_gives {t : LiftState} {scope : Scope} {o : Operation} {d : DeclId}
    (hi : s.Introduces scope o d t) : Gives (registerSymbol scope o d) t fun _ u =>
      s.Introduces scope o d u ∧ u.program = t.program := by
  unfold registerSymbol
  split
  · next hscope =>
      split
      · next sym hsym =>
          refine ⟨{ hi with symbols := fun name x hx => ?_, kept := fun name x hx => ?_ }, rfl⟩
          · have hx : (t.symbols.insert sym d).get? name = some x := hx
            rw [Dict.get?_insert] at hx
            split at hx
            · next heq =>
                cases hx
                exact .inr ⟨hscope, heq ▸ hsym, rfl⟩
            · exact hi.symbols name x hx
          · show ∃ y, (t.symbols.insert sym d).get? name = some y ∧ _
            rw [Dict.get?_insert]
            split
            · exact ⟨d, rfl, .inr rfl⟩
            · exact hi.kept name x hx
      · exact .pure ⟨hi, rfl⟩
  · exact .pure ⟨hi, rfl⟩

theorem noteDecl_gives (id : OpId) (d : DeclId) : Gives (noteDecl id d) s fun _ t =>
    t = { s with opDecl := s.opDecl.insert id d } := by
  exact rfl

/-- What follows after a declaration has been introduced. -/
theorem introduce_gives {β : Type} {m : Check DeclId} {scope : Scope} {o : Operation}
    {name : String} {kind : DeclKind} {f : DeclId → Lift β} {Q : β → LiftState → Prop}
    (hm : Gives m s.program fun d q => s.program.Extends q ∧ d = s.program.decls.size ∧
      q.decls.size = d + 1 ∧ q.decl d = ⟨d, name, scope, kind⟩)
    (hf : ∀ d t, s.Introduces scope o d t → t.symbols = s.symbols →
      (t.program.decl d).kind.settled = kind.settled → (t.program.decl d).kind.slot = kind.slot →
      Gives (f d) t Q) :
    Gives (do
      let decl ← typed m
      typed (Check.addDecl scope decl)
      noteDecl o.id decl
      f decl) s Q := by
  refine (typed_gives hm).bind ?_
  rintro d u ⟨hb, hd, hsize, hdecl⟩
  have hknown : d < u.program.decls.size := hsize ▸ Nat.lt_succ_self d
  refine (typed_gives (Check.addDecl_gives scope d)).bind ?_
  rintro _ v ⟨hb', hsize'⟩
  have hset := hb'.program.grows.decls d hknown
  have hslot := hb'.program.slots d hknown
  rw [hdecl] at hset hslot
  have hbv := hb.trans hb'
  refine (noteDecl_gives o.id d).bind ?_
  rintro _ t rfl
  refine hf d _ ?_ hbv.symbols hset.2 hslot
  exact
    { program := hbv.program
      new := Nat.le_of_eq hd.symm
      known := Nat.lt_of_lt_of_le hknown hb'.program.grows.decls_size
      place := hset.1
      opStmt := hbv.opStmt
      opDecl := congrArg (·.insert o.id d) hbv.opDecl
      argDecl := hbv.argDecl
      symbols := fun name x hx => .inl (hbv.symbols ▸ hx)
      kept := fun name x hx => ⟨x, hbv.symbols ▸ hx, .inl rfl⟩
      queue := hbv.queue
      typeOf := hbv.typeOf }

end Introduce

/-! ### Functions -/

/-- The state `t` comes from `s` by adding the parameters in the list, from an index on. -/
structure AddsParams (s : LiftState) (entry : Option BlockId) (index : Nat) (list : List DeclId)
    (t : LiftState) : Prop where
  program : s.program.Extends t.program
  opStmt : t.opStmt = s.opStmt
  opDecl : t.opDecl = s.opDecl
  symbols : t.symbols = s.symbols
  queue : t.queue.pending = s.queue.pending
  typeOf : ∀ id type, s.typeOf.get? id = some type → t.typeOf.get? id = some type
  args : ∀ v x, t.argDecl.get? v = some x → s.argDecl.get? v = some x ∨
    ∃ b k, entry = some b ∧ v = .argument b (index + k) ∧ list[k]? = some x
  argDecl : ∀ v x, s.argDecl.get? v = some x → (∀ k b, entry = some b → v ≠ .argument b k) →
    t.argDecl.get? v = some x

theorem AddsParams.nil (s : LiftState) (entry : Option BlockId) (index : Nat) :
    AddsParams s entry index [] s :=
  ⟨.refl _, rfl, rfl, rfl, rfl, fun _ _ h => h, fun _ _ h => .inl h, fun _ _ h _ => h⟩

/-- One more parameter in front. -/
theorem AddsParams.cons {s u t : LiftState} {entry : Option BlockId} {index : Nat} {param : DeclId}
    {list : List DeclId} (hb : s.Builds u)
    (h : AddsParams
      { u with argDecl := entry.elim u.argDecl fun b => u.argDecl.insert (.argument b index) param }
      entry (index + 1) list t) : AddsParams s entry index (param :: list) t where
  program := hb.program.trans h.program
  opStmt := h.opStmt.trans hb.opStmt
  opDecl := h.opDecl.trans hb.opDecl
  symbols := h.symbols.trans hb.symbols
  queue := h.queue.trans hb.queue
  typeOf id type hid := h.typeOf id type (hb.typeOf id type hid)
  args v x hv := by
    obtain hold | ⟨b, k, hb', hv, hx⟩ := h.args v x hv
    · cases entry with
      | none => exact .inl (hb.argDecl ▸ hold)
      | some b =>
          have hold : (u.argDecl.insert (.argument b index) param).get? v = some x := hold
          rw [Dict.get?_insert, hb.argDecl] at hold
          split at hold
          · next heq =>
              cases hold
              exact .inr ⟨b, 0, rfl, heq.symm, rfl⟩
          · exact .inl hold
    · refine .inr ⟨b, k + 1, hb', ?_, hx⟩
      rw [hv, Nat.add_right_comm, Nat.add_assoc]
  argDecl v x hv hne := by
    refine h.argDecl v x ?_ hne
    cases entry with
    | none =>
        show u.argDecl.get? v = _
        rw [hb.argDecl, hv]
    | some b =>
        show (u.argDecl.insert (.argument b index) param).get? v = _
        rw [Dict.get?_insert, if_neg (hne index b rfl).symm, hb.argDecl, hv]

theorem params_gives (env : LiftEnv) (o : Operation) (function : DeclId) (entry : Option BlockId)
    (index : Nat) (inputs : List TypeId) (s : LiftState) :
    Gives (params env o function entry index inputs) s fun list t =>
      AddsParams s entry index list t := by
  induction inputs generalizing index s with
  | nil => exact .pure (.nil s entry index)
  | cons input rest ih =>
      refine (chooseName_building env _ o index s).bind fun name s₁ hb₁ => ?_
      refine (type_gives env input s₁).bind ?_
      rintro type s₂ ⟨hb₂, _⟩
      refine (typed_gives (Check.param_gives function name type index)).bind ?_
      rintro param s₃ ⟨hb₃, _⟩
      have hb := (hb₁.trans hb₂).trans hb₃
      cases entry with
      | none => exact (ih (index + 1) s₃).bind fun list t h => .pure (.cons hb h)
      | some b => exact (ih (index + 1) _).bind fun list t h => .pure (.cons hb h)

end Lift

/-- Completing a declaration that was not there before. -/
theorem Program.Extends.setDeclKind {p q : Program} (h : p.Extends q) {d : Nat}
    (hd : p.decls.size ≤ d) (k : DeclKind) : p.Extends (q.setDeclKind d k) := by
  have hother : ∀ x : Nat, x < p.decls.size → (q.setDeclKind d k).decl x = q.decl x := by
    intro x hx
    rw [decl_setDeclKind, if_neg]
    exact fun hdx => absurd hx (Nat.not_lt.mpr (hdx.1 ▸ hd))
  have hsize : (q.setDeclKind d k).decls.size = q.decls.size := by simp [Program.setDeclKind]
  refine ⟨⟨h.grows.exprs, h.grows.stmts_size, h.grows.stmts, hsize ▸ h.grows.decls_size, ?_⟩, ?_,
    h.twinned⟩
  · intro x hx
    rw [hother x hx]
    exact h.grows.decls x hx
  · intro x hx
    rw [hother x hx]
    exact h.slots x hx

section Declaring

variable {g : Graph} {s t : LiftState} {id : OpId} {o : Operation} {d : DeclId} {tasks : List Task}

/-- A field stays one if the tables stay and its declaration is not turned into another. -/
theorem LiftState.FieldOf.keep {u : LiftState} {x : OpId} {c : DeclId}
    (h : s.FieldOf g t id x c) (hopStmt : u.opStmt = t.opStmt) (hopDecl : u.opDecl = t.opDecl)
    (hsize : t.program.decls.size ≤ u.program.decls.size)
    (hset : (u.program.decl c).kind.settled = (t.program.decl c).kind.settled) :
    s.FieldOf g u id x c where
  kind := h.kind
  above := h.above
  noted := hopDecl ▸ h.noted
  opStmt := hopStmt ▸ h.opStmt
  new := h.new
  known := Nat.lt_of_lt_of_le h.known hsize
  notValue := by
    rw [DeclKind.isValue_of_settled_eq hset]
    exact h.notValue

/-- Building after the declaration. -/
theorem LiftState.Declaring.builds (h : s.Declaring g id o d tasks t) {u : LiftState}
    (hb : t.Builds u) : s.Declaring g id o d tasks u := by
  have hg := hb.grows g 0
  have hfield : ∀ {x c}, s.FieldOf g t id x c → s.FieldOf g u id x c := fun hf =>
    hf.keep hb.opStmt hb.opDecl hb.program.grows.decls_size
      (hb.program.grows.decls _ hf.known).2
  constructor
  case program => exact h.program.trans hb.program
  case new => exact h.new
  case known => exact Nat.lt_of_lt_of_le h.known hb.program.grows.decls_size
  case declares =>
    obtain ⟨k, hk, hne, hdecl⟩ := h.declares
    exact ⟨k, hk, hne, Kind.declares_of_settled_eq (hb.program.grows.decls d h.known).2.symm hdecl⟩
  case slot => exact (hb.program.slots d h.known).trans h.slot
  case opStmt =>
    rw [hb.opStmt]
    exact fun x => (h.opStmt x).imp_right (Exists.imp fun _ => hfield)
  case noted =>
    rw [hb.opDecl]
    exact h.noted
  case opDecl =>
    rw [hb.opDecl]
    exact fun x hx => (h.opDecl x hx).imp_right (Exists.imp fun _ => hfield)
  case inj =>
    rw [hb.opDecl]
    exact h.inj
  case args =>
    rw [hb.argDecl]
    exact fun v x hv => (h.args v x hv).imp_right fun hp => hp.mono hg
  case argDecl =>
    rw [hb.argDecl]
    exact h.argDecl
  case symbols =>
    rw [hb.symbols]
    exact fun name x hx => (h.symbols name x hx).imp_right fun hn => hn.mono hg
  case kept =>
    rw [hb.symbols]
    exact h.kept
  case queue =>
    rw [hb.queue]
    exact h.queue
  case typeOf => exact fun id type hid => hb.typeOf id type (h.typeOf id type hid)

/-- Noting a field adds to the state, whether or not it was noted before. -/
theorem grows_withField {extra : List Task} {u : LiftState} {x : OpId} (hs : Inv g extra s)
    (hk : g.kind? x = some .field) (c : DeclId)
    (hold : u.opStmt.get? x = s.opStmt.get? x ∨ u.opStmt.get? x = some none) :
    Grows g 0 u (u.withField x c) := by
  refine ⟨.refl _, fun _ hy => absurd hy (Nat.not_lt_zero _), ?_, ?_, fun _ _ h => h,
    fun _ _ h => h, ?_, fun _ y hy => ⟨y, hy, .inl rfl⟩, ?_⟩
  · intro y r hy
    rw [LiftState.withField_opStmt]
    split
    · next heq =>
        subst heq
        obtain hsame | hnone := hold
        · rw [hs.field_silent hk (hsame.symm.trans hy)]
        · exact hnone.symm.trans hy
    · exact hy
  · intro y c' hne hy
    rw [LiftState.withField_opDecl, if_neg, hy]
    rintro rfl
    exact hne hk
  · intro y i hy _
    rw [LiftState.withField_opStmt] at hy
    split at hy
    · cases hy
    · exact ⟨y, hy⟩
  · intro y q l name z hq hname hs hy _
    rw [LiftState.withField_opStmt] at hy
    split at hy
    · next heq =>
        subst heq
        have hkind : q.kind? = some .field := by simpa [Graph.kind?, hq] using hk
        cases (q.cited?_eq_none ⟨_, hkind, rfl⟩ rfl).symm.trans hname
    · rw [hs] at hy
      cases hy

/-- Noting another field keeps a field. -/
theorem LiftState.FieldOf.withField {u : LiftState} {x y : OpId} {c c' : DeclId} (hne : x ≠ y)
    (h : s.FieldOf g u id y c') : s.FieldOf g (u.withField x c) id y c' where
  kind := h.kind
  above := h.above
  noted := by rw [withField_opDecl, if_neg hne, h.noted]
  opStmt := by rw [withField_opStmt, if_neg hne, h.opStmt]
  new := h.new
  known := h.known
  notValue := h.notValue

/-- Declaring one more field. -/
theorem LiftState.Declaring.field {extra : List Task} (hs : Inv g extra s)
    (h : s.Declaring g id o d tasks t) {u : LiftState} (hb : t.Builds u) {x : OpId} {c : DeclId}
    (hk : g.kind? x = some .field) (hx : id < x) (hc : t.program.decls.size ≤ c)
    (hknown : c < u.program.decls.size) (hvalue : ¬ (u.program.decl c).kind.IsValue) :
    s.Declaring g id o d tasks (u.withField x c) := by
  have hu := h.builds hb
  have hsize := h.program.grows.decls_size
  have hself : s.FieldOf g (u.withField x c) id x c :=
    ⟨hk, hx, by rw [withField_opDecl, if_pos rfl], by rw [withField_opStmt, if_pos rfl],
      Nat.le_trans hsize hc, hknown, hvalue⟩
  have hg : Grows g 0 u (u.withField x c) :=
    grows_withField hs hk c ((hu.opStmt x).imp_right fun ⟨_, hf⟩ => hf.opStmt)
  -- No other operation has the new declaration.
  have hfresh : ∀ {y}, u.opDecl.get? y ≠ some c := by
    intro y hy
    rw [hb.opDecl] at hy
    obtain ⟨-, rfl⟩ | hold | hf := h.entry hy
    · exact absurd h.known (Nat.not_lt.mpr hc)
    · exact absurd (hs.decls y c hold).1 (Nat.not_lt.mpr (Nat.le_trans hsize hc))
    · exact absurd hf.known (Nat.not_lt.mpr hc)
  constructor
  case program => exact hu.program
  case new => exact hu.new
  case known => exact hu.known
  case declares => exact hu.declares
  case slot => exact hu.slot
  case opStmt =>
    intro y
    by_cases hne : x = y
    · exact .inr ⟨c, hne ▸ hself⟩
    · rw [withField_opStmt, if_neg hne]
      exact (hu.opStmt y).imp_right (Exists.imp fun _ => .withField hne)
  case noted =>
    rw [withField_opDecl, if_neg (Nat.ne_of_gt hx)]
    exact hu.noted
  case opDecl =>
    intro y hy
    by_cases hne : x = y
    · exact .inr ⟨c, hne ▸ hself⟩
    · rw [withField_opDecl, if_neg hne]
      exact (hu.opDecl y hy).imp_right (Exists.imp fun _ => .withField hne)
  case inj =>
    intro y y' c' hc' hy hy'
    rw [withField_opDecl] at hy hy'
    split at hy <;> split at hy'
    · next h₁ h₂ => exact h₁.symm.trans h₂
    · cases hy
      exact absurd hy' hfresh
    · cases hy'
      exact absurd hy hfresh
    · exact hu.inj y y' c' hc' hy hy'
  case args => exact fun v y hv => (hu.args v y hv).imp_right fun hp => hp.mono hg
  case argDecl => exact hu.argDecl
  case symbols => exact fun name y hy => (hu.symbols name y hy).imp_right fun hn => hn.mono hg
  case kept => exact hu.kept
  case queue => exact hu.queue
  case typeOf => exact hu.typeOf

/-- Adding and setting the parameters of a function. -/
theorem LiftState.Declaring.withParams (h : s.Declaring g o.id o d tasks t)
    (hargs : t.argDecl = s.argDecl) (hop : g.op? o.id = some o) (hk : o.kind? = some .function)
    {list : List DeclId} {u : LiftState} (hu : Lift.AddsParams t (g.entry? o) 0 list u)
    {type : QualType} {old locals : List DeclId} {body : Option StmtId}
    (hkind : (u.program.decl d).kind = .function type old body locals) :
    s.Declaring g o.id o d tasks
      { u with program := u.program.setDeclKind d (.function type list body locals) } := by
  have hsize : (u.program.setDeclKind d (.function type list body locals)).decls.size =
      u.program.decls.size := by simp [Program.setDeclKind]
  have hle := hu.program.grows.decls_size
  have hknown := Nat.lt_of_lt_of_le h.known hle
  have hself := u.program.decl_setDeclKind d (.function type list body locals) d
  rw [if_pos ⟨rfl, hknown⟩] at hself
  have hnoted : u.opDecl.get? o.id = some d := hu.opDecl ▸ h.noted
  -- The function itself is no field.
  have hvalue : (t.program.decl d).kind.IsValue := by
    rw [← DeclKind.isValue_of_settled_eq (hu.program.grows.decls d h.known).2, hkind]
    trivial
  have hfield : ∀ {x c}, s.FieldOf g t o.id x c → s.FieldOf g
      { u with program := u.program.setDeclKind d (.function type list body locals) } o.id x c := by
    intro x c hf
    refine hf.keep hu.opStmt hu.opDecl (hsize ▸ hle) ?_
    show ((u.program.setDeclKind d _).decl c).kind.settled = _
    rw [Program.decl_setDeclKind, if_neg]
    · exact (hu.program.grows.decls c hf.known).2
    · rintro ⟨rfl, -⟩
      exact hf.notValue hvalue
  constructor
  case program => exact (h.program.trans hu.program).setDeclKind h.new _
  case new => exact h.new
  case known => exact hsize ▸ hknown
  case declares => exact ⟨.function, hk, by simp, by rw [hself]; trivial⟩
  case slot =>
    have hslot := (hu.program.slots d h.known).trans h.slot
    rw [hkind] at hslot
    rw [hself]
    exact hslot
  case opStmt =>
    exact fun x => (h.opStmt x).imp (congrArg (Dict.get? · x) hu.opStmt).trans
      (Exists.imp fun _ => hfield)
  case noted => exact hnoted
  case opDecl =>
    exact fun x hx => (h.opDecl x hx).imp (congrArg (Dict.get? · x) hu.opDecl).trans
      (Exists.imp fun _ => hfield)
  case inj =>
    show ∀ x x' c, _ → u.opDecl.get? x = _ → u.opDecl.get? x' = _ → _
    rw [hu.opDecl]
    exact h.inj
  case args =>
    intro v x hv
    obtain hold | ⟨b, k, hb, hv, hx⟩ := hu.args v x hv
    · exact .inl (hargs ▸ hold)
    · rw [Nat.zero_add] at hv
      exact .inr ⟨o.id, o, b, k, d, type, list, body, locals, hop, hk, hb, hv, hnoted,
        hsize ▸ hknown, by rw [hself], hx⟩
  case argDecl => exact fun v x hv hne => hu.argDecl v x (hargs ▸ hv) hne
  case symbols =>
    intro name x hx
    have hx : u.symbols.get? name = some x := hx
    rw [hu.symbols] at hx
    obtain hold | ⟨f, q, hq, hqk, hsym, hf, hlt, hscope⟩ := h.symbols name x hx
    · exact .inl hold
    · refine .inr ⟨f, q, hq, hqk, hsym, hu.opDecl ▸ hf, hsize ▸ Nat.lt_of_lt_of_le hlt hle, ?_⟩
      show ((u.program.setDeclKind d _).decl x).scope = _
      rw [Program.decl_setDeclKind]
      split <;> exact (hu.program.grows.decls x hlt).1.trans hscope
  case kept =>
    show ∀ name x, _ → ∃ y, u.symbols.get? name = some y ∧ _
    rw [hu.symbols]
    exact h.kept
  case queue =>
    show u.queue.pending = _
    rw [hu.queue]
    exact h.queue
  case typeOf => exact fun id type hid => hu.typeOf id type (h.typeOf id type hid)

/-- Putting a task off. -/
theorem LiftState.Declaring.defer (h : s.Declaring g id o d [] t) (task : Task) :
    Gives (Lift.defer task) t fun _ u => s.Declaring g id o d [task] u := by
  have hqueue : t.queue.pending ++ [task] = s.queue.pending ++ [task] := by
    rw [h.queue, List.append_nil]
  exact ⟨h.program, h.new, h.known, h.declares, h.slot,
    fun x => (h.opStmt x).imp_right fun ⟨c, hc⟩ => ⟨c, hc.keep rfl rfl (Nat.le_refl _) rfl⟩,
    h.noted,
    fun x hx => (h.opDecl x hx).imp_right fun ⟨c, hc⟩ => ⟨c, hc.keep rfl rfl (Nat.le_refl _) rfl⟩,
    h.inj, h.args, h.argDecl, h.symbols, h.kept, hqueue, h.typeOf⟩

end Declaring

namespace Lift

section Rules

variable {env : LiftEnv} {extra : List Task} {scope : Scope} {id : OpId} {o : Operation}

theorem function_gives (hop : env.graph.op? o.id = some o) (hk : o.kind? = some .function)
    {s : LiftState} (h : Inv env.graph extra s) : Gives (function env scope o) s fun _ t =>
      ∃ d tasks, s.Declaring env.graph o.id o d tasks t ∧ Fills env.graph o d tasks := by
  unfold function
  split
  · exact .throw _ trivial
  · next typeId _ =>
      split
      · exact .throw _ trivial
      · next inputs _ _ =>
          refine (type_gives env typeId s).bind ?_
          rintro type s₁ ⟨hb₁, _⟩
          refine (chooseName_building env _ o 0 s₁).bind fun name s₂ hb₂ => ?_
          refine introduce_gives (Check.functionDecl_gives scope name type)
            fun d u₀ hi _ hset hslot => ?_
          refine (registerSymbol_gives (hi.after (hb₁.trans hb₂))).bind ?_
          rintro _ u ⟨hi, hu⟩
          rw [← hu] at hset hslot
          have hdecl := hi.declaring h hop hk nofun (.inl rfl)
            (Kind.declares_of_settled_eq hset.symm trivial) hslot
          refine .guard trivial fun _ => ?_
          refine (params_gives env o d _ 0 inputs u).bind fun list v hv => ?_
          refine (typed_gives_program (Check.setParams_gives d list)).bind ?_
          rintro _ w ⟨_, ⟨type', old, body, locals, hkind, rfl⟩, rfl⟩
          replace hdecl := hdecl.withParams hi.argDecl hop hk hv hkind
          split
          · next region _ hregion hblock =>
              refine (hdecl.defer (.body d region)).imp fun _ t ht => ⟨d, _, ht, ?_, ?_⟩
              · have hentry : env.graph.entry? o = some _ := hblock
                simp [Graph.filling?, hk, hentry, hregion, Task.region]
              · simp [Task.decl, Task.isBody, hk]
          · next hnone =>
              refine .pure ⟨d, [], hdecl, ?_, by simp⟩
              have hfill : env.graph.filling? o = none := by
                rw [Graph.filling?, hk]
                dsimp only
                split
                · next hentry =>
                    obtain ⟨b, hb⟩ := Option.isSome_iff_exists.mp hentry
                    exact Option.eq_none_iff_forall_ne_some.mpr fun r hr => hnone r b hr hb
                · rfl
              rw [hfill]
              rfl

theorem function_records (hform : env.graph.Formed) (hop : env.graph.op? id = some o)
    (hk : o.kind? = some .function) :
    Records env extra id (do function env scope o; return none) := by
  obtain rfl : o.id = id := hform.op_id id o hop
  intro s h hid
  refine (function_gives hop hk h).bind fun _ t ⟨d, tasks, hd, hfills⟩ => .pure ?_
  exact h.record_decl hform hd hfills hop hid nofun (.silent (.decl (.inl hk) hd.noted))

/-- The statement for a declaration, when it is recorded. -/
theorem declStmt_gives (hform : env.graph.Formed) (hop : env.graph.op? o.id = some o)
    (hk : o.kind? = some .var ∨ o.kind? = some .record) {s t : LiftState}
    (h : Inv env.graph extra s) (hid : s.opStmt.get? o.id = none) {d : DeclId} {tasks : List Task}
    (hd : s.Declaring env.graph o.id o d tasks t) (hfills : Fills env.graph o d tasks) :
    Gives (declStmt? scope d) t fun r t => Recorded env.graph extra s o.id r t := by
  have hsilent : Recorded env.graph extra s o.id none t :=
    h.record_decl hform hd hfills hop hid nofun (.silent (.decl (.inr hk) hd.noted))
  cases scope with
  | file => exact .pure hsilent
  | record r => exact .pure hsilent
  | function f =>
      refine .map ((typed_gives (Check.pushStmt_gives (k := .declares [d]) nofun)).imp
        fun i u ⟨hb, hi, hkind⟩ => ?_)
      have hu := hd.builds hb
      refine h.record_decl hform hu hfills hop hid ?_ (.stmt hi.2 (.declares hk hu.noted hkind))
      rintro j ⟨⟩
      exact Nat.le_trans hd.program.grows.stmts_size hi.1

theorem var_records (hform : env.graph.Formed) (hop : env.graph.op? id = some o)
    (hk : o.kind? = some .var) : Records env extra id (var env scope o) := by
  obtain rfl : o.id = id := hform.op_id id o hop
  intro s h hid
  unfold var
  refine (resultType_gives env o).bind ?_
  rintro typeId _ ⟨_, rfl⟩
  refine (type_gives env typeId _).bind ?_
  rintro type s₁ ⟨hb₁, _⟩
  refine (chooseName_building env _ o 0 s₁).bind fun name s₂ hb₂ => ?_
  refine introduce_gives (Check.varDecl_gives scope name type (storageOf o))
    fun d u₀ hi _ hset hslot => ?_
  refine (registerSymbol_gives (hi.after (hb₁.trans hb₂))).bind ?_
  rintro _ u ⟨hi, hu⟩
  rw [← hu] at hset hslot
  have hd := hi.declaring h hop hk nofun (.inr (.inl rfl))
    (Kind.declares_of_settled_eq hset.symm trivial) hslot
  dsimp only
  split
  · next region hregion =>
      split
      · next hne =>
          refine (hd.defer (.init scope d region)).bind fun _ t ht => ?_
          refine declStmt_gives hform hop (.inl hk) h hid ht ⟨?_, ?_⟩
          · have hne : env.graph.regionOps region ≠ [] := by simpa using hne
            simp [Graph.filling?, hk, hregion, Task.region, Option.filter, hne]
          · simp [Task.decl, Task.isBody, hk]
      · next hempty =>
          have hempty : env.graph.regionOps region = [] := by simpa using hempty
          refine declStmt_gives hform hop (.inl hk) h hid hd ⟨?_, by simp⟩
          simp [Graph.filling?, hk, hregion, Option.filter, hempty]
  · next hregion =>
      refine declStmt_gives hform hop (.inl hk) h hid hd ⟨?_, by simp⟩
      simp [Graph.filling?, hk, hregion]

theorem fields_gives {s : LiftState} (h : Inv env.graph extra s) {d : DeclId} {tasks : List Task}
    (record : DeclId) (index : Nat) {ids : List OpId} (hids : ∀ x ∈ ids, id < x) {t : LiftState}
    (hd : s.Declaring env.graph id o d tasks t) :
    Gives (fields env record index ids) t fun _ t => s.Declaring env.graph id o d tasks t := by
  induction ids generalizing index t with
  | nil => exact .pure hd
  | cons x ids ih =>
      refine (operation_gives env x).bind ?_
      rintro q _ ⟨hq, rfl⟩
      refine .guard trivial fun hkind => ?_
      split
      · exact .throw _ trivial
      · next typeId _ =>
          refine (type_gives env typeId _).bind ?_
          rintro type t₁ ⟨hb₁, _⟩
          refine (chooseName_building env _ q index t₁).bind fun name t₂ hb₂ => ?_
          refine (typed_gives (Check.fieldDecl_gives record name type)).bind ?_
          rintro c u ⟨hb₃, hc, hsize, hvalue⟩
          have hb := hb₁.trans hb₂
          have hkind : env.graph.kind? x = some .field := by
            simpa [Graph.kind?, hq] using hkind
          refine (noteDecl_gives x c).bind ?_
          rintro _ _ rfl
          refine ih (index + 1) (fun y hy => hids y (List.mem_cons_of_mem x hy)) ?_
          refine hd.field h (hb.trans hb₃) hkind (hids x List.mem_cons_self) ?_ ?_ hvalue
          · exact hc ▸ hb.program.grows.decls_size
          · exact hsize ▸ Nat.lt_succ_self c

theorem record_records (hform : env.graph.Formed) (hop : env.graph.op? id = some o)
    (hk : o.kind? = some .record) : Records env extra id (record env scope o) := by
  obtain rfl : o.id = id := hform.op_id id o hop
  intro s h hid
  unfold record
  refine (chooseName_building env _ o 0 s).bind fun name s₁ hb₁ => ?_
  refine introduce_gives (Check.pushDecl_gives name scope (.record []))
    fun d u hi hsymbols hset hslot => ?_
  have hd := (hi.after hb₁).declaring h hop hk nofun (.inr (.inr (hsymbols.trans hb₁.symbols)))
    (Kind.declares_of_settled_eq hset.symm id) hslot
  have hids : ∀ x ∈ o.regions.head?.elim [] env.graph.regionOps, o.id < x := by
    cases hr : o.regions.head? with
    | none => simp
    | some r => exact fun x hx => hform.lt_of_mem hop (List.mem_of_head? hr) hx
  refine (fields_gives h d 0 hids hd).bind fun _ t ht => ?_
  refine declStmt_gives hform hop (.inr hk) h hid ht ⟨?_, by simp⟩
  simp [Graph.filling?, hk]

end Rules

end Lift

end Readback
