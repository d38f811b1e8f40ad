import Mathlib.Data.List.Find
import Mathlib.Data.List.Nodup
import Readback.Proofs.Alongside
import Readback.Proofs.Graph.Built

/-! # Identities of operations

A registered operation is known by the identity of its name, and any other one by the name itself. Both
ways lead to the same kind if no other name of the dialect has the identity of the name.

* `OpIdentity.Apart` is that condition. It holds of all names of the dialect (`OpIdentity.apart_name`),
  since their identities are different (`Kind.identity_injective`). Under it the identity leads to the
  kind of the name (`OpIdentity.Apart.kind?`); without an identity only the name counts
  (`OpName.kind?_unregistered`).
* A registry gives names no identities but their own (`Registry.lookup?_ofNames`), so it does not matter
  whether it knows such a name (`Registry.kind?_lookup?`). Two registries agree if they give all names
  the same kinds (`Registry.Agree`).
* `Graph.Reidentifies` relates two graphs over registries that agree: operations are the same but for
  the identities of their names (`Operation.Namesake`). A building step does the same to both
  (`Graph.Reidentifies.after`), and fails on both or on neither, so building the same over registries
  that agree leads to graphs that differ in identities only (`Graph.reidentifies_build`).
* `Graph.Identified` says of one graph that its operations have no other identities than its registry
  gives. Then an operation is of the kind that has its name (`Graph.Identified.kind?`).

The last lemma adds an operation with and without the identity that the registry has for its name
(`createOperation_unregistered`): the two graphs differ in this identity only. -/

namespace Readback

open Step

/-! ### Kinds by names and by identities -/

theorem Kind.mem_all (k : Kind) : k ∈ all := by
  cases k <;> decide

/-- The names of the dialect have different identities. -/
theorem Kind.identity_injective : Function.Injective fun k : Kind => OpIdentity.ofName k.name := by
  have hnodup : (all.map fun k => OpIdentity.ofName k.name).Nodup := by decide +kernel
  exact fun k l h => List.inj_on_of_nodup_map hnodup k.mem_all l.mem_all h

theorem Kind.name_injective : Function.Injective name :=
  identity_injective.of_comp (f := OpIdentity.ofName)

/-- A name is that of the kind that it leads to. -/
theorem Kind.ofName?_eq_some_iff {n : String} {k : Kind} : ofName? n = some k ↔ k.name = n := by
  constructor
  · intro h
    simpa using List.find?_some h
  · intro h
    obtain ⟨l, hl⟩ := Option.isSome_iff_exists.mp
      (List.find?_isSome (p := fun k => k.name == n) |>.mpr ⟨k, k.mem_all, by simpa using h⟩)
    have hname : l.name = n := by simpa using List.find?_some hl
    rw [← name_injective (hname.trans h.symm)]
    exact hl

/-- Without an identity, only the name counts: all names of kinds claim the dialect. -/
theorem OpName.kind?_unregistered (n : String) : (OpName.mk n none).kind? = Kind.ofName? n := by
  have hdialect : ∀ k ∈ Kind.all, (OpName.mk k.name none).dialect = Kind.dialect := by decide +kernel
  show (if (OpName.mk n none).dialect = Kind.dialect then Kind.ofName? n else none) = _
  split
  · rfl
  · next hforeign =>
      refine (Option.eq_none_iff_forall_ne_some.mpr fun k hk => hforeign ?_).symm
      rw [← Kind.ofName?_eq_some_iff.mp hk]
      exact hdialect k k.mem_all

/-- No other name of the dialect has the identity of the name. -/
def OpIdentity.Apart (n : String) : Prop :=
  ∀ k : Kind, k.name ≠ n → OpIdentity.ofName k.name ≠ OpIdentity.ofName n

theorem OpIdentity.apart_name (k : Kind) : Apart k.name := by
  intro l hne heq
  exact hne (congrArg Kind.name (Kind.identity_injective heq))

/-- The identity leads to the kind of the name. -/
theorem OpIdentity.Apart.kind? {n : String} (h : OpIdentity.Apart n) :
    (OpName.mk n (some (OpIdentity.ofName n))).kind? = Kind.ofName? n := by
  have hsame : ∀ k ∈ Kind.all,
      (OpIdentity.ofName k.name == OpIdentity.ofName n) = (k.name == n) := by
    intro k _
    rw [Bool.eq_iff_iff, beq_iff_eq, beq_iff_eq]
    exact ⟨fun heq => by_contra fun hne => h k hne heq, congrArg OpIdentity.ofName⟩
  show Kind.ofIdentity? (OpIdentity.ofName n) = _
  rw [Kind.ofIdentity?, Kind.identities, List.find?_map, Option.map_map, Kind.ofName?]
  exact Option.map_id'.trans (List.find?_congr hsame)

/-! ### Registries -/

namespace Registry

/-- Registering further names gives them their own identities and changes no others. -/
theorem lookup?_foldl (names : List String) {r : Registry} {n : String}
    (h : ∀ i, r.lookup? n = some i → i = OpIdentity.ofName n) :
    (names.foldl register r).lookup? n =
      if n ∈ names then some (OpIdentity.ofName n) else r.lookup? n := by
  induction names generalizing r with
  | nil => rfl
  | cons m names ih =>
      have hlookup : (r.register m).lookup? n =
          if m = n then some (OpIdentity.ofName n) else r.lookup? n := by
        unfold register
        split
        · next hknown =>
            split
            · next heq =>
                obtain ⟨i, hi⟩ := Option.isSome_iff_exists.mp hknown
                rw [heq] at hi
                have hlook : r.lookup? n = some i := hi
                rw [hlook, h i hlook]
            · rfl
        · rw [lookup?, Dict.get?_insert]
          split
          · next heq => rw [heq]
          · rfl
      have hown : ∀ i, (r.register m).lookup? n = some i → i = OpIdentity.ofName n := by
        intro i hi
        rw [hlookup] at hi
        split at hi
        · exact (Option.some.inj hi).symm
        · exact h i hi
      rw [List.foldl_cons, ih hown, hlookup]
      by_cases heq : m = n
      · simp [heq]
      · simp [heq, Ne.symm heq]

/-- A registry knows the names that were registered, under their own identities. -/
theorem lookup?_ofNames (names : List String) (n : String) :
    (ofNames names).lookup? n = if n ∈ names then some (OpIdentity.ofName n) else none :=
  lookup?_foldl names (r := empty) fun _ h => nomatch h

/-- Whether a registry knows a name makes no difference if its identity is its own. -/
theorem kind?_lookup? (names : List String) {n : String} (h : OpIdentity.Apart n) :
    (OpName.mk n ((ofNames names).lookup? n)).kind? = Kind.ofName? n := by
  rw [lookup?_ofNames]
  split
  · exact h.kind?
  · exact OpName.kind?_unregistered n

/-- The registries give all names the same kinds. -/
def Agree (r r' : Registry) : Prop :=
  ∀ n, (OpName.mk n (r'.lookup? n)).kind? = (OpName.mk n (r.lookup? n)).kind?

/-- Registries that know the same names, apart from such as no other name can be taken for. -/
theorem agree_ofNames {names names' : List String}
    (h : ∀ n, (n ∈ names' ↔ n ∈ names) ∨ OpIdentity.Apart n) :
    (ofNames names).Agree (ofNames names') := by
  intro n
  obtain hsame | hapart := h n
  · simp only [lookup?_ofNames, hsame]
  · rw [kind?_lookup? names' hapart, kind?_lookup? names hapart]

end Registry

/-! ### Graphs that differ in identities -/

/-- The same operation, but for the identity of its name. It is of the same kind. -/
structure Operation.Namesake (o o' : Operation) : Prop where
  eq : ∃ i, o' = { o with name := ⟨o.name.text, i⟩ }
  kind : o'.kind? = o.kind?

namespace Graph

/-- The same graph over a registry that gives names the same kinds, but perhaps by other identities. -/
structure Reidentifies (g g' : Graph) : Prop where
  registry : g.registry.Agree g'.registry
  types : g'.types = g.types
  regions : g'.regions = g.regions
  blocks : g'.blocks = g.blocks
  body : g'.body = g.body
  useLists : g'.useLists = g.useLists
  size : g'.operations.size = g.operations.size
  op (id) : Option.Rel Operation.Namesake (g.op? id) (g'.op? id)

theorem reidentifies_ofRegistry {r r' : Registry} (h : r.Agree r') :
    (ofRegistry r).Reidentifies (ofRegistry r') :=
  ⟨h, rfl, rfl, rfl, rfl, rfl, rfl, fun _ => .none⟩

namespace Reidentifies

variable {g g' : Graph} (h : g.Reidentifies g')

include h

theorem region?_eq (r : RegionId) : g'.region? r = g.region? r := by
  rw [region?, region?, h.regions]

theorem block?_eq (b : BlockId) : g'.block? b = g.block? b := by
  rw [block?, block?, h.blocks]

/-- Both graphs have an operation at the position, or neither has one. -/
theorem op?_cases (id : OpId) : (g.op? id = none ∧ g'.op? id = none) ∨
    ∃ o o', g.op? id = some o ∧ g'.op? id = some o' ∧ o.Namesake o' := by
  have hop := h.op id
  generalize g.op? id = o at hop
  generalize g'.op? id = o' at hop
  cases hop with
  | none => exact .inl ⟨rfl, rfl⟩
  | some hsame => exact .inr ⟨_, _, rfl, rfl, hsame⟩

theorem isNone_op? (id : OpId) : (g'.op? id).isNone = (g.op? id).isNone := by
  obtain ⟨hnone, hnone'⟩ | ⟨o, o', hsome, hsome', -⟩ := h.op?_cases id
  · rw [hnone, hnone']
  · rw [hsome, hsome']
    rfl

theorem valueType?_eq (v : Value) : g'.valueType? v = g.valueType? v := by
  cases v with
  | argument b i => rw [valueType?, valueType?, h.block?_eq]
  | result id i =>
      rw [valueType?, valueType?]
      obtain ⟨hnone, hnone'⟩ | ⟨o, o', hsome, hsome', hsame⟩ := h.op?_cases id
      · rw [hnone, hnone']
      · obtain ⟨_, rfl⟩ := hsame.eq
        rw [hsome, hsome']
        rfl

/-- Changing an operation in both graphs. -/
theorem op_modify (n : OpId) {f : Operation → Operation}
    (hf : ∀ o o', Operation.Namesake o o' → Operation.Namesake (f o) (f o')) (id : OpId) :
    Option.Rel Operation.Namesake (g.operations.modify n f)[id]? (g'.operations.modify n f)[id]? := by
  have hop : Option.Rel Operation.Namesake g.operations[id]? g'.operations[id]? := h.op id
  rw [Array.getElem?_modify, Array.getElem?_modify]
  split
  · generalize g.operations[id]? = o at hop
    generalize g'.operations[id]? = o' at hop
    cases hop with
    | none => exact .none
    | some hsame => exact .some (hf _ _ hsame)
  · exact hop

/-- Adding an operation to both graphs. -/
theorem op_push {o o' : Operation} (ho : o.Namesake o') (id : OpId) :
    Option.Rel Operation.Namesake (g.operations.push o)[id]? (g'.operations.push o')[id]? := by
  rw [Array.getElem?_push, Array.getElem?_push, h.size]
  split
  · exact .some ho
  · exact h.op id

end Reidentifies

/-! ### Building over two registries -/

/-- A step does the same to both graphs. -/
theorem Reidentifies.after {g g' : Graph} (h : g.Reidentifies g') (b : BuildStep) :
    (b.after g).Reidentifies (b.after g') := by
  have retyped (f : TypeTable → TypeTable) :
      ({ g with types := f g.types } : Graph).Reidentifies { g' with types := f g'.types } :=
    ⟨h.registry, congrArg f h.types, h.regions, h.blocks, h.body, h.useLists, h.size, h.op⟩
  cases b with
  | internType shape => exact retyped fun t => (t.intern shape).2
  | asLvalue id => exact retyped fun t => (t.asLvalue id).2
  | setAttribute op name value =>
      rw [after_setAttribute, after_setAttribute, h.isNone_op?]
      split
      · exact h
      · refine ⟨h.registry, h.types, h.regions, h.blocks, h.body, h.useLists, by simp [h.size],
          h.op_modify op ?_⟩
        rintro o o' ⟨⟨i, rfl⟩, hkind⟩
        exact ⟨⟨i, rfl⟩, hkind⟩
  | createRegion parent =>
      rw [after_createRegion, after_createRegion, h.isNone_op?]
      split
      · exact h
      · refine ⟨h.registry, h.types, ?_, h.blocks, h.body, h.useLists, by simp [addRegion, h.size], ?_⟩
        · simp only [addRegion, pushRegion, h.regions]
        · unfold addRegion
          rw [h.regions]
          refine h.op_modify parent ?_
          rintro o o' ⟨⟨i, rfl⟩, hkind⟩
          exact ⟨⟨i, rfl⟩, hkind⟩
  | createBlock region arguments =>
      rw [after_createBlock, after_createBlock, h.region?_eq]
      split
      · exact h
      · refine ⟨h.registry, h.types, ?_, ?_, h.body, h.useLists, h.size, h.op⟩
        · simp only [pushBlock, h.regions, h.blocks]
        · simp only [pushBlock, h.blocks]
  | createOperation block spec =>
      rw [after_createOperation, after_createOperation, h.block?_eq,
        show g'.valueType? = g.valueType? from funext h.valueType?_eq]
      split
      · exact h
      split
      · exact h
      · refine ⟨h.registry, h.types, h.regions, ?_, h.body, ?_, by simp [pushOperation, h.size], ?_⟩
        · simp only [pushOperation, h.blocks, h.size]
        · simp only [pushOperation, h.useLists, h.size]
        · refine h.op_push ⟨⟨_, by rw [h.size]⟩, ?_⟩
          unfold Operation.kind?
          dsimp only
          split
          · rfl
          · exact h.registry spec.name

/-- Building the same over two registries that agree leads to graphs that differ in identities only. -/
theorem reidentifies_build {r r' : Registry} (h : r.Agree r') (steps : List BuildStep) :
    (build r steps).Reidentifies (build r' steps) :=
  List.foldl_rel (reidentifies_ofRegistry h) fun b _ _ _ hgraph => hgraph.after b

/-! ### Operations over a registry -/

/-- The graph is over the registry, and its operations have no other identities than that gives. -/
structure Identified (r : Registry) (g : Graph) : Prop where
  registry : g.registry = r
  identity {id : OpId} {o : Operation} : g.op? id = some o →
    o.name.identity = none ∨ o.name.identity = r.lookup? o.name.text

namespace Identified

variable {r : Registry} {g : Graph} (h : g.Identified r)

include h

/-- Changing an operation, but not its name. -/
theorem modify {n id : OpId} {f : Operation → Operation} {o : Operation}
    (ho : (g.operations.modify n f)[id]? = some o) (hf : ∀ o, (f o).name = o.name) :
    o.name.identity = none ∨ o.name.identity = r.lookup? o.name.text := by
  rw [Array.getElem?_modify] at ho
  split at ho
  · obtain ⟨old, hold, rfl⟩ := Option.map_eq_some_iff.mp ho
    rw [hf]
    exact h.identity hold
  · exact h.identity ho

theorem pushOperation (block : BlockId) (spec : OpSpec) :
    (g.pushOperation block spec).2.Identified r := by
  refine ⟨h.registry, ?_⟩
  intro id o ho
  have hpush : (g.operations.push _)[id]? = some o := ho
  rw [Array.getElem?_push] at hpush
  split at hpush
  · obtain rfl := Option.some.inj hpush
    rw [h.registry]
    dsimp only
    split
    · exact .inl rfl
    · exact .inr rfl
  · exact h.identity hpush

theorem change {g' : Graph} (c : g.Change g') : g'.Identified r := by
  cases c with
  | none => exact h
  | intern shape => exact ⟨h.registry, h.identity⟩
  | attributes op f => exact ⟨h.registry, fun ho => h.modify ho fun _ => rfl⟩
  | addRegion known => exact ⟨h.registry, fun ho => h.modify ho fun _ => rfl⟩
  | pushBlock known arguments => exact ⟨h.registry, h.identity⟩
  | pushOperation known operands => exact h.pushOperation _ _

end Identified

theorem identified_build (r : Registry) (steps : List BuildStep) : (build r steps).Identified r :=
  List.foldlRecOn steps _ ⟨rfl, nofun⟩ fun g h b _ => h.change (change_after g b)

/-- Over a registry of names, an operation is of the kind that has its name. -/
theorem Identified.kind? {names : List String} {g : Graph} (h : g.Identified (.ofNames names)) {id : OpId}
    {o : Operation} (ho : g.op? id = some o) (hapart : OpIdentity.Apart o.name.text) :
    o.kind? = Kind.ofName? o.name.text := by
  obtain hnone | hregistered := h.identity ho
  · rw [← OpName.kind?_unregistered, ← hnone]
    rfl
  · rw [← Registry.kind?_lookup? names hapart, ← hregistered]
    rfl

/-- Adding an operation with and without the identity that the registry has for its name. -/
theorem createOperation_unregistered (g : Graph) (block : BlockId) (spec : OpSpec) :
    Together (Build.createOperation block { spec with isUnregistered := false })
      (Build.createOperation block { spec with isUnregistered := true }) g g
      (fun id id' t t' => id' = id ∧ ∃ o, t.op? id = some o ∧
        o.name = ⟨spec.name, g.registry.lookup? spec.name⟩ ∧
        t'.op? id = some { o with name := ⟨spec.name, none⟩ }) Eq := by
  unfold Together
  rw [createOperation_eq, createOperation_eq]
  dsimp only
  by_cases h : (g.block? block).isNone
  · rw [if_pos h, if_pos h]
  · rw [if_neg h, if_neg h]
    cases spec.operands.find? fun v => (g.valueType? v).isNone with
    | some v => rfl
    | none => exact ⟨rfl, _, Array.getElem?_push_size, rfl, Array.getElem?_push_size⟩

end Graph

end Readback
