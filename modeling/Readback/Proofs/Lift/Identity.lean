import Readback.Lift.Run
import Readback.Proofs.Graph.Identity

/-! # Lifting without identities

Operations carry a name and perhaps an identity, under which the name is registered. A lift looks at the
kinds of operations, never at their identities, so graphs that differ in identities only have the same
lift (`Graph.Reidentifies.lift_same`).

There are two parts to this. That the kind of an operation does not depend on its identity is a matter
of names and registries: an identity stands for a name unless another name of the dialect has the same
one. That the lift looks at nothing else is shown here, rule by rule: both graphs lead to equal steps.

* `LiftEnv.Reidentifies` relates the two lifts. Its graphs differ in identities only, and names are
  chosen the same way, by a naming that does not look at identities (`Naming.Anonymous`). The standard
  names are such (`Naming.anonymous_standard`); a naming that told the identity of an operation would
  show the difference in the names of a program.
* Every part of an operation other than its name is the same on both sides, and of its name the text is
  (`text_eq`, `kind?_eq`). So the listings in messages are the same (`opText_eq`), because they show the
  text of the name.
* Each step of the lift then has a lemma that it is the same step (`type_eq`, `simpleExpr_eq`,
  `compound_eq`, `function_eq` and so on). `rule_eq` joins them, and `opAux_eq` is the induction on the
  bound.

With what is known of kinds and names, it makes no difference to a lift which names of the dialect are
registered. That is the main result, `Graph.kinds_follow_names`: over every registry an operation is of
the kind that its name says, with and without its identity, and the lifts are equal for every naming
that does not look at identities. -/

namespace Readback

open Lift Step

/-! ### What is known of an operation -/

/-- A way to choose names that does not look at identities. -/
def Naming.Anonymous (naming : Naming) : Prop :=
  ∀ role (o : Operation) i identity,
    naming role { o with name := ⟨o.name.text, identity⟩ } i = naming role o i

theorem Naming.anonymous_standard : standard.Anonymous := by
  intro role o i identity
  cases role <;> rfl

namespace Operation.Namesake

variable {o o' : Operation} (h : o.Namesake o')

include h

theorem id_eq : o'.id = o.id := by
  obtain ⟨_, rfl⟩ := h.eq
  rfl

theorem text_eq : o'.name.text = o.name.text := by
  obtain ⟨_, rfl⟩ := h.eq
  rfl

theorem operands_eq : o'.operands = o.operands := by
  obtain ⟨_, rfl⟩ := h.eq
  rfl

theorem resultTypes_eq : o'.resultTypes = o.resultTypes := by
  obtain ⟨_, rfl⟩ := h.eq
  rfl

theorem regions_eq : o'.regions = o.regions := by
  obtain ⟨_, rfl⟩ := h.eq
  rfl

theorem attributes_eq : o'.attributes = o.attributes := by
  obtain ⟨_, rfl⟩ := h.eq
  rfl

theorem attr?_eq (name : String) : o'.attr? name = o.attr? name := by
  rw [attr?, attr?, h.attributes_eq]

theorem textAttr?_eq (name : String) : o'.textAttr? name = o.textAttr? name := by
  rw [textAttr?, textAttr?, h.attr?_eq]

theorem typeAttr?_eq (name : String) : o'.typeAttr? name = o.typeAttr? name := by
  rw [typeAttr?, typeAttr?, h.attr?_eq]

theorem symbol?_eq : o'.symbol? = o.symbol? := h.textAttr?_eq _

theorem results_eq : o'.results = o.results := by
  rw [results, results, h.id_eq, h.resultTypes_eq]

end Operation.Namesake

namespace Graph.Reidentifies

variable {g g' : Graph} (h : g.Reidentifies g')

include h

theorem regionOps_eq (r : RegionId) : g'.regionOps r = g.regionOps r := by
  rw [regionOps, regionOps, h.region?_eq, show g'.block? = g.block? from funext h.block?_eq]

theorem topLevelOps_eq : g'.topLevelOps = g.topLevelOps := by
  rw [topLevelOps, topLevelOps, h.body, h.regionOps_eq]

theorem kind?_eq (id : OpId) : g'.kind? id = g.kind? id := by
  rw [Graph.kind?, Graph.kind?]
  obtain ⟨hnone, hnone'⟩ | ⟨o, o', hsome, hsome', hsame⟩ := h.op?_cases id
  · rw [hnone, hnone']
  · rw [hsome, hsome']
    exact hsame.kind

theorem hasUses_eq (id : OpId) : g'.hasUses id = g.hasUses id := by
  rw [hasUses, hasUses]
  obtain ⟨hnone, hnone'⟩ | ⟨o, o', hsome, hsome', hsame⟩ := h.op?_cases id
  · rw [hnone, hnone']
  · simp only [hsome, hsome', hsame.results_eq, uses, h.useLists]

/-! ### Listings -/

theorem attributeText_eq (a : Attribute) : g'.attributeText a = g.attributeText a := by
  cases a with
  | type id => rw [attributeText, attributeText, h.types]
  | _ => rfl

theorem headText_eq {o o' : Operation} (ho : o.Namesake o') : g'.headText o' = g.headText o := by
  simp only [headText, attributesText, h.attributeText_eq, h.types, ho.text_eq, ho.operands_eq,
    ho.resultTypes_eq, ho.results_eq, ho.attributes_eq]

theorem blockHead_eq : g'.blockHead = g.blockHead := by
  funext depth b isOnly
  simp only [blockHead, h.types]

theorem regionText_eq (depth : Nat) (inner : OpId → String) (r : RegionId) :
    g'.regionText depth inner r = g.regionText depth inner r := by
  rw [regionText, regionText, h.region?_eq, h.blockHead_eq,
    show g'.block? = g.block? from funext h.block?_eq]

theorem opTextAux_eq (bound depth : Nat) : g'.opTextAux bound depth = g.opTextAux bound depth := by
  induction bound generalizing depth with
  | zero => rfl
  | succ bound ih =>
      funext id
      rw [opTextAux, opTextAux]
      obtain ⟨hnone, hnone'⟩ | ⟨o, o', hsome, hsome', hsame⟩ := h.op?_cases id
      · rw [hnone, hnone']
      · simp only [hsome, hsome', h.headText_eq hsame, hsame.regions_eq, h.regionText_eq, ih]

theorem opText_eq (id : OpId) : g'.opText id = g.opText id := by
  rw [opText, opText, h.size, h.opTextAux_eq]

end Graph.Reidentifies

/-! ### Rules -/

/-- The same lift of graphs that differ in identities only. -/
structure LiftEnv.Reidentifies (env env' : LiftEnv) : Prop where
  graph : env.graph.Reidentifies env'.graph
  naming : env'.naming = env.naming
  anonymous : env.naming.Anonymous
  showOps : env'.showOps = env.showOps

namespace LiftEnv.Reidentifies

variable {env env' : LiftEnv} (h : env.Reidentifies env')

include h

/-- The operation at a position, and what follows from it. -/
theorem operation_bind {α : Type} {f f' : Operation → Lift α}
    (hf : ∀ o o', o.Namesake o' → f' o' = f o) (id : OpId) :
    (operation env' id >>= f') = operation env id >>= f := by
  rw [operation, operation]
  obtain ⟨hnone, hnone'⟩ | ⟨o, o', hsome, hsome', hsame⟩ := h.graph.op?_cases id
  · rw [hnone, hnone']
    rfl
  · rw [hsome, hsome']
    exact hf o o' hsame

section Operation

variable {o o' : Operation} (ho : o.Namesake o')

include ho

theorem dump_eq : env'.dump o' = env.dump o := by
  rw [dump, dump, h.showOps, h.graph.opText_eq, ho.id_eq]

theorem shown_eq : env'.shown o' = env.shown o := by
  rw [shown, shown, h.dump_eq ho, ho.text_eq]

theorem malformed_eq (message : String) : env'.malformed o' message = env.malformed o message := by
  rw [malformed, malformed, h.dump_eq ho, ho.text_eq]

theorem noRule_eq : env'.noRule o' = env.noRule o := by
  rw [noRule, noRule, h.dump_eq ho, ho.text_eq, ho.kind]

theorem chooseName_eq (role : NameRole) (index : Nat) :
    chooseName env' role o' index = chooseName env role o index := by
  obtain ⟨i, rfl⟩ := ho.eq
  rw [chooseName, chooseName, h.naming, h.anonymous]

theorem operand_eq (index : Nat) : operand env' o' index = operand env o index := by
  rw [operand, operand, ho.operands_eq, h.malformed_eq ho]

theorem resultType_eq : resultType env' o' = resultType env o := by
  rw [resultType, resultType, ho.resultTypes_eq, h.malformed_eq ho]

theorem region_eq (index : Nat) (what : String) :
    region env' o' index what = region env o index what := by
  rw [region, region, ho.regions_eq, h.malformed_eq ho]

end Operation

/-! ### Types -/

theorem shape_eq : shape env' = shape env := by
  funext lift id s
  simp only [shape, h.graph.types]

theorem typeAux_eq (bound : Nat) : typeAux env' bound = typeAux env bound := by
  induction bound with
  | zero =>
      funext id
      unfold typeAux
      rw [h.graph.types]
      cases env.graph.types.get? id <;> rfl
  | succ bound ih =>
      funext id
      unfold typeAux
      rw [h.graph.types, h.shape_eq]
      cases env.graph.types.get? id with
      | none => rfl
      | some s =>
          dsimp only
          rw [ih]

theorem type_eq : type env' = type env := by
  funext id
  rw [type, type, h.typeAux_eq, h.graph.types]

/-! ### Expressions -/

section Expressions

variable {o o' : Operation} (ho : o.Namesake o')

include ho

theorem operandValue_eq (index : Nat) : operandValue env' o' index = operandValue env o index := by
  rw [operandValue, operandValue, h.operand_eq ho]

theorem symbolRef_eq (name : String) : symbolRef env' o' name = symbolRef env o name := by
  simp only [symbolRef, symbol, ho.textAttr?_eq, h.malformed_eq ho]

theorem binary_eq (op : BinaryOp) : binary env' o' op = binary env o op := by
  rw [binary, binary, h.operand_eq ho, h.operand_eq ho]

theorem unary_eq (op : UnaryOp) : unary env' o' op = unary env o op := by
  rw [unary, unary, h.operandValue_eq ho]

theorem compare_eq : Lift.compare env' o' = Lift.compare env o := by
  simp only [Lift.compare, ho.attr?_eq, h.binary_eq ho, h.malformed_eq ho]

theorem constant_eq : constant env' o' = constant env o := by
  simp only [constant, ho.attr?_eq, h.malformed_eq ho, h.shown_eq ho, h.resultType_eq ho, h.type_eq]

theorem cast_eq (style : CastStyle) : Lift.cast env' o' style = Lift.cast env o style := by
  simp only [Lift.cast, ho.attr?_eq, h.malformed_eq ho, h.shown_eq ho, h.resultType_eq ho, h.type_eq,
    h.operandValue_eq ho, h.graph.types]

theorem call_eq : call env' o' = call env o := by
  simp only [call, ho.resultTypes_eq, ho.operands_eq, h.malformed_eq ho, h.symbolRef_eq ho]

theorem initList_eq : initList env' o' = initList env o := by
  simp only [initList, ho.operands_eq, h.resultType_eq ho, h.type_eq]

theorem simpleExpr_eq (kind : Kind) : simpleExpr env' o' kind = simpleExpr env o kind := by
  simp only [simpleExpr, h.operandValue_eq ho, h.symbolRef_eq ho, h.call_eq ho, h.constant_eq ho,
    h.initList_eq ho, h.cast_eq ho, h.compare_eq ho, h.binary_eq ho, h.unary_eq ho, h.noRule_eq ho]

end Expressions

/-! ### Regions -/

section Regions

variable (lift : OpLifter) (scope : Scope)

omit lift scope in
theorem isElided_eq : isElided env'.graph = isElided env.graph := by
  funext p op stmt
  rw [isElided, isElided, h.graph.hasUses_eq, h.graph.kind?_eq]

theorem stmts_eq (ops : List OpId) : stmts env' lift scope ops = stmts env lift scope ops := by
  induction ops with
  | nil => rfl
  | cons op ops ih => rw [stmts, stmts, h.isElided_eq, ih]

theorem compound_eq : compound env' lift scope = compound env lift scope := by
  funext r
  rw [compound, compound, h.stmts_eq, h.graph.regionOps_eq]

theorem yieldsAux_eq (r : RegionId) (ops : List OpId) (y : Option ExprId) (unused : List ExprId) :
    yieldsAux env' lift scope r ops y unused = yieldsAux env lift scope r ops y unused := by
  induction ops generalizing y unused with
  | nil => rfl
  | cons op ops ih =>
      simp only [yieldsAux, isYield, h.graph.hasUses_eq, h.graph.kind?_eq, ih]

theorem yields_eq (r : RegionId) : yields env' lift scope r = yields env lift scope r := by
  rw [yields, yields, h.yieldsAux_eq, h.graph.regionOps_eq]

theorem yielded_eq (r : RegionId) : yielded env' lift scope r = yielded env lift scope r := by
  rw [yielded, yielded, h.yields_eq]

variable {o o' : Operation} (ho : o.Namesake o')

include ho

theorem wrapper_eq : wrapper env' lift scope o' = wrapper env lift scope o := by
  simp only [wrapper, ho.regions_eq, h.malformed_eq ho, h.graph.regionOps_eq, h.graph.kind?_eq,
    h.yielded_eq]

theorem ifElse_eq : ifElse env' lift scope o' = ifElse env lift scope o := by
  simp only [ifElse, ho.regions_eq, h.region_eq ho, h.yielded_eq, h.compound_eq, h.graph.region?_eq]

theorem whileLoop_eq : whileLoop env' lift scope o' = whileLoop env lift scope o := by
  simp only [whileLoop, h.region_eq ho, h.yielded_eq, h.compound_eq]

theorem doLoop_eq : doLoop env' lift scope o' = doLoop env lift scope o := by
  simp only [doLoop, h.region_eq ho, h.yielded_eq, h.compound_eq]

theorem forLoop_eq : forLoop env' lift scope o' = forLoop env lift scope o := by
  simp only [forLoop, h.region_eq ho, h.malformed_eq ho, h.yielded_eq, h.yields_eq, h.compound_eq,
    h.graph.regionOps_eq]

theorem innerScope_eq : innerScope env' lift scope o' = innerScope env lift scope o := by
  simp only [innerScope, h.region_eq ho, h.compound_eq]

omit lift in
theorem returns_eq : returns env' scope o' = returns env scope o := by
  simp only [returns, ho.operands_eq, h.malformed_eq ho]

end Regions

/-! ### Declarations -/

theorem fields_eq (decl : DeclId) (index : Nat) (ops : List OpId) :
    fields env' decl index ops = fields env decl index ops := by
  induction ops generalizing index with
  | nil => rfl
  | cons id ops ih =>
      rw [fields, fields]
      refine h.operation_bind (fun o o' ho => ?_) id
      simp only [ho.kind, ho.typeAttr?_eq, h.malformed_eq ho, h.chooseName_eq ho, h.type_eq, ih]

section Declarations

variable {o o' : Operation} (ho : o.Namesake o') (scope : Scope)

include ho

omit h in
theorem registerSymbol_eq (decl : DeclId) :
    registerSymbol scope o' decl = registerSymbol scope o decl := by
  rw [registerSymbol, registerSymbol, ho.symbol?_eq]

theorem params_eq (decl : DeclId) (entry : Option BlockId) (index : Nat) (inputs : List TypeId) :
    params env' o' decl entry index inputs = params env o decl entry index inputs := by
  induction inputs generalizing index with
  | nil => rfl
  | cons input inputs ih => simp only [params, h.chooseName_eq ho, h.type_eq, ih]

theorem function_eq : function env' scope o' = function env scope o := by
  have hregion : env'.graph.region? = env.graph.region? := funext h.graph.region?_eq
  simp only [function, ho.typeAttr?_eq, ho.id_eq, ho.regions_eq, registerSymbol_eq ho,
    h.malformed_eq ho, h.chooseName_eq ho, h.type_eq, h.params_eq ho, h.graph.types, hregion]

theorem var_eq : var env' scope o' = var env scope o := by
  simp only [var, storageOf, ho.textAttr?_eq, ho.id_eq, ho.regions_eq, registerSymbol_eq ho,
    h.resultType_eq ho, h.chooseName_eq ho, h.type_eq, h.graph.regionOps_eq]

theorem record_eq : record env' scope o' = record env scope o := by
  have hops : env'.graph.regionOps = env.graph.regionOps := funext h.graph.regionOps_eq
  simp only [record, ho.id_eq, ho.regions_eq, h.chooseName_eq ho, h.fields_eq, hops]

end Declarations

/-! ### Runs -/

theorem rule_eq (lift : OpLifter) : rule env' lift = rule env lift := by
  have hops : env'.graph.regionOps = env.graph.regionOps := funext h.graph.regionOps_eq
  funext scope id
  refine h.operation_bind (fun o o' ho => ?_) id
  -- The rule is chosen by the kind and, for scopes, by the name: both are those of the namesake.
  simp only [ho.kind, ho.text_eq, ho.regions_eq, hops, h.noRule_eq ho, h.innerScope_eq lift scope ho,
    h.function_eq ho, h.var_eq ho, h.record_eq ho, h.chooseName_eq ho, h.ifElse_eq lift scope ho,
    h.whileLoop_eq lift scope ho, h.doLoop_eq lift scope ho, h.forLoop_eq lift scope ho,
    h.returns_eq scope ho, h.wrapper_eq lift scope ho, h.simpleExpr_eq ho]

theorem opAux_eq (bound : Nat) : opAux env' bound = opAux env bound := by
  induction bound with
  | zero =>
      funext scope id
      rw [opAux, opAux]
  | succ bound ih =>
      funext scope id
      rw [opAux, opAux, h.rule_eq, ih]

theorem op_eq : op env' = op env := by
  rw [op, op, h.graph.size, h.opAux_eq]

theorem task_eq : task env' = task env := by
  funext t
  cases t with
  | body function region => rw [task, task, h.op_eq, h.compound_eq]
  | init scope var region => rw [task, task, h.op_eq, h.yielded_eq]

theorem run_eq : run env' = run env := by
  have hdrain : drain env' = drain env := by
    funext s
    rw [drain, drain, h.task_eq, h.graph.size]
  rw [run, run, h.op_eq, h.graph.topLevelOps_eq, hdrain]

end LiftEnv.Reidentifies

/-- Graphs that differ in identities only have the same lift. -/
theorem Graph.Reidentifies.lift_same {g g' : Graph} (h : g.Reidentifies g') {naming : Naming}
    (anonymous : naming.Anonymous) (c : LiftConfig) : g'.lift naming c = g.lift naming c := by
  have henv : LiftEnv.Reidentifies ⟨g, naming, c.showOps⟩ ⟨g', naming, c.showOps⟩ :=
    ⟨h, rfl, anonymous, rfl⟩
  rw [Graph.lift, Graph.lift, henv.run_eq]

/-- **Kinds follow names.** Let no other name of the dialect have the identity of a name; all names of the
dialect are such. Over every registry, an operation of that name is added alike with and without its
identity, and is of the kind that has the name, if there is one. So a lift that does not choose names by
looking at identities (`Naming.Anonymous`, as the standard naming is) does not depend on which of these
names the registry knows. -/
theorem Graph.kinds_follow_names (names : List String) :
    (∀ k : Kind, OpIdentity.Apart k.name) ∧
      (∀ (g : Graph) (block : BlockId) (spec : OpSpec), g.registry = .ofNames names →
        OpIdentity.Apart spec.name →
        Together (Build.createOperation block { spec with isUnregistered := false })
          (Build.createOperation block { spec with isUnregistered := true }) g g
          (fun id id' t t' => id' = id ∧ ∃ o o', t.op? id = some o ∧ t'.op? id = some o' ∧
            o.name = ⟨spec.name, (Registry.ofNames names).lookup? spec.name⟩ ∧
            o' = { o with name := ⟨spec.name, none⟩ } ∧
            ∀ k, (o.kind? = some k ↔ k.name = spec.name) ∧ (o'.kind? = some k ↔ k.name = spec.name)) Eq) ∧
      (∀ (steps : List BuildStep) (id : OpId) (o : Operation),
        (build (.ofNames names) steps).op? id = some o → OpIdentity.Apart o.name.text →
        ∀ k, o.kind? = some k ↔ k.name = o.name.text) ∧
      ∀ names' : List String, (∀ n, (n ∈ names' ↔ n ∈ names) ∨ OpIdentity.Apart n) →
        ∀ (steps : List BuildStep) (naming : Naming) (c : LiftConfig), naming.Anonymous →
          (build (.ofNames names') steps).lift naming c =
            (build (.ofNames names) steps).lift naming c := by
  refine ⟨OpIdentity.apart_name, ?_, ?_, ?_⟩
  · intro g block spec hregistry hapart
    refine (createOperation_unregistered g block spec).imp ?_
    rintro id _ t t' ⟨rfl, o, ho, hname, ho'⟩
    rw [hregistry] at hname
    refine ⟨rfl, o, _, ho, ho', hname, rfl, fun k => ⟨?_, ?_⟩⟩
    · rw [Operation.kind?, hname, Registry.kind?_lookup? names hapart, Kind.ofName?_eq_some_iff]
    · rw [Operation.kind?, OpName.kind?_unregistered, Kind.ofName?_eq_some_iff]
  · intro steps id o ho hapart k
    rw [(identified_build _ steps).kind? ho hapart, Kind.ofName?_eq_some_iff]
  · intro names' hnames steps naming c hanonymous
    exact (reidentifies_build (Registry.agree_ofNames hnames) steps).lift_same hanonymous c

/-- An empty statement, over a registry that knows its name and one that does not. -/
theorem Graph.kinds_follow_names_skip :
    (OpIdentity.Apart "hl.skip" ∧
      Together (Build.createOperation 0 ⟨"hl.skip", [], [], .empty, false⟩)
        (Build.createOperation 0 ⟨"hl.skip", [], [], .empty, true⟩)
        (ofRegistry (.ofNames ["hl.skip"])) (ofRegistry (.ofNames ["hl.skip"]))
        (fun id id' t t' => id' = id ∧ ∃ o o', t.op? id = some o ∧ t'.op? id = some o' ∧
          o.name = ⟨"hl.skip", (Registry.ofNames ["hl.skip"]).lookup? "hl.skip"⟩ ∧
          o' = { o with name := ⟨"hl.skip", none⟩ } ∧
          ∀ k, (o.kind? = some k ↔ k.name = "hl.skip") ∧ (o'.kind? = some k ↔ k.name = "hl.skip")) Eq) ∧
      ((build (.ofNames ["hl.skip"]) [.createOperation 0 ⟨"hl.skip", [], [], .empty, true⟩]).op? 0 =
          some ⟨0, ⟨"hl.skip", none⟩, [], [], [], .empty, some 0⟩ ∧
        ∀ k, (OpName.mk "hl.skip" none).kind? = some k ↔ k.name = "hl.skip") ∧
      (∀ n, (n ∈ [] ↔ n ∈ ["hl.skip"]) ∨ OpIdentity.Apart n) ∧
      (build (.ofNames []) [.createOperation 0 ⟨"hl.skip", [], [], .empty, false⟩]).lift .standard
          (.forTarget .host) =
        (build (.ofNames ["hl.skip"]) [.createOperation 0 ⟨"hl.skip", [], [], .empty, false⟩]).lift
          .standard (.forTarget .host) := by
  have hnames (n : String) : (n ∈ [] ↔ n ∈ ["hl.skip"]) ∨ OpIdentity.Apart n := by
    by_cases hskip : n = "hl.skip"
    · exact .inr (hskip ▸ OpIdentity.apart_name .skip)
    · exact .inl (by simp [hskip])
  have hbuilt : (build (.ofNames ["hl.skip"])
      [.createOperation 0 ⟨"hl.skip", [], [], .empty, true⟩]).op? 0 =
        some ⟨0, ⟨"hl.skip", none⟩, [], [], [], .empty, some 0⟩ := by decide +kernel
  obtain ⟨hapart, hcreated, hkind, hlift⟩ := kinds_follow_names ["hl.skip"]
  exact ⟨⟨hapart .skip, hcreated _ 0 ⟨"hl.skip", [], [], .empty, false⟩ rfl (hapart .skip)⟩,
    ⟨hbuilt, hkind _ 0 _ hbuilt (hapart .skip)⟩, hnames, hlift _ hnames _ _ _ Naming.anonymous_standard⟩

end Readback
