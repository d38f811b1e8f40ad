import Readback.Layout.Unit
import Readback.Proofs.Reading.Declaration
import Readback.Proofs.Typing.Changes
import Readback.Proofs.Typing.Signature

/-! # Declarations of constructed programs are read back

In a constructed program every type stands for a C type, and its declarator around a name is read as a
declaration of that name and type, and in no other way. So is the head of a function that has its
parameters: they were checked against its type, and none of them is `void`, which would be read as no
parameter at all.

* `IsName` is a text that can stand as the name in a declarator: an identifier, or nothing.
* `Program.Legible` is the condition on the types that are read: their records have identifiers as
  names, no two the same, and no function type within them has `void` as its one parameter. A record is
  known by its name in C and by its declaration in a program (`Program.Tags`), which is why names must
  differ.
* `Program.ReadsAs` says that a text is read as a declaration and as no other. That there is no other
  one is a fact about declarators; that there is this one is shown for declarators around a name
  (`Legible.declarator_spells`) and for heads (`Legible.header_spells`).
* The head of a function is its result type around its name and parameters, each of which has its own
  name and type (`Legible.params_spell`). What the function has for parameters fits its type, so the
  head is read as the type of the function (`Signed.fits`).

The main result is `Program.Constructed.declarators_read_back`. The type that is read has the qualifiers
of arrays on their elements and none on functions, where C has no place for them.
`Constructed.declarators_read_back_callbacks` declares `const` pointers to functions in an array, and a
function that returns such a pointer. -/

namespace Readback

/-- A text that can stand as the name in a declarator: an identifier, or nothing. -/
def IsName (x : String) : Prop := x = "" ∨ isIdentifier x = true

theorem IsName.spells {named : String → DeclId → Prop} {x : String} (h : IsName x) :
    Spells named (lexemes x) (.direct x []) := by
  obtain rfl | h := h
  · exact .abstract
  · rw [lexemes_identifier h]
    exact .name h

namespace Program

/-- The record has the name and occurs in one of the types. -/
def Tags (p : Program) (cs : List CType) (s : String) (d : DeclId) : Prop :=
  (p.decl d).name = s ∧ ∃ c ∈ cs, ∃ quals, .record quals d ∈ c.within

/-- The types can be told from their texts: their records have identifiers as names, no two the
same, and no function type within them has `void` as its one parameter. -/
structure Legible (p : Program) (cs : List CType) : Prop where
  identifier : ∀ s d, p.Tags cs s d → isIdentifier s = true
  distinct : ∀ s d d', p.Tags cs s d → p.Tags cs s d' → d = d'
  prototyped : ∀ c ∈ cs, ∀ quals result,
    .function quals result [.builtin .none .void] false ∉ c.within

/-- The text is read as the declaration and as no other, where records of the types are known by
their names. -/
def ReadsAs (p : Program) (cs : List CType) (s : String) (d : Declaration) : Prop :=
  ∀ d', SpellsText (p.Tags cs) s d' ↔ d' = d

variable {p : Program} {cs : List CType}

theorem Legible.ctype (h : p.Legible cs) {c : CType} (hc : c ∈ cs) :
    c.Legible (p.Tags cs) fun d => (p.decl d).name where
  tagged quals d hd := ⟨h.identifier _ d ⟨rfl, c, hc, quals, hd⟩, rfl, c, hc, quals, hd⟩
  prototyped := h.prototyped c hc

theorem Legible.readsAs (h : p.Legible cs) {s : String} {d : Declaration}
    (hd : SpellsText (p.Tags cs) s d) : p.ReadsAs cs s d := by
  refine fun d' => ⟨fun hd' => hd'.unique h.distinct hd, ?_⟩
  rintro rfl
  exact hd

/-- A declarator around a name. -/
theorem Legible.declarator_spells (h : p.Legible cs) {t : QualType} (ht : p.types.tree t ∈ cs)
    {x : String} (hx : IsName x) :
    ∃ d, SpellsText (p.Tags cs) (p.declarator t x) d ∧ d.name = x ∧
      d.type = (p.types.tree t).normal .none := by
  obtain ⟨base, es, hspells, htype⟩ := CType.declarator_spells (p.types.tree t) .none x x []
    (h.ctype ht) (CType.inside_of_direct _ hx.spells)
  exact ⟨⟨x, base, es⟩, hspells, rfl, htype⟩

/-! ### Heads of functions -/

/-- The C type of what is declared. -/
def declaredType (p : Program) (x : DeclId) : CType :=
  p.types.tree ((p.decl x).type?.getD default)

theorem Fits.type? {x : DeclId} {t : QualType} (h : p.Fits x t) :
    ∃ type, (p.decl x).type? = some type ∧ type.ref = t.ref := by
  obtain ⟨type, index, hx, href⟩ := h
  exact ⟨type, type?_of_param hx, href⟩

/-- The parameters in a head are read with their names and types. -/
theorem Legible.params_spell (h : p.Legible cs) {params : List DeclId} {types : List QualType}
    (fits : List.Forall₂ p.Fits params types) (hnames : ∀ x ∈ params, IsName (p.decl x).name)
    (hmem : ∀ x ∈ params, p.declaredType x ∈ cs) :
    ∃ ds, List.Forall₂ (SpellsText (p.Tags cs))
        ((params.zip types).map fun x =>
          p.declarator ((p.decl x.1).type?.getD x.2) (p.decl x.1).name) ds ∧
      ds.map (fun d => (d.name, d.type)) =
        params.map fun x => ((p.decl x).name, (p.declaredType x).normal .none) := by
  induction fits with
  | nil => exact ⟨[], .nil, rfl⟩
  | @cons x t params types hx _ ih =>
      rw [List.forall_mem_cons] at hnames hmem
      obtain ⟨ds, hds, hmap⟩ := ih hnames.2 hmem.2
      obtain ⟨type, htype?, -⟩ := hx.type?
      have htree : p.declaredType x = p.types.tree type := by rw [declaredType, htype?]; rfl
      obtain ⟨d, hd, hname, htype⟩ := h.declarator_spells (htree ▸ hmem.1) hnames.1
      refine ⟨d :: ds, .cons ?_ hds, ?_⟩
      · dsimp only
        rw [htype?]
        exact hd
      · rw [List.map_cons, List.map_cons, hmap, hname, htype, htree]

/-- A parameter is not read as `void`. -/
theorem Signed.declaredType_ne (h : p.Signed) (ordered : p.types.Ordered) {x : DeclId}
    {t : QualType} (hx : p.Fits x t) :
    (p.declaredType x).normal .none ≠ .builtin .none .void := by
  obtain ⟨type, index, hkind, -⟩ := hx
  obtain ⟨node, hget, hne⟩ := h.sized x type index hkind
  have hnode : p.types.node type = node := by rw [TypeArena.node, hget]; rfl
  rw [declaredType, type?_of_param hkind, Option.getD_some, ordered.tree_eq, hnode]
  cases node <;> simp_all [CType.normal]

/-- What a function is given fits its type. -/
theorem Signed.fits (h : p.Signed) {f : DeclId} {type : QualType} {params : List DeclId}
    {body : Option StmtId} {locals : List DeclId} {result : QualType} {types : List QualType}
    {isVariadic : Bool} (hf : (p.decl f).kind = .function type params body locals)
    (hparts : p.functionParts? type = some (result, types, isVariadic))
    (hlength : params.length = types.length) : List.Forall₂ p.Fits params types := by
  cases params with
  | nil =>
      obtain rfl := List.length_eq_zero_iff.mp hlength.symm
      exact .nil
  | cons x params =>
      obtain ⟨_, _, _, hget, fits⟩ := h.accepted f type _ body locals hf (List.cons_ne_nil x params)
      cases hget.symm.trans (get?_of_functionParts? hparts)
      exact fits

/-- The head of a function is its result type around its name and parameters. -/
theorem Legible.header_spells (h : p.Legible cs) (signed : p.Signed) (ordered : p.types.Ordered)
    {f : DeclId} {type : QualType} {params : List DeclId} {body : Option StmtId}
    {locals : List DeclId} {result : QualType} {types : List QualType} {isVariadic : Bool}
    (hf : (p.decl f).kind = .function type params body locals)
    (hparts : p.functionParts? type = some (result, types, isVariadic))
    (fits : List.Forall₂ p.Fits params types) (hresult : p.types.tree result ∈ cs)
    (hmem : ∀ x ∈ params, p.declaredType x ∈ cs) (hname : IsName (p.decl f).name)
    (hnames : ∀ x ∈ params, IsName (p.decl x).name) :
    ∃ text, p.functionHeader f = .ok text ∧
      CType.SpellsAround (p.Tags cs) text (p.decl f).name
        [.function (params.map fun x => ((p.decl x).name, (p.declaredType x).normal .none))
          isVariadic]
        ((p.types.tree result).normal .none) := by
  have hlength := fits.length_eq
  obtain ⟨ds, hds, hmap⟩ := h.params_spell fits hnames hmem
  have hvoid : ∀ d, ds = [d] → isVariadic = false → d.isVoid = false := by
    rintro d rfl -
    refine Bool.eq_false_iff.mpr fun hd => ?_
    cases fits with
    | nil => cases hmap
    | @cons x t params types hx _ =>
        have htype : d.type = (p.declaredType x).normal .none :=
          congrArg Prod.snd (List.cons.inj hmap).1
        exact signed.declaredType_ne ordered hx (htype.symm.trans (Declaration.type_of_isVoid hd))
  have hinner := call_spells hname.spells hds hvoid
  rw [hmap] at hinner
  refine ⟨_, ?_, CType.declarator_spells (p.types.tree result) .none _ _ _ (h.ctype hresult)
    (CType.inside_of_direct _ hinner)⟩
  unfold functionHeader
  simp only [hf, hparts, if_pos hlength]
  rfl

/-- Parameters have types that stand for C types. -/
theorem WellTyped.denotes_params (typed : p.WellTyped) {params : List DeclId}
    {types : List QualType} (fits : List.Forall₂ p.Fits params types) :
    List.Forall₂ (fun x c => ∃ t, (p.decl x).type? = some t ∧ p.types.Denotes t c) params
      (params.map p.declaredType) := by
  induction fits with
  | nil => exact .nil
  | @cons x t params types hx _ ih =>
      refine .cons ?_ ih
      obtain ⟨type, index, hkind, -⟩ := hx
      have htype? := type?_of_param hkind
      have hlt : x < p.decls.size := lt_of_kind_ne (by rw [hkind]; exact nofun)
      refine ⟨type, htype?, ?_⟩
      rw [declaredType, htype?]
      exact typed.types.denotes type (typed.decls x hlt type htype?)

/-- **Declarations are read back.** Every type of a constructed program stands for a C type. If the
records in it have different identifiers as names and no function type lists just `void`, then its
declarator around a name is read in exactly one way: as a declaration of that name with that type,
where qualifiers of an array are those of its elements and functions have none. The head of a
function that has as many parameters as its type is read in exactly one way, too: as a declaration
of its name, as a function that has the names and types of its parameters in their order, that is
variadic if its type is, and that returns its result type. The parameters have the types that the
function asks for up to qualifiers. -/
theorem Constructed.declarators_read_back {p : Program} (h : p.Constructed) :
    (∀ t, p.HasType t → ∃ c, p.types.Denotes t c ∧
      (p.Legible [c] → ∀ x, IsName x → ∃ d, p.ReadsAs [c] (p.declarator t x) d ∧ d.name = x ∧
        d.type = c.normal .none)) ∧
    ∀ f type params body locals result types isVariadic,
      (p.decl f).kind = .function type params body locals →
      p.functionParts? type = some (result, types, isVariadic) → params.length = types.length →
      ∃ r cs, p.types.Denotes result r ∧
        List.Forall₂ (fun x c => ∃ t, (p.decl x).type? = some t ∧ p.types.Denotes t c) params cs ∧
        List.Forall₂ (fun x t => ∃ u, (p.decl x).type? = some u ∧ u.ref = t.ref) params types ∧
        (p.Legible (r :: cs) → (∀ x ∈ f :: params, IsName (p.decl x).name) →
          ∃ text d outer, p.functionHeader f = .ok text ∧ p.ReadsAs (r :: cs) text d ∧
            d.name = (p.decl f).name ∧
            d.derivations = .function
              (List.zipWith (fun x c => ((p.decl x).name, c.normal .none)) params cs) isVariadic ::
                outer ∧
            outer.foldr Derivation.on d.base = r.normal .none) := by
  have typed := h.wellTyped
  refine ⟨fun t ht => ⟨p.types.tree t, typed.types.denotes t ht, fun legible x hx => ?_⟩, ?_⟩
  · obtain ⟨d, hd, hname, htype⟩ := legible.declarator_spells List.mem_cons_self hx
    exact ⟨d, legible.readsAs hd, hname, htype⟩
  · intro f type params body locals result types isVariadic hf hparts hlength
    have fits := h.signed.fits hf hparts hlength
    have hresult : p.HasType result :=
      typed.result (Interned.lt_of_get? (get?_of_functionParts? hparts)) hparts
    refine ⟨p.types.tree result, params.map p.declaredType, typed.types.denotes result hresult,
      typed.denotes_params fits, fits.imp fun _ _ hx => hx.type?, fun legible hnames => ?_⟩
    rw [List.forall_mem_cons] at hnames
    have hmem : ∀ x ∈ params, p.declaredType x ∈ p.types.tree result :: params.map p.declaredType :=
      fun x hx => List.mem_cons_of_mem _ (List.mem_map_of_mem hx)
    obtain ⟨text, htext, base, outer, hspells, houter⟩ := legible.header_spells h.signed typed.types
      hf hparts fits List.mem_cons_self hmem hnames.1 hnames.2
    refine ⟨text, _, outer, htext, legible.readsAs hspells, rfl, ?_, houter⟩
    rw [List.zipWith_map_right, List.zipWith_self]
    rfl

/-- `const` pointers to functions in an array, and a function that returns such a pointer. -/
theorem Constructed.declarators_read_back_callbacks :
    ∃ (p : Program) (callback : CType), p.Constructed ∧
      callback = .function .none (.builtin .none .int)
        [.pointer .none (.record .const 0), .builtin .none .int] true ∧
      (∃ d, p.types.Denotes ⟨5, .const⟩ (.array .const (.pointer .none callback) (some 2)) ∧
        p.declarator ⟨5, .const⟩ "table" = "int (*const table[2])(const struct S *, int, ...)" ∧
        p.ReadsAs [.array .const (.pointer .none callback) (some 2)]
          (p.declarator ⟨5, .const⟩ "table") d ∧ d.name = "table" ∧
        d.type = .array .none (.pointer .const callback) (some 2)) ∧
      ∃ text cs d outer,
        text = "int (*pick(int n, const struct S *const))(const struct S *, int, ...)" ∧
        p.functionHeader 1 = .ok text ∧ p.ReadsAs cs text d ∧ d.name = "pick" ∧
        d.derivations = .function
          [("n", .builtin .none .int), ("", .pointer .const (.record .const 0))] false :: outer ∧
        outer.foldr Derivation.on d.base = .pointer .none callback := by
  have h₁ := (Constructed.empty ⟨"x86_64-unknown-linux-gnu", false, 16, 32, 64, 64, 64⟩).step
    (.recordDecl .file "S") (by decide +kernel)
  have h₂ := h₁.step (.recordType 0) (by decide +kernel)
  have h₃ := h₂.step (.pointerTo ⟨0, .const⟩) (by decide +kernel)
  have h₄ := h₃.step (.builtin .int) (by decide +kernel)
  have h₅ := h₄.step (.functionType (.plain 2) [.plain 1, .plain 2] true) (by decide +kernel)
  have h₆ := h₅.step (.pointerTo (.plain 3)) (by decide +kernel)
  have h₇ := h₆.step (.arrayOf (.plain 4) (some 2)) (by decide +kernel)
  have h₈ := h₇.step (.functionType (.plain 4) [.plain 2, .plain 1] false) (by decide +kernel)
  have h₉ := h₈.step (.functionDecl .file "pick" (.plain 6)) (by decide +kernel)
  have h₁₀ := h₉.step (.param 1 "n" (.plain 2) 0) (by decide +kernel)
  have h₁₁ := h₁₀.step (.param 1 "" ⟨1, .const⟩ 1) (by decide +kernel)
  have h₁₂ := h₁₁.step (.setParams 1 [2, 3]) (by decide +kernel)
  generalize hp : (Construction.setParams 1 [2, 3]).after _ = p at h₁₂
  have htypes : p.types.entries = #[.record 0, .pointer ⟨0, .const⟩, .builtin .int,
      .function (.plain 2) [.plain 1, .plain 2] true, .pointer (.plain 3),
      .array (.plain 4) (some 2), .function (.plain 4) [.plain 2, .plain 1] false] := by
    rw [← hp]
    decide +kernel
  have hget : ∀ i, p.types.get? i = _ := fun i => congrArg (fun a : Array TypeNode => a[i]?) htypes
  have hstruct : ∀ q, p.types.Denotes ⟨1, q⟩ (.pointer q (.record .const 0)) := fun q =>
    ⟨rfl, ⟨0, .const⟩, hget 1, rfl, hget 0⟩
  have hint : p.types.Denotes (.plain 2) (.builtin .none .int) := ⟨rfl, hget 2⟩
  have hcallback : p.types.Denotes (.plain 3) (.function .none (.builtin .none .int)
      [.pointer .none (.record .const 0), .builtin .none .int] true) :=
    ⟨rfl, .plain 2, [.plain 1, .plain 2], hget 3, hint, hstruct .none, hint, trivial⟩
  have hpointer : p.types.Denotes (.plain 4) (.pointer .none _) :=
    ⟨rfl, .plain 3, hget 4, hcallback⟩
  have htable : p.types.Denotes ⟨5, .const⟩ (.array .const _ (some 2)) :=
    ⟨rfl, .plain 4, hget 5, hpointer⟩
  have htag : (p.decl 0).name = "S" := by rw [← hp]; decide +kernel
  have legible : ∀ cs : List CType, (∀ c ∈ cs, ∀ q d, .record q d ∈ c.within → d = 0) →
      (∀ c ∈ cs, ∀ q r, .function q r [.builtin .none .void] false ∉ c.within) → p.Legible cs := by
    intro cs hrecord hprototyped
    have hzero : ∀ s d, p.Tags cs s d → d = 0 := fun s d ⟨_, c, hc, q, hd⟩ => hrecord c hc q d hd
    refine ⟨fun s d hd => ?_, fun s d d' hd hd' => ?_, hprototyped⟩
    · obtain rfl := hzero s d hd
      rw [← hd.1, htag]
      decide
    · rw [hzero s d hd, hzero s d' hd']
  obtain ⟨hdeclarators, hheads⟩ := h₁₂.declarators_read_back
  refine ⟨p, _, h₁₂, rfl, ?_, ?_⟩
  · obtain ⟨c, hc, hread⟩ := hdeclarators ⟨5, .const⟩ (Interned.lt_of_get? (hget 5))
    obtain rfl := hc.unique htable
    obtain ⟨d, hd, hname, htype⟩ := hread
      (legible _ (by simp [CType.within, CType.withinAll])
        (by simp [CType.within, CType.withinAll]))
      "table" (.inr (by decide))
    exact ⟨d, htable, by rw [← hp]; decide +kernel, hd, hname, htype⟩
  · have hparts : p.functionParts? (.plain 6) = some (.plain 4, [.plain 2, .plain 1], false) := by
      rw [← hp]
      decide +kernel
    have hkinds : (p.decl 1).kind = .function (.plain 6) [2, 3] none [] ∧
        (p.decl 2).kind = .param (.plain 2) 0 ∧ (p.decl 3).kind = .param ⟨1, .const⟩ 1 := by
      rw [← hp]
      decide +kernel
    have hnames : (p.decl 1).name = "pick" ∧ (p.decl 2).name = "n" ∧ (p.decl 3).name = "" := by
      rw [← hp]
      decide +kernel
    obtain ⟨r, cs, hr, hcs, -, hread⟩ := hheads 1 _ _ _ _ _ _ _ hkinds.1 hparts rfl
    obtain rfl := hr.unique hpointer
    obtain ⟨⟩ | ⟨⟨t₁, ht₁, hc₁⟩, ⟨⟩ | ⟨⟨t₂, ht₂, hc₂⟩, ⟨⟩⟩⟩ := hcs
    cases (type?_of_param hkinds.2.1).symm.trans ht₁
    cases (type?_of_param hkinds.2.2).symm.trans ht₂
    obtain rfl := hc₁.unique hint
    obtain rfl := hc₂.unique (hstruct .const)
    obtain ⟨text, d, outer, htext, hd, hname, hderivations, houter⟩ := hread
      (legible _ (by simp [CType.within, CType.withinAll])
        (by simp [CType.within, CType.withinAll]))
      (by simp [IsName, hnames]; decide)
    have hheader : (p.functionHeader 1).toOption =
        some "int (*pick(int n, const struct S *const))(const struct S *, int, ...)" := by
      rw [← hp]
      decide +kernel
    rw [htext] at hheader
    refine ⟨text, _, d, outer, Option.some.inj hheader, htext, hd, hname.trans hnames.1, ?_, houter⟩
    rw [hderivations]
    simp [hnames, CType.normal]

end Program

end Readback
