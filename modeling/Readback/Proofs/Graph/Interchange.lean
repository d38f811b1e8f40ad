import Readback.Graph.Interchange
import Readback.Proofs.Data.Dict
import Readback.Proofs.Graph.Types
import Readback.Proofs.Graph.Uses
import Readback.Proofs.Program.Interchange

/-! # Graphs and their interchange form

The interchange form of a graph gives the graph back, with its recorded uses, if all floats among its
attributes are finite (`Graph.floatsFinite`), and cannot be read otherwise. Ids, indices and sizes are
written with a fixed width, which they have to fit, and keys are written once.

As for programs, each type of the model has a function `fits`, which says which numbers in it have to
fit, and a lemma `ofJson?_toJson`, that reading what was written gives the value back.

* Types of a graph come in four groups, which are read by different tables of tags. Types that refer to
  others are known by none of the other tags (`ofChoice?_derived`), so each group is read by its own
  table.
* Attributes are written as an object, with their names as keys; they come back in their order
  (`attributesOfJson?_object`), provided that no name is given twice. Names of operations come back with
  their identities (`OpName.ofJson?_toJson`).
* Registries are written as the names that they know, and come back in their order
  (`Registry.ofJson?_toJson`).
* Operations, regions and blocks come back in their places. The uses of values are not among what is
  written; reading records them afresh from the operands.

The result is `Graph.ofJson?_toJson`. It asks of the recorded uses that recording them afresh changes
nothing, which holds of every graph that was built step by step. -/

namespace Readback

open Json

/-! ### Types -/

theorem PlainShape.ofTag?_tag (k : PlainShape) : ofTag? k.tag = some k := by cases k <;> rfl

theorem IntegerShape.ofTag?_tag (k : IntegerShape) :
    PlainShape.ofTag? k.tag = none ∧ ofTag? k.tag = some k := by cases k <;> exact ⟨rfl, rfl⟩

theorem NamedShape.ofTag?_tag (k : NamedShape) :
    PlainShape.ofTag? k.tag = none ∧ IntegerShape.ofTag? k.tag = none ∧ ofTag? k.tag = some k := by
  cases k <;> exact ⟨rfl, rfl, rfl⟩

theorem Predicate.ofTag?_tag (p : Predicate) : ofTag? p.tag = some p := by
  cases p <;> decide +kernel

theorem Cv.ofJson?_toJson (q : Cv) : ofJson? q.toJson = some q := by
  simp [ofJson?, toJson, bool?]

theorem Ucv.ofJson?_toJson (q : Ucv) : ofJson? q.toJson = some q := by
  simp [ofJson?, toJson, bool?]

namespace Shape

/-- Whether the ids and the size fit. -/
def fits (s : Shape) : Bool :=
  s.parts.all isIndex &&
    match s with
    | .array _ size _ => size.all isSize
    | _ => true

@[simp] theorem ofJson?_tagged (tag : String) (content : Json) :
    ofJson? (tagged tag content) = ofChoice? tag content := rfl

/-- Types that refer to others are known by none of the other tags. -/
theorem ofChoice?_derived {tag : String} (h : tag ∈ ["Pointer", "Array", "LValue", "Function"])
    (content : Json) : ofChoice? tag content = derivedOfJson? tag content := by
  have hother : ∀ tag ∈ ["Pointer", "Array", "LValue", "Function"], PlainShape.ofTag? tag = none ∧
      IntegerShape.ofTag? tag = none ∧ NamedShape.ofTag? tag = none := by decide +kernel
  obtain ⟨hplain, hinteger, hnamed⟩ := hother tag h
  rw [ofChoice?, hplain, hinteger, hnamed]

theorem ofJson?_toJson {s : Shape} (h : s.fits) : ofJson? s.toJson = some s := by
  obtain ⟨hparts, hsize⟩ := Bool.and_eq_true_iff.mp h
  cases s with
  | plain kind quals =>
      have hread : optional Cv.ofJson? (some (ofOption Cv.toJson quals)) = some quals :=
        optional_ofOption fun q _ => ⟨nofun, q.ofJson?_toJson⟩
      simp [toJson, ofChoice?, kind.ofTag?_tag, hread]
  | integer kind quals =>
      have hread : optional Ucv.ofJson? (some (ofOption Ucv.toJson quals)) = some quals :=
        optional_ofOption fun q _ => ⟨nofun, q.ofJson?_toJson⟩
      simp [toJson, ofChoice?, kind.ofTag?_tag, hread]
  | pointer element quals =>
      have hquals : optional Quals.ofJson? (some (ofOption Quals.toJson quals)) = some quals :=
        optional_ofOption fun q _ => ⟨nofun, q.ofJson?_toJson⟩
      simp only [parts, List.all_cons, Bool.and_eq_true] at hparts
      simp [toJson, ofChoice?_derived, derivedOfJson?, index?_ofNat hparts.1, hquals]
  | array element size quals =>
      have hquals : optional Quals.ofJson? (some (ofOption Quals.toJson quals)) = some quals :=
        optional_ofOption fun q _ => ⟨nofun, q.ofJson?_toJson⟩
      simp only [parts, List.all_cons, Bool.and_eq_true] at hparts
      simp [toJson, ofChoice?_derived, derivedOfJson?, index?_ofNat hparts.1,
        optional_size?_ofNat hsize, hquals]
  | lvalue element =>
      simp only [parts, List.all_cons, Bool.and_eq_true] at hparts
      simp [toJson, ofChoice?_derived, derivedOfJson?, index?_ofNat hparts.1]
  | function inputs results =>
      simp only [parts, List.all_append, Bool.and_eq_true] at hparts
      simp [toJson, ofChoice?_derived, derivedOfJson?, listOf?_ofNats hparts.1,
        listOf?_ofNats hparts.2]
  | named kind name => simp [toJson, ofChoice?, kind.ofTag?_tag, text?]

end Shape

/-- The types of a table come back in their places. -/
theorem TypeTable.ofJson?_toJson {t : TypeTable} (h : t.entries.toList.all Shape.fits)
    (distinct : Interned.Distinct t) : ofJson? t.toJson = some t := by
  have htypes : listOf? Shape.ofJson? (.list (t.entries.toList.map Shape.toJson)) =
      some t.entries.toList :=
    listOf?_map_self fun s hs => Shape.ofJson?_toJson (List.all_eq_true.mp h s hs)
  simp [ofJson?, toJson, htypes, distinct.ofList_entries]

/-! ### Attributes, values and names -/

namespace Attribute

/-- Whether the id of a type fits. -/
def fits : Attribute → Bool
  | .type value => isIndex value
  | _ => true

/-- Whether it is not an infinity or a NaN. -/
def isFinite : Attribute → Bool
  | .float value => value.isFinite
  | _ => true

@[simp] theorem ofJson?_tagged (tag : String) (content : Json) :
    ofJson? (tagged tag content) = ofChoice? tag (some content) := rfl

theorem ofJson?_toJson {a : Attribute} (h : a.fits) :
    ofJson? a.toJson = if a.isFinite then some a else none := by
  cases a with
  | integer value => simp [toJson, ofChoice?, isFinite, integer?_ofInteger]
  | float value =>
      have hread := float?_ofFloat value
      cases hv : value.isFinite <;> simp [toJson, ofChoice?, isFinite, hread, hv]
  | text value => simp [toJson, ofChoice?, isFinite, Json.text?]
  | bool value => simp [toJson, ofChoice?, isFinite, bool?]
  | type value => simp [toJson, ofChoice?, isFinite, index?_ofNat h]
  | symbol value => simp [toJson, ofChoice?, isFinite, Json.text?]
  | conversion value => simp [toJson, ofChoice?, isFinite, value.ofName?_name]
  | predicate value => simp [toJson, ofChoice?, isFinite, value.ofTag?_tag]
  | texts value => simp [toJson, ofChoice?, isFinite, listOf?_ofTexts]
  | unit => rfl

end Attribute

namespace Value

/-- Whether the id and the index fit. -/
def fits : Value → Bool
  | .result op index => isIndex op && isIndex index
  | .argument block index => isIndex block && isIndex index

@[simp] theorem ofJson?_tagged (tag : String) (content : Json) :
    ofJson? (tagged tag content) = ofChoice? tag content := rfl

theorem ofJson?_toJson {v : Value} (h : v.fits) : ofJson? v.toJson = some v := by
  cases v with
  | result op index =>
      obtain ⟨hop, hindex⟩ := Bool.and_eq_true_iff.mp h
      simp [toJson, ofChoice?, index?_ofNat hop, index?_ofNat hindex]
  | argument block index =>
      obtain ⟨hblock, hindex⟩ := Bool.and_eq_true_iff.mp h
      simp [toJson, ofChoice?, index?_ofNat hblock, index?_ofNat hindex]

end Value

theorem OpIdentity.ofJson?_toJson (i : OpIdentity) : ofJson? (toJson i) = some i := by
  have hsize : isSize i.toNat := decide_eq_true i.toNat_lt
  simp [ofJson?, toJson, size?_ofNat hsize]

theorem OpName.ofJson?_toJson (n : OpName) : ofJson? n.toJson = some n := by
  have hidentity : optional OpIdentity.ofJson? (some (ofOption OpIdentity.toJson n.identity)) =
      some n.identity := optional_ofOption fun i _ => ⟨nofun, i.ofJson?_toJson⟩
  simp [ofJson?, toJson, text?, hidentity]

/-! ### Nodes -/

namespace Operation

/-- Whether the ids fit and no attribute is given twice. -/
def fits (o : Operation) : Bool :=
  isIndex o.id && o.operands.all Value.fits && o.resultTypes.all isIndex && o.regions.all isIndex &&
    o.attributes.Keyed && (o.attributes.entries.all fun e => e.2.fits) && o.parent.all isIndex

/-- Whether all floats among the attributes are finite. -/
def floatsFinite (o : Operation) : Bool := o.attributes.entries.all fun e => e.2.isFinite

/-- The attributes come back in their order. -/
theorem attributesOfJson?_object {d : Dict String Attribute} (keyed : d.Keyed)
    (h : ∀ e ∈ d.entries, e.2.fits) :
    attributesOfJson? (.object (d.entries.map fun e => (e.1, e.2.toJson))) =
      if d.entries.all fun e => e.2.isFinite then some d else none := by
  have hread := mapM_members fun e he => Attribute.ofJson?_toJson (h e he)
  rw [attributesOfJson?, members?]
  refine (congrArg (Option.bind · fun entries => some (Dict.ofList entries)) hread).trans ?_
  split
  · exact congrArg some keyed.ofList_entries
  · rfl

theorem ofJson?_toJson {o : Operation} (h : o.fits) :
    ofJson? o.toJson = if o.floatsFinite then some o else none := by
  simp only [fits, Bool.and_eq_true, decide_eq_true_eq, List.all_eq_true] at h
  obtain ⟨⟨⟨⟨⟨⟨hid, hoperands⟩, hresults⟩, hregions⟩, hkeyed⟩, hattributes⟩, hparent⟩ := h
  have hread : attributesOfJson? _ = if o.floatsFinite then some o.attributes else none :=
    attributesOfJson?_object hkeyed hattributes
  cases hf : o.floatsFinite <;>
    simp [ofJson?, toJson, index?_ofNat hid, OpName.ofJson?_toJson,
      listOf?_map_self fun v hv => Value.ofJson?_toJson (hoperands v hv),
      listOf?_ofNats (List.all_eq_true.mpr hresults),
      listOf?_ofNats (List.all_eq_true.mpr hregions), hread, hf, optional_index?_ofNat hparent]

end Operation

namespace Region

/-- Whether the ids fit. -/
def fits (r : Region) : Bool := isIndex r.id && r.parent.all isIndex && r.blocks.all isIndex

theorem ofJson?_toJson {r : Region} (h : r.fits) : ofJson? r.toJson = some r := by
  simp only [fits, Bool.and_eq_true] at h
  obtain ⟨⟨hid, hparent⟩, hblocks⟩ := h
  simp [ofJson?, toJson, index?_ofNat hid, optional_index?_ofNat hparent, listOf?_ofNats hblocks]

end Region

namespace Block

/-- Whether the ids fit. -/
def fits (b : Block) : Bool :=
  isIndex b.id && isIndex b.region && b.arguments.all isIndex && b.operations.all isIndex

theorem ofJson?_toJson {b : Block} (h : b.fits) : ofJson? b.toJson = some b := by
  simp only [fits, Bool.and_eq_true] at h
  obtain ⟨⟨⟨hid, hregion⟩, harguments⟩, hoperations⟩ := h
  simp [ofJson?, toJson, index?_ofNat hid, index?_ofNat hregion, listOf?_ofNats harguments,
    listOf?_ofNats hoperations]

end Block

/-- The names of a registry come back in their order. -/
theorem Registry.ofJson?_toJson {r : Registry} (h : r.operations.Keyed) :
    ofJson? r.toJson = some r := by
  have hread := @mapM_members _ OpIdentity.ofJson? OpIdentity.toJson (fun _ => true)
    r.operations.entries fun e _ => OpIdentity.ofJson?_toJson e.2
  rw [ofJson?, toJson, fields?_object (by simp) (by simp)]
  refine (congrArg (Option.bind · fun entries => some (mk (Dict.ofList entries))) hread).trans ?_
  simp [h.ofList_entries]

/-! ### Graphs -/

namespace Graph

/-- Whether all numbers but those of constants fit their widths, 32 bits for ids and indices and 64
bits for sizes of arrays, and no name or attribute is entered twice. -/
def fits (g : Graph) : Bool :=
  g.operations.toList.all Operation.fits && g.regions.toList.all Region.fits &&
    g.blocks.toList.all Block.fits && g.types.entries.toList.all Shape.fits &&
    g.registry.operations.Keyed && isIndex g.body

/-- Whether all floats among the attributes are finite. -/
def floatsFinite (g : Graph) : Bool := g.operations.toList.all Operation.floatsFinite

/-- The interchange form gives the graph back if all floats among its attributes are finite, and
none otherwise. -/
theorem ofJson?_toJson {g : Graph} (h : g.fits) (distinct : g.types.Distinct)
    (recorded : g.rebuildUses = g) :
    ofJson? g.toJson = if g.floatsFinite then some g else none := by
  simp only [fits, Bool.and_eq_true, decide_eq_true_eq, List.all_eq_true] at h
  obtain ⟨⟨⟨⟨⟨hoperations, hregions⟩, hblocks⟩, htypes⟩, hregistry⟩, hbody⟩ := h
  have hread : listOf? Operation.ofJson? (.list (g.operations.toList.map Operation.toJson)) =
      if g.floatsFinite then some g.operations.toList else none :=
    listOf?_map fun o ho => Operation.ofJson?_toJson (hoperations o ho)
  cases hf : g.floatsFinite <;>
    simp [ofJson?, toJson, hread, hf,
      listOf?_map_self fun r hr => Region.ofJson?_toJson (hregions r hr),
      listOf?_map_self fun b hb => Block.ofJson?_toJson (hblocks b hb),
      TypeTable.ofJson?_toJson (List.all_eq_true.mpr htypes) distinct,
      Registry.ofJson?_toJson hregistry, index?_ofNat hbody]
  exact recorded

end Graph

end Readback
