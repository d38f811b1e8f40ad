import Mathlib.Logic.Relation
import Readback.Proofs.Graph.Depth
import Readback.Proofs.Program.Types
import Readback.Proofs.Typing.Coherence
import Readback.Proofs.Typing.Signature

/-! # Type ids as names of types

The tables compare one level of a type when they intern it, and ids when they meet a part. That this
decides equality of whole types rests on two facts about how tables grow: no level is there twice, and
every level comes after its parts. By induction along the ids, two ids whose unfolded types are equal
then name the same entry (`TypeTable.Ordered.tree_inj`, `TypeArena.Ordered.tree_inj`).

Both kinds of tables are treated.

* For the types of graphs, `TypeTable.Grown` are the tables made by interning levels over known types,
  and `TypeTable.Canonical` is what is proved of them (`TypeTable.Grown.canonical`).
* For the types of programs, which carry qualifiers, `Program.Canonical` is proved of every program
  under construction (`Program.Constructed.canonical`). `Program.GrowsTo` relates a program to what
  later steps make of it.
* A function takes parameters by comparing ids. `Program.Takes` says what it asks for in terms of whole
  types: as many parameters as the type of the function has, each of the given type up to its own
  qualifiers. `Check.setParams_ok_iff` is that nothing else is asked.

The main result is `types_canonical`, about both kinds of tables; `types_canonical_function` has a small
table and a program with one function for which it is used. -/

namespace Readback

open Step

/-- Functions that are injective on the entries of two lists are injective on the lists. -/
theorem map_injOn {α β : Type} {f : α → β} {l l' : List α}
    (h : ∀ x ∈ l, ∀ y ∈ l', f x = f y → x = y) (heq : l.map f = l'.map f) : l = l' := by
  induction l generalizing l' with
  | nil => exact (List.map_eq_nil_iff.mp heq.symm).symm
  | cons x l ih =>
      obtain ⟨y, rest, rfl, hxy, hrest⟩ := List.map_eq_cons_iff.mp heq.symm
      have hhead : x = y := h x List.mem_cons_self y List.mem_cons_self hxy.symm
      have htail : l = rest := ih (fun a ha b hb =>
        h a (List.mem_cons_of_mem x ha) b (List.mem_cons_of_mem y hb)) hrest.symm
      rw [hhead, htail]

theorem forall₂_congr_mem {α β : Type} {R S : α → β → Prop} {l : List α} {m : List β}
    (h : ∀ x, ∀ y ∈ m, R x y ↔ S x y) : List.Forall₂ R l m ↔ List.Forall₂ S l m := by
  rw [List.forall₂_iff_zip, List.forall₂_iff_zip]
  refine and_congr_right fun _ => ⟨fun hzip x y hmem => ?_, fun hzip x y hmem => ?_⟩
  · exact (h x y (List.of_mem_zip hmem).2).mp (hzip hmem)
  · exact (h x y (List.of_mem_zip hmem).2).mpr (hzip hmem)

/-! ### Types of graphs -/

namespace Shape

theorem unfold_ne_missing (f : TypeId → ShapeTree) (s : Shape) (i : TypeId) :
    s.unfold f ≠ .missing i := by
  cases s <;> exact nofun

/-- A level of a type is known from its unfolding, if its parts are. -/
theorem unfold_inj {f : TypeId → ShapeTree} {s s' : Shape}
    (h : ∀ x ∈ s.parts, ∀ y ∈ s'.parts, f x = f y → x = y) (heq : s.unfold f = s'.unfold f) :
    s = s' := by
  cases s with
  | function inputs results =>
      cases s' with
      | function inputs' results' =>
          obtain ⟨hin, hout⟩ := ShapeTree.function.inj heq
          have hinputs : inputs = inputs' := map_injOn (fun x hx y hy =>
            h x (List.mem_append_left _ hx) y (List.mem_append_left _ hy)) hin
          have hresults : results = results' := map_injOn (fun x hx y hy =>
            h x (List.mem_append_right _ hx) y (List.mem_append_right _ hy)) hout
          rw [hinputs, hresults]
      | _ => cases heq
  | _ => cases s' <;> simp_all [unfold, parts]

end Shape

namespace TypeTable

theorem Ordered.treeAux_eq_tree {t : TypeTable} (h : t.Ordered) {n id : Nat} (hn : id < n) :
    t.treeAux n id = t.tree id :=
  h.treeAux_eq n (t.size + 1) id (fun _ => hn) Nat.lt_succ_of_lt

theorem Ordered.tree_eq_unfold {t : TypeTable} (h : t.Ordered) {id : TypeId} {s : Shape}
    (hs : t.get? id = some s) : t.tree id = s.unfold t.tree := by
  rw [h.tree_eq, hs]
  cases s <;> rfl

theorem Ordered.tree_eq_missing {t : TypeTable} (h : t.Ordered) {id : TypeId}
    (hnone : t.get? id = none) : t.tree id = .missing id := by
  rw [h.tree_eq, hnone]

/-- **Equal types have equal ids.** Unknown ids are their own names. -/
theorem Ordered.tree_inj {t : TypeTable} (h : t.Ordered) (distinct : t.Distinct) {i j : TypeId}
    (heq : t.tree i = t.tree j) : i = j := by
  induction i using Nat.strongRecOn generalizing j with
  | ind i ih =>
      cases hi : t.get? i with
      | none =>
          rw [h.tree_eq_missing hi] at heq
          cases hj : t.get? j with
          | none => exact ShapeTree.missing.inj (heq.trans (h.tree_eq_missing hj))
          | some s' =>
              rw [h.tree_eq_unfold hj] at heq
              exact absurd heq.symm (s'.unfold_ne_missing _ i)
      | some s =>
          rw [h.tree_eq_unfold hi] at heq
          cases hj : t.get? j with
          | none =>
              rw [h.tree_eq_missing hj] at heq
              exact absurd heq (s.unfold_ne_missing _ j)
          | some s' =>
              rw [h.tree_eq_unfold hj] at heq
              have hlevel : s = s' :=
                Shape.unfold_inj (fun x hx y _ hxy => ih x (h i s hi x hx) hxy) heq
              exact distinct i j s hi (hlevel ▸ hj)

theorem Ordered.tree_of_within {t u : TypeTable} (h : t.Ordered) (hu : u.Ordered)
    (within : t.Within u) {i : TypeId} (hi : i < t.size) : u.tree i = t.tree i := by
  induction i using Nat.strongRecOn with
  | ind i ih =>
      have hget : t.get? i = some t.entries[i] := Array.getElem?_eq_getElem hi
      rw [h.tree_eq_unfold hget, hu.tree_eq_unfold (within i _ hget)]
      refine Shape.unfold_congr fun part hpart => ?_
      have hlt := h i _ hget part hpart
      exact ih part hlt (Nat.lt_trans hlt hi)

/-! ### Tables as they grow -/

/-- Interning levels over known types leads from `t` to `u`. -/
def GrowsTo : TypeTable → TypeTable → Prop :=
  Relation.ReflTransGen fun t u => ∃ s : Shape, (∀ part ∈ s.parts, part < t.size) ∧
    u = (t.intern s).2

/-- A table made by interning levels over known types. -/
def Grown (t : TypeTable) : Prop := GrowsTo .empty t

theorem GrowsTo.within {t u : TypeTable} (h : t.GrowsTo u) : t.Within u := by
  induction h with
  | refl => exact .refl t
  | tail _ step ih =>
      obtain ⟨s, -, rfl⟩ := step
      exact ih.trans (Interned.within_intern _ s)

theorem GrowsTo.ordered {t u : TypeTable} (h : t.GrowsTo u) (ht : t.Ordered) : u.Ordered := by
  induction h with
  | refl => exact ht
  | tail _ step ih =>
      obtain ⟨s, hs, rfl⟩ := step
      exact ih.intern hs

theorem GrowsTo.distinct {t u : TypeTable} (h : t.GrowsTo u) (ht : t.Distinct) : u.Distinct := by
  induction h with
  | refl => exact ht
  | tail _ step ih =>
      obtain ⟨s, -, rfl⟩ := step
      exact ih.intern s

theorem Grown.ordered {t : TypeTable} (h : t.Grown) : t.Ordered := GrowsTo.ordered h ordered_empty

theorem Grown.distinct {t : TypeTable} (h : t.Grown) : t.Distinct :=
  GrowsTo.distinct h Interned.distinct_empty

/-- What the ids of a table stand for: unfolding comes to an end, tells ids apart and gives the same
type in every later table; and interning a level gives an id of that level over the types of its
parts. -/
structure Canonical (t : TypeTable) : Prop where
  part_lt : ∀ (i : TypeId) (s : Shape), t.get? i = some s → ∀ part ∈ s.parts, part < i
  unbounded : ∀ (i : TypeId) (n : Nat), i < n → t.treeAux n i = t.tree i
  unfolds : ∀ (i : TypeId) (s : Shape), t.get? i = some s → t.tree i = s.unfold t.tree
  eq_iff : ∀ i j : TypeId, i = j ↔ t.tree i = t.tree j
  stable : ∀ u : TypeTable, t.GrowsTo u → ∀ i : TypeId, i < t.size →
    i < u.size ∧ u.tree i = t.tree i
  intern : ∀ s : Shape, (∀ part ∈ s.parts, part < t.size) →
    (t.intern s).1 < (t.intern s).2.size ∧ tree (t.intern s).2 (t.intern s).1 = s.unfold t.tree

theorem Grown.canonical {t : TypeTable} (h : t.Grown) : t.Canonical where
  part_lt := h.ordered
  unbounded _ _ hn := h.ordered.treeAux_eq_tree hn
  unfolds _ _ hs := h.ordered.tree_eq_unfold hs
  eq_iff _ _ := ⟨fun heq => heq ▸ rfl, h.ordered.tree_inj h.distinct⟩
  stable _ hu _ hi := ⟨Nat.lt_of_lt_of_le hi hu.within.size_le,
    h.ordered.tree_of_within (hu.ordered h.ordered) hu.within hi⟩
  intern s hs := by
    have grown := h.ordered.intern hs
    refine ⟨t.intern_lt s, (grown.tree_eq_unfold (t.get?_intern_self s)).trans ?_⟩
    exact Shape.unfold_congr fun part hpart =>
      h.ordered.tree_of_within grown (t.within_intern s) (hs part hpart)

end TypeTable

/-! ### Types of programs -/

namespace TypeNode

/-- A level of a type with qualifiers over its unfolded parts. -/
def unfold (f : QualType → CType) (quals : Quals) : TypeNode → CType
  | .builtin kind => .builtin quals kind
  | .pointer pointee => .pointer quals (f pointee)
  | .array element size => .array quals (f element) size
  | .function result params isVariadic => .function quals (f result) (params.map f) isVariadic
  | .record decl => .record quals decl

theorem unfold_congr {f g : QualType → CType} {q : Quals} {node : TypeNode}
    (h : ∀ x ∈ node.parts, f x = g x) : node.unfold f q = node.unfold g q := by
  cases node with
  | pointer pointee => simp [unfold, h pointee List.mem_cons_self]
  | array element size => simp [unfold, h element List.mem_cons_self]
  | function result params isVariadic =>
      have hparams := fun x hx => h x (List.mem_cons_of_mem result hx)
      simp only [unfold, h result List.mem_cons_self, List.map_congr_left hparams]
  | _ => rfl

/-- A level of a type and its qualifiers are known from their unfolding, if the parts are. -/
theorem unfold_inj {f : QualType → CType} {q q' : Quals} {node node' : TypeNode}
    (h : ∀ x ∈ node.parts, ∀ y ∈ node'.parts, f x = f y → x = y)
    (heq : node.unfold f q = node'.unfold f q') : q = q' ∧ node = node' := by
  cases node with
  | function result params isVariadic =>
      cases node' with
      | function result' params' isVariadic' =>
          obtain ⟨hq, hr, hps, hv⟩ := CType.function.inj heq
          have hresult : result = result' :=
            h result List.mem_cons_self result' List.mem_cons_self hr
          have hparams : params = params' := map_injOn (fun x hx y hy =>
            h x (List.mem_cons_of_mem result hx) y (List.mem_cons_of_mem result' hy)) hps
          rw [hresult, hparams, hv]
          exact ⟨hq, rfl⟩
      | _ => cases heq
  | _ => cases node' <;> simp_all [unfold, parts]

end TypeNode

namespace CType

/-- The type without qualifiers at its outermost level. -/
def bare : CType → CType
  | .builtin _ kind => .builtin .none kind
  | .pointer _ pointee => .pointer .none pointee
  | .array _ element size => .array .none element size
  | .function _ result params isVariadic => .function .none result params isVariadic
  | .record _ decl => .record .none decl

end CType

namespace TypeArena

theorem Ordered.tree_eq_unfold {a : TypeArena} (h : a.Ordered) (t : QualType) :
    a.tree t = (a.node t).unfold a.tree t.quals := by
  rw [h.tree_eq]
  cases a.node t <;> rfl

theorem node_of_get? {a : TypeArena} {t : QualType} {node : TypeNode}
    (h : a.get? t.ref = some node) : a.node t = node := by
  rw [TypeArena.node, h]
  rfl

/-- **Equal types have equal references and qualifiers.** -/
theorem Ordered.tree_inj {a : TypeArena} (h : a.Ordered) (distinct : a.Distinct) {t u : QualType}
    (ht : t.ref < a.size) (hu : u.ref < a.size) (heq : a.tree t = a.tree u) : t = u := by
  induction hr : t.ref using Nat.strongRecOn generalizing t u with
  | ind r ih =>
      subst hr
      rw [h.tree_eq_unfold t, h.tree_eq_unfold u] at heq
      obtain ⟨hquals, hnode⟩ : t.quals = u.quals ∧ a.node t = a.node u := by
        refine TypeNode.unfold_inj (fun x hx y hy hxy => ?_) heq
        have hxt := h.part hx
        exact ih x.ref hxt (Nat.lt_trans hxt ht) (Nat.lt_trans (h.part hy) hu) hxy rfl
      have entry {x : QualType} (hx : x.ref < a.size) : a.get? x.ref = some (a.node x) := by
        have hget : a.get? x.ref = some a.entries[x.ref] := Array.getElem?_eq_getElem hx
        rw [node_of_get? hget, hget]
      have href : t.ref = u.ref := distinct _ _ _ (entry ht) (hnode ▸ entry hu)
      obtain ⟨_, _⟩ := t
      obtain ⟨_, _⟩ := u
      subst href hquals
      rfl

theorem Ordered.tree_of_within {a b : TypeArena} (h : a.Ordered) (hb : b.Ordered)
    (within : a.Within b) {t : QualType} (ht : t.ref < a.size) : b.tree t = a.tree t :=
  (hb.denotes t (Nat.lt_of_lt_of_le ht within.size_le)).unique ((h.denotes t ht).mono within)

theorem bare_tree (a : TypeArena) (t : QualType) : (a.tree t).bare = a.tree t.unqualified := by
  have hnode : a.node t.unqualified = a.node t := rfl
  show (a.treeAux (t.ref + 1) t).bare = a.treeAux (t.ref + 1) t.unqualified
  unfold treeAux
  rw [hnode]
  cases a.node t <;> rfl

end TypeArena

namespace Program

/-- Calls of typed construction over known nodes lead from `p` to `q`. -/
def GrowsTo : Program → Program → Prop :=
  Relation.ReflTransGen fun p q => ∃ c : Construction, c.Known p ∧ q = c.after p

/-- The declaration is a parameter of the type, up to qualifiers at the outermost level. -/
def Matches (p : Program) (x : DeclId) (expected : CType) : Prop :=
  ∃ type index, (p.decl x).kind = .param type index ∧ (p.types.tree type).bare = expected.bare

/-- The declarations are the parameters that the type of a function asks for, one by one. -/
def Takes (p : Program) (f : DeclId) (params : List DeclId) : Prop :=
  ∃ type old body locals quals result expected isVariadic,
    (p.decl f).kind = .function type old body locals ∧
    p.types.tree type = .function quals result expected isVariadic ∧
    List.Forall₂ p.Matches params expected

variable {p q : Program}

theorem GrowsTo.constructed (h : p.GrowsTo q) (hp : p.Constructed) : q.Constructed := by
  induction h with
  | refl => exact hp
  | tail _ step ih =>
      obtain ⟨c, known, rfl⟩ := step
      exact ih.step c known

theorem GrowsTo.within (h : p.GrowsTo q) (hp : p.Constructed) : p.types.Within q.types := by
  induction h with
  | refl => exact .refl _
  | tail before step ih =>
      obtain ⟨c, known, rfl⟩ := step
      have constructed := GrowsTo.constructed before hp
      exact ih.trans (c.after_changes constructed.wellTyped known).retains.types

/-- Comparing references compares whole types. -/
theorem Coherent.fits_iff (h : p.Coherent) {t : QualType} (ht : p.HasType t) (x : DeclId) :
    p.Fits x t ↔ p.Matches x (p.types.tree t) := by
  have compare {type : QualType} (htype : p.HasType type) :
      type.ref = t.ref ↔ (p.types.tree type).bare = (p.types.tree t).bare := by
    rw [TypeArena.bare_tree, TypeArena.bare_tree]
    refine ⟨fun href => ?_, fun heq => ?_⟩
    · rw [QualType.unqualified, href]
      rfl
    · have hrefs : type.unqualified.ref < p.types.size ∧ t.unqualified.ref < p.types.size :=
        ⟨htype, ht⟩
      have hsame := congrArg QualType.ref (h.typed.types.tree_inj h.distinct hrefs.1 hrefs.2 heq)
      exact hsame
  have known {type : QualType} {index : Nat} (hx : (p.decl x).kind = .param type index) :
      p.HasType type :=
    h.typed.decls x (lt_of_kind_ne (by rw [hx]; exact nofun)) type (type?_of_param hx)
  constructor
  · rintro ⟨type, index, hx, href⟩
    exact ⟨type, index, hx, (compare (known hx)).mp href⟩
  · rintro ⟨type, index, hx, heq⟩
    exact ⟨type, index, hx, (compare (known hx)).mpr heq⟩

end Program

namespace Check

open Program

variable {p : Program}

theorem paramFault?_eq_none {index : Nat} {x : DeclId} {expected : QualType}
    (h : p.Fits x expected) : paramFault? p index x expected = none := by
  obtain ⟨type, i, hx, href⟩ := h
  simp only [paramFault?, hx, if_pos href]

/-- The parameters are without fault if and only if they fit. -/
theorem paramsFault?_eq_none_iff {params : List DeclId} {expected : List QualType} :
    paramsFault? p params expected = none ↔ List.Forall₂ p.Fits params expected := by
  refine ⟨fits_of_paramsFault?, fun hfits => ?_⟩
  rw [paramsFault?, if_neg (not_not.mpr hfits.length_eq.symm), List.findSome?_eq_none_iff]
  rintro ⟨⟨x, t⟩, i⟩ hmem
  have hzip : (x, t) ∈ params.zip expected :=
    List.mem_of_getElem? (List.mk_mem_zipIdx_iff_getElem?.mp hmem)
  exact paramFault?_eq_none ((List.forall₂_iff_zip.mp hfits).2 hzip)

/-- What is left of giving a function its parameters once its type is known. -/
theorem setParams_eq {f : DeclId} {type result : QualType} {old : List DeclId}
    {body : Option StmtId} {locals : List DeclId} {expected : List QualType} {isVariadic : Bool}
    (hkind : (p.decl f).kind = .function type old body locals)
    (hparts : p.functionParts? type = some (result, expected, isVariadic)) (params : List DeclId) :
    setParams f params p =
      (paramsFault? p params expected).elim
        (.ok () (p.setDeclKind f (.function type params body locals)))
        fun reason => .error (.params (p.decl f).name reason) p := by
  unfold setParams
  rw [get_bind]
  simp only [hkind, hparts]
  cases paramsFault? p params expected <;> rfl

/-- Only functions take parameters. -/
theorem function_of_setParams_ok {f : DeclId} {params : List DeclId} {q : Program}
    (h : setParams f params p = .ok () q) :
    ∃ type old body locals result expected isVariadic,
      (p.decl f).kind = .function type old body locals ∧
      p.functionParts? type = some (result, expected, isVariadic) := by
  unfold setParams at h
  rw [get_bind] at h
  cases hkind : (p.decl f).kind with
  | function type old body locals =>
      cases hparts : p.functionParts? type with
      | none =>
          simp only [hkind, hparts] at h
          cases h
      | some parts =>
          obtain ⟨result, expected, isVariadic⟩ := parts
          exact ⟨type, old, body, locals, result, expected, isVariadic, rfl, hparts⟩
  | _ =>
      simp only [hkind] at h
      cases h

theorem setParams_ok_iff_fits {f : DeclId} {type result : QualType} {old : List DeclId}
    {body : Option StmtId} {locals : List DeclId} {expected : List QualType} {isVariadic : Bool}
    (hkind : (p.decl f).kind = .function type old body locals)
    (hparts : p.functionParts? type = some (result, expected, isVariadic)) (params : List DeclId) :
    (∃ q, setParams f params p = .ok () q) ↔ List.Forall₂ p.Fits params expected := by
  rw [setParams_eq hkind hparts, ← paramsFault?_eq_none_iff]
  cases paramsFault? p params expected with
  | none => exact iff_of_true ⟨_, rfl⟩ rfl
  | some reason => exact iff_of_false nofun nofun

/-- Parameters are accepted if they are, one by one, of the types that the function asks for. -/
theorem setParams_ok_iff (h : p.Coherent) {f : DeclId} (hf : f < p.decls.size)
    (params : List DeclId) : (∃ q, setParams f params p = .ok () q) ↔ p.Takes f params := by
  have typed {type : QualType} {old : List DeclId} {body : Option StmtId} {locals : List DeclId}
      (hkind : (p.decl f).kind = .function type old body locals) : p.HasType type :=
    h.typed.decls f hf type (by rw [Decl.type?, hkind])
  have compare {type result : QualType} {expected : List QualType} {isVariadic : Bool}
      (htype : p.HasType type) (hnode : p.node type = .function result expected isVariadic) :
      List.Forall₂ p.Fits params expected ↔
        List.Forall₂ p.Matches params (expected.map p.types.tree) := by
    rw [List.forall₂_map_right_iff]
    refine forall₂_congr_mem fun x t ht => h.fits_iff (h.typed.part htype ?_) x
    rw [hnode]
    exact List.mem_cons_of_mem result ht
  constructor
  · rintro ⟨q, hq⟩
    obtain ⟨type, old, body, locals, result, expected, isVariadic, hkind, hparts⟩ :=
      function_of_setParams_ok hq
    have hnode : p.types.node type = .function result expected isVariadic :=
      TypeArena.node_of_get? (get?_of_functionParts? hparts)
    have hfits := (setParams_ok_iff_fits hkind hparts params).mp ⟨q, hq⟩
    refine ⟨type, old, body, locals, type.quals, p.types.tree result, expected.map p.types.tree,
      isVariadic, hkind, ?_, (compare (typed hkind) hnode).mp hfits⟩
    rw [h.typed.types.tree_eq_unfold, hnode]
    rfl
  · rintro ⟨type, old, body, locals, quals, result, expected, isVariadic, hkind, htree, hmatches⟩
    rw [h.typed.types.tree_eq_unfold] at htree
    cases hnode : p.types.node type with
    | function r ts v =>
        rw [hnode] at htree
        obtain ⟨-, -, rfl, -⟩ := CType.function.inj htree
        have hparts : p.functionParts? type = some (r, ts, v) := by
          rw [functionParts?, Program.node, hnode]
        apply (setParams_ok_iff_fits hkind hparts params).mpr
        exact (compare (typed hkind) hnode).mpr hmatches
    | _ =>
        rw [hnode] at htree
        cases htree

end Check

namespace Program

/-- What the types of a program stand for: unfolding comes to an end, tells types apart and gives the
same type in every later program; interning a level over known types gives a type of that level over
the types of its parts; and functions take the parameters of the types that they ask for. -/
structure Canonical (p : Program) : Prop where
  part_lt : ∀ (i : TypeRef) (node : TypeNode), p.types.get? i = some node →
    ∀ t ∈ node.parts, t.ref < i
  unbounded : ∀ (t : QualType) (n : Nat), t.ref < n → p.types.treeAux n t = p.types.tree t
  unfolds : ∀ (t : QualType) (node : TypeNode), p.types.get? t.ref = some node →
    p.types.tree t = node.unfold p.types.tree t.quals
  eq_iff : ∀ t u : QualType, p.HasType t → p.HasType u →
    (t = u ↔ p.types.tree t = p.types.tree u)
  stable : ∀ q : Program, p.GrowsTo q → ∀ t : QualType, p.HasType t →
    q.HasType t ∧ q.types.tree t = p.types.tree t
  intern : ∀ node : TypeNode, p.Knows node →
    (p.internNode node).2.HasType (p.internNode node).1 ∧
      (p.internNode node).2.types.tree (p.internNode node).1 = node.unfold p.types.tree .none
  setParams : ∀ f : DeclId, f < p.decls.size → ∀ params : List DeclId,
    (∃ q, Check.setParams f params p = .ok () q) ↔ p.Takes f params

theorem Constructed.canonical {p : Program} (h : p.Constructed) : p.Canonical where
  part_lt := h.wellTyped.types
  unbounded t n hn := h.wellTyped.types.treeAux_eq n (t.ref + 1) t hn (Nat.lt_succ_self _)
  unfolds t node hnode := by
    rw [h.wellTyped.types.tree_eq_unfold, TypeArena.node_of_get? hnode]
  eq_iff t u ht hu :=
    ⟨fun heq => heq ▸ rfl, h.wellTyped.types.tree_inj h.coherent.distinct ht hu⟩
  stable q hq t ht :=
    have within := hq.within h
    ⟨Nat.lt_of_lt_of_le ht within.size_le,
      h.wellTyped.types.tree_of_within (hq.constructed h).wellTyped.types within ht⟩
  intern node known := by
    have grown : TypeArena.Ordered (p.types.intern node).2 := h.wellTyped.types.intern known.parts
    refine ⟨p.types.intern_lt node, ?_⟩
    show TypeArena.tree (p.types.intern node).2 (.plain (p.types.intern node).1) = _
    rw [grown.tree_eq_unfold, TypeArena.node_of_get? (p.types.get?_intern_self node)]
    exact TypeNode.unfold_congr fun t ht =>
      h.wellTyped.types.tree_of_within grown (p.types.within_intern node) (known.parts t ht)
  setParams f hf params := Check.setParams_ok_iff h.coherent hf params

end Program

/-- **Type ids are canonical names of types**, in every table made by interning levels over known
types and in every program under construction. -/
theorem types_canonical : (∀ t : TypeTable, t.Grown → t.Canonical) ∧
    ∀ p : Program, p.Constructed → p.Canonical :=
  ⟨fun _ h => h.canonical, fun _ h => h.canonical⟩

/-- A table with `char`, a pointer to it and a location for that; and `int f(int)`, which takes a
`const` parameter of type `int`. -/
theorem types_canonical_function :
    (∃ t : TypeTable, t.Grown ∧ t.size = 3 ∧ t.Canonical ∧
      t.tree 2 = .lvalue (t.tree 1) ∧ t.tree 1 ≠ t.tree 2) ∧
    ∃ p : Program, p.Constructed ∧ p.Canonical ∧
      (p.decl 1).kind = .param ⟨0, .const⟩ 0 ∧ p.Takes 0 [1] := by
  have grown₁ : TypeTable.Grown (Interned.intern .empty Shape.char).2 :=
    .tail .refl ⟨.char, nofun, rfl⟩
  have grown₂ := grown₁.tail ⟨.pointerTo 0, by decide +kernel, rfl⟩
  have grown₃ := grown₂.tail ⟨.lvalue 1, by decide +kernel, rfl⟩
  have canonical := types_canonical.1 _ grown₃
  have h₀ := Program.Constructed.empty ⟨"x86_64-unknown-linux-gnu", false, 16, 32, 64, 64, 64⟩
  have h₁ := h₀.step (.builtin .int) (by decide +kernel)
  have h₂ := h₁.step (.functionType (.plain 0) [.plain 0] false) (by decide +kernel)
  have h₃ := h₂.step (.functionDecl .file "f" (.plain 1)) (by decide +kernel)
  have h₄ := h₃.step (.param 0 "x" ⟨0, .const⟩ 0) (by decide +kernel)
  refine ⟨⟨_, grown₃, by decide +kernel, canonical, ?_, ?_⟩,
    ⟨_, h₄, types_canonical.2 _ h₄, by decide +kernel, ?_⟩⟩
  · exact canonical.unfolds 2 (.lvalue 1) (by decide +kernel)
  · exact fun heq => absurd ((canonical.eq_iff 1 2).mpr heq) (by decide)
  · apply ((types_canonical.2 _ h₄).setParams 0 (by decide +kernel) [1]).mp
    refine (Check.setParams_ok_iff_fits (?_ : _ = DeclKind.function (.plain 1) [] none [])
      (?_ : _ = some (.plain 0, [.plain 0], false)) [1]).mpr (.cons ⟨⟨0, .const⟩, 0, ?_, rfl⟩ .nil)
    all_goals decide +kernel

end Readback
