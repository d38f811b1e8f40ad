import Readback.Proofs.Typing.Additions

/-! # What types stand for

A type of a program stands for the C type that following its references gives (`TypeArena.Denotes`).
It stands for one type at most, and goes on to do so while types are added. In a table in which types
come after their parts, a type unfolds to its outermost level over its unfolded parts
(`Ordered.tree_eq`), and this is what it stands for (`Ordered.denotes`). -/

namespace Readback

namespace Quals

@[simp] theorem union_none (q : Quals) : q.union none = q := by simp [union, none]

@[simp] theorem none_union (q : Quals) : none.union q = q := by simp [union, none]

theorem union_assoc (q r s : Quals) : (q.union r).union s = q.union (r.union s) := by
  simp [union, Bool.or_assoc]

end Quals

namespace CType

/-- The type with further qualifiers at its outermost level. -/
def qualified (q : Quals) : CType → CType
  | .builtin quals kind => .builtin (quals.union q) kind
  | .pointer quals pointee => .pointer (quals.union q) pointee
  | .array quals element size => .array (quals.union q) element size
  | .function quals result params isVariadic => .function (quals.union q) result params isVariadic
  | .record quals decl => .record (quals.union q) decl

/-- Qualifiers can be given beside the type or in it. -/
theorem declarator_qualified (tagOf : DeclId → String) (c : CType) (q outer : Quals)
    (inner : String) :
    (c.qualified q).declarator tagOf outer inner = c.declarator tagOf (q.union outer) inner := by
  cases c <;> simp [qualified, declarator, Quals.union_assoc]

end CType

namespace TypeArena

theorem tree_withQuals (a : TypeArena) (t : QualType) (q : Quals) :
    a.tree (t.withQuals q) = (a.tree t).qualified q := by
  have hnode : a.node (t.withQuals q) = a.node t := rfl
  show a.treeAux (t.ref + 1) (t.withQuals q) = (a.treeAux (t.ref + 1) t).qualified q
  unfold treeAux
  rw [hnode]
  cases a.node t <;> rfl

theorem Ordered.tree_eq {a : TypeArena} (h : a.Ordered) (t : QualType) :
    a.tree t =
      match a.node t with
      | .builtin kind => .builtin t.quals kind
      | .pointer pointee => .pointer t.quals (a.tree pointee)
      | .array element size => .array t.quals (a.tree element) size
      | .function result params isVariadic =>
        .function t.quals (a.tree result) (params.map a.tree) isVariadic
      | .record decl => .record t.quals decl := by
  have hpart : ∀ x ∈ (a.node t).parts, a.treeAux t.ref x = a.tree x := fun x hx =>
    h.treeAux_eq _ _ x (h.part hx) (Nat.lt_succ_self _)
  show a.treeAux (t.ref + 1) t = _
  unfold treeAux
  cases hnode : a.node t with
  | builtin kind => rfl
  | record decl => rfl
  | pointer pointee => simp only [hpart pointee (by simp [hnode, TypeNode.parts])]
  | array element size => simp only [hpart element (by simp [hnode, TypeNode.parts])]
  | function result params isVariadic =>
      have hparams : params.map (a.treeAux t.ref) = params.map a.tree :=
        List.map_congr_left fun x hx => hpart x (by simp [hnode, TypeNode.parts, hx])
      simp only [hpart result (by simp [hnode, TypeNode.parts]), hparams]

mutual

/-- The type stands for the C type. -/
def Denotes (a : TypeArena) (t : QualType) : CType → Prop
  | .builtin quals kind => t.quals = quals ∧ a.get? t.ref = some (.builtin kind)
  | .record quals decl => t.quals = quals ∧ a.get? t.ref = some (.record decl)
  | .pointer quals pointee =>
    t.quals = quals ∧ ∃ x, a.get? t.ref = some (.pointer x) ∧ Denotes a x pointee
  | .array quals element size =>
    t.quals = quals ∧ ∃ x, a.get? t.ref = some (.array x size) ∧ Denotes a x element
  | .function quals result params isVariadic =>
    t.quals = quals ∧ ∃ x xs, a.get? t.ref = some (.function x xs isVariadic) ∧ Denotes a x result ∧
      DenoteAll a xs params

/-- The types stand for the C types, one by one. -/
def DenoteAll (a : TypeArena) : List QualType → List CType → Prop
  | [], [] => True
  | t :: ts, c :: cs => Denotes a t c ∧ DenoteAll a ts cs
  | _, _ => False

end

mutual

theorem Denotes.mono {a b : TypeArena} (hab : a.Within b) {t : QualType} :
    ∀ {c : CType}, a.Denotes t c → b.Denotes t c
  | .builtin _ _, ⟨hq, hn⟩ => ⟨hq, hab _ _ hn⟩
  | .record _ _, ⟨hq, hn⟩ => ⟨hq, hab _ _ hn⟩
  | .pointer _ _, ⟨hq, x, hn, hx⟩ => ⟨hq, x, hab _ _ hn, hx.mono hab⟩
  | .array _ _ _, ⟨hq, x, hn, hx⟩ => ⟨hq, x, hab _ _ hn, hx.mono hab⟩
  | .function _ _ _ _, ⟨hq, x, xs, hn, hx, hxs⟩ =>
    ⟨hq, x, xs, hab _ _ hn, hx.mono hab, hxs.mono hab⟩

theorem DenoteAll.mono {a b : TypeArena} (hab : a.Within b) :
    ∀ {ts : List QualType} {cs : List CType}, a.DenoteAll ts cs → b.DenoteAll ts cs
  | [], [], _ => trivial
  | _ :: _, _ :: _, ⟨h, hs⟩ => ⟨h.mono hab, hs.mono hab⟩
  | [], _ :: _, h => h.elim
  | _ :: _, [], h => h.elim

end

mutual

theorem Denotes.unique {a : TypeArena} {t : QualType} :
    ∀ {c c' : CType}, a.Denotes t c → a.Denotes t c' → c = c'
  | .builtin _ _, c', h, h' => by
    obtain ⟨rfl, hn⟩ := h
    cases c' <;> simp_all [Denotes]
  | .record _ _, c', h, h' => by
    obtain ⟨rfl, hn⟩ := h
    cases c' <;> simp_all [Denotes]
  | .pointer _ c, c', h, h' => by
    obtain ⟨rfl, x, hn, hx⟩ := h
    cases c' with
    | pointer _ c' =>
        obtain ⟨rfl, y, hn', hy⟩ := h'
        cases hn.symm.trans hn'
        rw [hx.unique hy]
    | _ => simp_all [Denotes]
  | .array _ c _, c', h, h' => by
    obtain ⟨rfl, x, hn, hx⟩ := h
    cases c' with
    | array _ c' _ =>
        obtain ⟨rfl, y, hn', hy⟩ := h'
        cases hn.symm.trans hn'
        rw [hx.unique hy]
    | _ => simp_all [Denotes]
  | .function _ c cs _, c', h, h' => by
    obtain ⟨rfl, x, xs, hn, hx, hxs⟩ := h
    cases c' with
    | function _ c' cs' _ =>
        obtain ⟨rfl, y, ys, hn', hy, hys⟩ := h'
        cases hn.symm.trans hn'
        rw [hx.unique hy, hxs.unique hys]
    | _ => simp_all [Denotes]

theorem DenoteAll.unique {a : TypeArena} :
    ∀ {ts : List QualType} {cs cs' : List CType}, a.DenoteAll ts cs → a.DenoteAll ts cs' → cs = cs'
  | [], [], [], _, _ => rfl
  | _ :: _, _ :: _, _ :: _, ⟨h, hs⟩, ⟨h', hs'⟩ => by rw [h.unique h', hs.unique hs']
  | [], _ :: _, _, h, _ => h.elim
  | _ :: _, [], _, h, _ => h.elim
  | [], _, _ :: _, _, h => h.elim
  | _ :: _, _, [], _, h => h.elim

end

theorem denoteAll_map {a : TypeArena} {f : QualType → CType} {ts : List QualType}
    (h : ∀ t ∈ ts, a.Denotes t (f t)) : a.DenoteAll ts (ts.map f) := by
  induction ts with
  | nil => trivial
  | cons t ts ih =>
      exact ⟨h t List.mem_cons_self, ih fun x hx => h x (List.mem_cons_of_mem t hx)⟩

/-- A type that is there stands for what it unfolds to. -/
theorem Ordered.denotes {a : TypeArena} (h : a.Ordered) (t : QualType) (ht : t.ref < a.size) :
    a.Denotes t (a.tree t) := by
  induction hr : t.ref using Nat.strongRecOn generalizing t with
  | ind r ih =>
      have hget : a.get? t.ref = some (a.node t) := by
        rw [node, Interned.get?, Array.getElem?_eq_getElem ht]
        rfl
      have hpart : ∀ x ∈ (a.node t).parts, a.Denotes x (a.tree x) := fun x hx =>
        ih x.ref (hr ▸ h.part hx) x (Nat.lt_trans (h.part hx) ht) rfl
      rw [h.tree_eq]
      generalize a.node t = node at hget hpart
      cases node with
      | builtin kind => exact ⟨rfl, hget⟩
      | record decl => exact ⟨rfl, hget⟩
      | pointer pointee => exact ⟨rfl, pointee, hget, hpart pointee List.mem_cons_self⟩
      | array element size => exact ⟨rfl, element, hget, hpart element List.mem_cons_self⟩
      | function result params isVariadic =>
          exact ⟨rfl, result, params, hget, hpart result List.mem_cons_self,
            denoteAll_map fun x hx => hpart x (List.mem_cons_of_mem result hx)⟩

end TypeArena

end Readback
