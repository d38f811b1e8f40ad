import Mathlib.Data.List.Forall2
import Readback.Proofs.Typing.Canonical

/-! # Alike types

Two programs that were built in different orders number their types differently. Types of the two are
alike if they stand for the same C type (`TypeArena.Alike`).

* `TypeArena.Denotes` relates a type to the C type that it stands for. In a table without doubles, a C
  type has one type that stands for it at most (`Denotes.inj`): two types with the same level,
  qualifiers and parts are the same entry (`eq_of_node`).
* `TypeArena.Level` says that two types have the same outermost level over alike parts. Where no type is
  that of a record (`TypeArena.Recordless`), alike types are alike level by level (`Alike.level`).
  Records are left out because two records of one name need not be the same.
* Interning alike levels gives alike types (`Level.intern`), and no two types are the same on one side
  only (`Alike.ref_iff`). So a comparison of type ids has the same outcome on both sides.

The last section answers every question that construction asks of a type: it has the same answer for
alike types (`isScalar_alike`, `isPointer_alike` and so on), and where the answer is a type, alike ones
(`pointee?_alike`, `functionParts?_alike`). -/

namespace Readback

open Interned

namespace TypeArena

/-- No type is that of a record. -/
def Recordless (a : TypeArena) : Prop := ∀ (i : TypeRef) (d : DeclId), a.get? i ≠ some (.record d)

/-- The types stand for the same C type. -/
def Alike (a b : TypeArena) (t u : QualType) : Prop := ∃ c, a.Denotes t c ∧ b.Denotes u c

/-- The same level of a type over alike parts. -/
inductive Level (a b : TypeArena) : TypeNode → TypeNode → Prop where
  | builtin (kind : Builtin) : Level a b (.builtin kind) (.builtin kind)
  | pointer {t u : QualType} (h : a.Alike b t u) : Level a b (.pointer t) (.pointer u)
  | array {t u : QualType} (h : a.Alike b t u) (size : Option Nat) :
      Level a b (.array t size) (.array u size)
  | function {t u : QualType} {ts us : List QualType} (h : a.Alike b t u)
      (hs : List.Forall₂ (a.Alike b) ts us) (isVariadic : Bool) :
      Level a b (.function t ts isVariadic) (.function u us isVariadic)

variable {a b a' b' : TypeArena} {t u x y : QualType} {c d : CType}

theorem recordless_empty : Recordless (empty : TypeArena) := fun i d h => by
  simp [empty, get?] at h

theorem Recordless.intern (h : a.Recordless) {node : TypeNode} (hnode : ∀ d, node ≠ .record d) :
    Recordless (a.intern node).2 := fun i d hi => by
  obtain hold | ⟨-, heq⟩ := get?_intern_eq_some hi
  · exact h i d hold
  · exact hnode d heq.symm

/-! ### What types stand for -/

theorem Denotes.lt (h : a.Denotes t c) : t.ref < a.size := by
  cases c with
  | builtin => exact lt_of_get? h.2
  | record => exact lt_of_get? h.2
  | pointer =>
      obtain ⟨-, _, hn, -⟩ := h
      exact lt_of_get? hn
  | array =>
      obtain ⟨-, _, hn, -⟩ := h
      exact lt_of_get? hn
  | function =>
      obtain ⟨-, _, _, hn, -⟩ := h
      exact lt_of_get? hn

theorem Denotes.unqualified (h : a.Denotes t c) : a.Denotes t.unqualified c.bare := by
  cases c <;> exact ⟨rfl, h.2⟩

theorem Denotes.quals_eq (h : a.Denotes t c) (h' : b.Denotes u c) : t.quals = u.quals := by
  cases c <;> exact h.1.trans h'.1.symm

/-- In a table without doubles, levels and qualifiers are known from what they are. -/
theorem eq_of_node (ha : a.Distinct) {node : TypeNode} (ht : a.get? t.ref = some node)
    (hu : a.get? u.ref = some node) {q : Quals} (hq : t.quals = q) (hq' : u.quals = q) : t = u := by
  show QualType.mk t.ref t.quals = QualType.mk u.ref u.quals
  rw [ha _ _ _ ht hu, hq, hq']

mutual

/-- In a table without doubles, a C type has one type that stands for it at most. -/
theorem Denotes.inj (ha : a.Distinct) {t u : QualType} :
    ∀ {c : CType}, a.Denotes t c → a.Denotes u c → t = u
  | .builtin _ _, ⟨hq, hn⟩, ⟨hq', hn'⟩ => eq_of_node ha hn hn' hq hq'
  | .record _ _, ⟨hq, hn⟩, ⟨hq', hn'⟩ => eq_of_node ha hn hn' hq hq'
  | .pointer _ _, ⟨hq, _, hn, hx⟩, ⟨hq', _, hn', hx'⟩ =>
    eq_of_node ha hn (hx.inj ha hx' ▸ hn') hq hq'
  | .array _ _ _, ⟨hq, _, hn, hx⟩, ⟨hq', _, hn', hx'⟩ =>
    eq_of_node ha hn (hx.inj ha hx' ▸ hn') hq hq'
  | .function _ _ _ _, ⟨hq, _, _, hn, hx, hxs⟩, ⟨hq', _, _, hn', hx', hxs'⟩ =>
    eq_of_node ha hn (hx.inj ha hx' ▸ hxs.inj ha hxs' ▸ hn') hq hq'

theorem DenoteAll.inj (ha : a.Distinct) :
    ∀ {ts us : List QualType} {cs : List CType}, a.DenoteAll ts cs → a.DenoteAll us cs → ts = us
  | [], [], [], _, _ => rfl
  | _ :: _, _ :: _, _ :: _, ⟨h, hs⟩, ⟨h', hs'⟩ => by rw [h.inj ha h', hs.inj ha hs']
  | [], _, _ :: _, h, _ => h.elim
  | _ :: _, _, [], h, _ => h.elim
  | _, [], _ :: _, _, h => h.elim
  | _, _ :: _, [], _, h => h.elim

end

/-! ### Alike types -/

theorem forall₂_of_denoteAll :
    ∀ {ts us : List QualType} {cs : List CType}, a.DenoteAll ts cs → b.DenoteAll us cs →
      List.Forall₂ (a.Alike b) ts us
  | [], [], [], _, _ => .nil
  | _ :: _, _ :: _, c :: _, ⟨h, hs⟩, ⟨h', hs'⟩ => .cons ⟨c, h, h'⟩ (forall₂_of_denoteAll hs hs')
  | [], _, _ :: _, h, _ => h.elim
  | _ :: _, _, [], h, _ => h.elim
  | _, [], _ :: _, _, h => h.elim
  | _, _ :: _, [], _, h => h.elim

theorem denoteAll_of_forall₂ {ts us : List QualType} (h : List.Forall₂ (a.Alike b) ts us) :
    ∃ cs, a.DenoteAll ts cs ∧ b.DenoteAll us cs := by
  induction h with
  | nil => exact ⟨[], trivial, trivial⟩
  | cons h _ ih =>
      obtain ⟨c, hc, hc'⟩ := h
      obtain ⟨cs, hcs, hcs'⟩ := ih
      exact ⟨c :: cs, ⟨hc, hcs⟩, ⟨hc', hcs'⟩⟩

theorem Alike.mono (h : a.Alike b t u) (ha : a.Within a') (hb : b.Within b') : a'.Alike b' t u := by
  obtain ⟨c, hc, hc'⟩ := h
  exact ⟨c, hc.mono ha, hc'.mono hb⟩

theorem Alike.quals_eq (h : a.Alike b t u) : t.quals = u.quals := by
  obtain ⟨c, hc, hc'⟩ := h
  exact hc.quals_eq hc'

theorem Alike.unqualified (h : a.Alike b t u) : a.Alike b t.unqualified u.unqualified := by
  obtain ⟨c, hc, hc'⟩ := h
  exact ⟨_, hc.unqualified, hc'.unqualified⟩

/-- Alike types are alike at their outermost level. -/
theorem Alike.level (ha : a.Recordless) (h : a.Alike b t u) : Level a b (a.node t) (b.node u) := by
  obtain ⟨c, hc, hc'⟩ := h
  cases c with
  | builtin q kind =>
      rw [node_of_get? hc.2, node_of_get? hc'.2]
      exact .builtin kind
  | record q d => exact absurd hc.2 (ha _ d)
  | pointer q c =>
      obtain ⟨-, x, hn, hx⟩ := hc
      obtain ⟨-, x', hn', hx'⟩ := hc'
      rw [node_of_get? hn, node_of_get? hn']
      exact .pointer ⟨c, hx, hx'⟩
  | array q c size =>
      obtain ⟨-, x, hn, hx⟩ := hc
      obtain ⟨-, x', hn', hx'⟩ := hc'
      rw [node_of_get? hn, node_of_get? hn']
      exact .array ⟨c, hx, hx'⟩ size
  | function q c cs isVariadic =>
      obtain ⟨-, x, xs, hn, hx, hxs⟩ := hc
      obtain ⟨-, x', xs', hn', hx', hxs'⟩ := hc'
      rw [node_of_get? hn, node_of_get? hn']
      exact .function ⟨c, hx, hx'⟩ (forall₂_of_denoteAll hxs hxs') isVariadic

theorem Level.not_record {n m : TypeNode} (h : Level a b n m) :
    (∀ d, n ≠ .record d) ∧ ∀ d, m ≠ .record d := by
  cases h <;> exact ⟨nofun, nofun⟩

/-- Interning alike levels gives alike types. -/
theorem Level.intern {n m : TypeNode} (h : Level a b n m) :
    Alike (a.intern n).2 (b.intern m).2 (.plain (a.intern n).1) (.plain (b.intern m).1) := by
  have ha := a.within_intern n
  have hb := b.within_intern m
  have hn := a.get?_intern_self n
  have hm := b.get?_intern_self m
  cases h with
  | builtin kind => exact ⟨.builtin .none kind, ⟨rfl, hn⟩, rfl, hm⟩
  | pointer h =>
      obtain ⟨c, hc, hc'⟩ := h.mono ha hb
      exact ⟨.pointer .none c, ⟨rfl, _, hn, hc⟩, rfl, _, hm, hc'⟩
  | array h size =>
      obtain ⟨c, hc, hc'⟩ := h.mono ha hb
      exact ⟨.array .none c size, ⟨rfl, _, hn, hc⟩, rfl, _, hm, hc'⟩
  | function h hs isVariadic =>
      obtain ⟨c, hc, hc'⟩ := h.mono ha hb
      obtain ⟨cs, hcs, hcs'⟩ := denoteAll_of_forall₂ (hs.imp fun _ _ h => h.mono ha hb)
      exact ⟨.function .none c cs isVariadic, ⟨rfl, _, _, hn, hc, hcs⟩, rfl, _, _, hm, hc', hcs'⟩

/-- Two types have the same node on one side if the types alike to them do on the other. -/
theorem Alike.ref_iff (ha : a.Distinct) (hb : b.Distinct) (h : a.Alike b t u) (h' : a.Alike b x y) :
    t.ref = x.ref ↔ u.ref = y.ref := by
  obtain ⟨c, hc, hc'⟩ := h
  obtain ⟨d, hd, hd'⟩ := h'
  have same {a : TypeArena} (ha : a.Distinct) {t x : QualType} (hc : a.Denotes t c)
      (hd : a.Denotes x d) : t.ref = x.ref ↔ c.bare = d.bare := by
    constructor
    · intro href
      have hbare : t.unqualified = x.unqualified := congrArg QualType.plain href
      exact hc.unqualified.unique (hbare ▸ hd.unqualified)
    · intro hbare
      have heq : t.unqualified = x.unqualified :=
        hc.unqualified.inj ha (hbare ▸ hd.unqualified)
      show t.unqualified.ref = x.unqualified.ref
      rw [heq]
  exact (same ha hc hd).trans (same hb hc' hd').symm

end TypeArena

/-! ### What is asked of types -/

namespace Program

variable {p q : Program} {t u : QualType}

section Questions

variable (hp : p.types.Recordless) (h : p.types.Alike q.types t u)

include hp h

theorem builtin?_alike : q.builtin? u = p.builtin? t := by
  have hlevel := h.level hp
  unfold builtin? Program.node
  generalize p.types.node t = n at hlevel
  generalize q.types.node u = m at hlevel
  cases hlevel <;> rfl

theorem isVoid_alike : q.isVoid u = p.isVoid t := by rw [isVoid, isVoid, builtin?_alike hp h]

theorem isInteger_alike : q.isInteger u = p.isInteger t := by
  rw [isInteger, isInteger, builtin?_alike hp h]

theorem isArithmetic_alike : q.isArithmetic u = p.isArithmetic t := by
  rw [isArithmetic, isArithmetic, builtin?_alike hp h]

theorem isPointer_alike : q.isPointer u = p.isPointer t := by
  have hlevel := h.level hp
  unfold isPointer Program.node
  generalize p.types.node t = n at hlevel
  generalize q.types.node u = m at hlevel
  cases hlevel <;> rfl

theorem isArray_alike : q.isArray u = p.isArray t := by
  have hlevel := h.level hp
  unfold isArray Program.node
  generalize p.types.node t = n at hlevel
  generalize q.types.node u = m at hlevel
  cases hlevel <;> rfl

theorem isFunction_alike : q.isFunction u = p.isFunction t := by
  have hlevel := h.level hp
  unfold isFunction Program.node
  generalize p.types.node t = n at hlevel
  generalize q.types.node u = m at hlevel
  cases hlevel <;> rfl

theorem isRecord_alike : p.isRecord t = false ∧ q.isRecord u = false := by
  have hlevel := h.level hp
  unfold isRecord Program.node
  generalize p.types.node t = n at hlevel
  generalize q.types.node u = m at hlevel
  cases hlevel <;> exact ⟨rfl, rfl⟩

theorem isScalar_alike : q.isScalar u = p.isScalar t := by
  rw [isScalar, isScalar, isArithmetic_alike hp h, isPointer_alike hp h]

theorem pointee?_alike : Option.Rel (p.types.Alike q.types) (p.pointee? t) (q.pointee? u) := by
  have hlevel := h.level hp
  unfold pointee? Program.node
  generalize p.types.node t = n at hlevel
  generalize q.types.node u = m at hlevel
  cases hlevel with
  | builtin _ => exact .none
  | pointer h => exact .some h
  | array h _ => exact .some h
  | function _ _ _ => exact .none

/-- The parts of alike function types. -/
theorem functionParts?_alike : Option.Rel (fun x y => p.types.Alike q.types x.1 y.1 ∧
    List.Forall₂ (p.types.Alike q.types) x.2.1 y.2.1 ∧ x.2.2 = y.2.2)
    (p.functionParts? t) (q.functionParts? u) := by
  have hlevel := h.level hp
  unfold functionParts? Program.node
  generalize p.types.node t = n at hlevel
  generalize q.types.node u = m at hlevel
  cases hlevel with
  | builtin _ => exact .none
  | pointer _ => exact .none
  | array _ _ => exact .none
  | function h hs _ => exact .some ⟨h, hs, rfl⟩

end Questions

end Program

end Readback
