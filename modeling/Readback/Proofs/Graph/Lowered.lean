import Mathlib.Logic.Relation
import Readback.Lift.Type
import Readback.Proofs.Graph.Types

/-! # The C types of graph types

What C type a type of the graph stands for on a target is a matter of the type alone: `ShapeTree.ctype`
says so by recursion on the unfolded type. Some types stand for none. `ShapeTree.fault?` is the first
level, from the outside in and for functions results before inputs, that stands in the way; in a table
in which types come after their parts there is one exactly if some type below offends
(`Ordered.fault?_eq_none_iff`). -/

namespace Readback

open Relation

/-- The signed C type of an integer type. -/
def IntegerShape.signed : IntegerShape → Builtin
  | .char => .signedChar
  | .short => .short
  | .int => .int
  | .long => .long
  | .longLong => .longLong
  | .int128 => .int128

/-- The C type of an integer type. A `char` that is as the target has it is spelled plain. -/
def IntegerShape.spelled (target : Target) (isUnsigned : Bool) (kind : IntegerShape) : Builtin :=
  if kind = .char ∧ isUnsigned = target.charIsUnsigned then .char
  else if isUnsigned then kind.signed.toUnsigned else kind.signed

namespace ShapeTree

/-! ### The C type -/

mutual

/-- The C type of a type, where there is one. Locations are what they hold. -/
def ctype (target : Target) : ShapeTree → CType
  | .plain kind quals =>
    .builtin (quals.elim .none fun q => ⟨q.isConst, q.isVolatile, false⟩) kind.builtin
  | .integer kind quals =>
    .builtin (quals.elim .none fun q => ⟨q.isConst, q.isVolatile, false⟩)
      (kind.spelled target (quals.any Ucv.isUnsigned))
  | .pointer element quals => .pointer (quals.getD .none) (element.ctype target)
  | .array element size quals => .array (quals.getD .none) (element.ctype target) size
  | .lvalue element => element.ctype target
  | .function inputs results =>
    .function .none (resultType target results) (ctypes target inputs) false
  | .missing _ | .named _ _ => .builtin .none .void

/-- The result of a function with the given results. -/
def resultType (target : Target) : List ShapeTree → CType
  | [] => .builtin .none .void
  | result :: _ => result.ctype target

/-- The C types of several types. -/
def ctypes (target : Target) : List ShapeTree → List CType
  | [] => []
  | t :: rest => t.ctype target :: ctypes target rest

end

/-! ### What stands in the way -/

mutual

/-- The levels of a type from the outside in; the results of a function come before its inputs. -/
def levels : ShapeTree → List ShapeTree
  | .pointer element quals => .pointer element quals :: element.levels
  | .array element size quals => .array element size quals :: element.levels
  | .lvalue element => .lvalue element :: element.levels
  | .function inputs results => .function inputs results :: (levelsOf results ++ levelsOf inputs)
  | t => [t]

/-- The levels of several types. -/
def levelsOf : List ShapeTree → List ShapeTree
  | [] => []
  | t :: rest => t.levels ++ levelsOf rest

end

/-- Why the outermost level of a type has no counterpart in C. -/
def offence? : ShapeTree → Option LiftError
  | .missing id => some (.unsupportedType (TypeId.text id))
  | .named kind name => some (.unsupportedType (ShapeTree.named kind name).text)
  | .function _ results =>
    if 2 ≤ results.length then
      some (.malformed ("function type with " ++ toString results.length ++ " results"))
    else none
  | _ => none

/-- The first offence in a type. -/
def fault? (t : ShapeTree) : Option LiftError := t.levels.findSome? offence?

theorem findSome?_levelsOf (ts : List ShapeTree) :
    (levelsOf ts).findSome? offence? = ts.findSome? fault? := by
  induction ts with
  | nil => rfl
  | cons t ts ih =>
      rw [levelsOf, List.findSome?_append, ih, List.findSome?_cons]
      show (t.fault?).or _ = _
      cases t.fault? <;> rfl

@[simp] theorem fault?_pointer (element : ShapeTree) (quals : Option Quals) :
    (pointer element quals).fault? = element.fault? := by
  rw [fault?, levels, List.findSome?_cons]
  rfl

@[simp] theorem fault?_array (element : ShapeTree) (size : Option Nat) (quals : Option Quals) :
    (array element size quals).fault? = element.fault? := by
  rw [fault?, levels, List.findSome?_cons]
  rfl

@[simp] theorem fault?_lvalue (element : ShapeTree) : (lvalue element).fault? = element.fault? := by
  rw [fault?, levels, List.findSome?_cons]
  rfl

theorem fault?_function (inputs results : List ShapeTree) :
    (function inputs results).fault? =
      ((function inputs results).offence?).or ((results ++ inputs).findSome? fault?) := by
  rw [fault?, levels, List.findSome?_cons, List.findSome?_append, findSome?_levelsOf,
    findSome?_levelsOf, List.findSome?_append]
  cases (function inputs results).offence? <;> rfl

end ShapeTree

/-! ### Types below a type -/

namespace TypeTable

/-- The type `u` is `id` or a part of it, at whatever depth. -/
def Below (t : TypeTable) : TypeId → TypeId → Prop :=
  ReflTransGen fun a b => ∃ s, t.get? a = some s ∧ b ∈ s.parts

/-- The type cannot be lifted for what it is itself: it is unknown, known by name only, or a function
with more than one result. -/
def Offends (t : TypeTable) (id : TypeId) : Prop :=
  t.get? id = none ∨ (∃ kind name, t.get? id = some (.named kind name)) ∨
    ∃ inputs results, t.get? id = some (.function inputs results) ∧ 2 ≤ results.length

/-- A type unfolds to its outermost level over its unfolded parts. -/
theorem Ordered.tree_eq {t : TypeTable} (h : t.Ordered) (id : TypeId) :
    t.tree id =
      match t.get? id with
      | none => .missing id
      | some (.plain kind quals) => .plain kind quals
      | some (.integer kind quals) => .integer kind quals
      | some (.pointer element quals) => .pointer (t.tree element) quals
      | some (.array element size quals) => .array (t.tree element) size quals
      | some (.lvalue element) => .lvalue (t.tree element)
      | some (.function inputs results) => .function (inputs.map t.tree) (results.map t.tree)
      | some (.named kind name) => .named kind name := by
  have hpart : t.treeAux t.size = t.tree := funext fun x =>
    h.treeAux_eq _ _ x (fun hx => hx) fun hx => Nat.lt_succ_of_lt hx
  show t.treeAux (t.size + 1) id = _
  unfold treeAux
  cases t.get? id with
  | none => rfl
  | some shape => cases shape <;> simp only [hpart]

theorem below_iff {t : TypeTable} {id u : TypeId} :
    t.Below id u ↔ id = u ∨ ∃ s, t.get? id = some s ∧ ∃ part ∈ s.parts, t.Below part u := by
  unfold Below
  rw [ReflTransGen.cases_head_iff]
  constructor
  · rintro (rfl | ⟨part, ⟨s, hs, hpart⟩, hu⟩)
    · exact .inl rfl
    · exact .inr ⟨s, hs, part, hpart, hu⟩
  · rintro (rfl | ⟨s, hs, part, hpart, hu⟩)
    · exact .inl rfl
    · exact .inr ⟨part, ⟨s, hs, hpart⟩, hu⟩

/-- A type has no fault exactly if neither it nor a type below it offends. -/
theorem Ordered.fault?_eq_none_iff {t : TypeTable} (h : t.Ordered) (id : TypeId) :
    (t.tree id).fault? = none ↔ ∀ u, t.Below id u → ¬ t.Offends u := by
  induction id using Nat.strongRecOn with
  | ind id ih =>
    have hbelow : (∀ u, t.Below id u → ¬ t.Offends u) ↔ ¬ t.Offends id ∧ ∀ s, t.get? id = some s →
        ∀ part ∈ s.parts, (t.tree part).fault? = none := by
      constructor
      · refine fun hall => ⟨hall id .refl, fun s hs part hpart => ?_⟩
        rw [ih part (h id s hs part hpart)]
        exact fun u hu => hall u (below_iff.mpr (.inr ⟨s, hs, part, hpart, hu⟩))
      · rintro ⟨hself, hparts⟩ u hu
        obtain rfl | ⟨s, hs, part, hpart, hu⟩ := below_iff.mp hu
        · exact hself
        · exact (ih part (h id s hs part hpart)).mp (hparts s hs part hpart) u hu
    rw [hbelow, h.tree_eq id]
    unfold Offends
    cases hget : t.get? id with
    | none => simp [ShapeTree.fault?, ShapeTree.levels, ShapeTree.offence?]
    | some s =>
        cases s with
        | plain kind quals =>
            simp [ShapeTree.fault?, ShapeTree.levels, ShapeTree.offence?, Shape.parts]
        | integer kind quals =>
            simp [ShapeTree.fault?, ShapeTree.levels, ShapeTree.offence?, Shape.parts]
        | named kind name => simp [ShapeTree.fault?, ShapeTree.levels, ShapeTree.offence?]
        | pointer element quals => simp [Shape.parts]
        | array element size quals => simp [Shape.parts]
        | lvalue element => simp [Shape.parts]
        | function inputs results =>
            simpa [ShapeTree.fault?_function, ShapeTree.offence?, Shape.parts, or_imp, forall_and]
              using fun _ => And.comm

end TypeTable

end Readback
