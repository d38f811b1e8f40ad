import Readback.Proofs.Layout.Paired
import Readback.Proofs.Lift.Sound
import Readback.Proofs.Lift.Swapped

/-! # The order of functions

Two functions that stand next to each other at the top of a graph may change places. The lift then lists
the declarations of the same operations with the two exchanged, and each has the text that it had
before. Names are resolved only once everything at the top is declared, so a function may refer to the
other one in either order.

This module puts two parts together:

* the lifts of the two graphs come out with programs that match in full, with paired nodes under
  different numbers and the two declarations exchanged where they are listed
  (`Graph.Neighbours.run_exchanged`);
* paired declarations that may stand by themselves are written by the same steps (`emit_eq`), so they
  have the same text on every page and in every configuration.

`LiftState.SameDecl` is what is said of two declarations in the end: they are those of the same
operations, and they are written by the same steps. `ExchangedIn` is a relation between lists, one the
other with two neighbours exchanged, up to `SameDecl`.

The main result is `Graph.Built.lift_exchanged`. Its conditions are that the functions have different
symbols, and that nothing in one of them uses a value that is made in the other. Both are needed: of two
functions with one symbol the later one gets it, and a value that is used from outside has its node
where the lift comes to it first.

In `errand` a function calls the one after it, and the two change places
(`Graph.Built.lift_exchanged_errand`). -/

namespace Readback

open Step Relation

namespace Program.Twins

variable {ρ : Pairing} {p q : Program}

/-- Paired declarations that may stand by themselves are written by the same steps. -/
theorem emit_eq (h : p.Twins ρ q) (hdecls : p.decls.size = q.decls.size)
    (hstmts : p.stmts.size = q.stmts.size) {d d' : DeclId} (hd : ρ.decl d d')
    (hunit : (p.decl d).kind.IsUnit) (showCasts : Bool) :
    Write.emit q showCasts (.decl d') = Write.emit p showCasts (.decl d) := by
  unfold Write.emit
  rw [← hdecls, ← hstmts]
  exact (h.emitAux_eq _).2 hd hunit

end Program.Twins

/-- In two lifts, the declarations are those of the same operations, and they are written by the same
steps: whatever the page and its settings, they have the same text. -/
structure LiftState.SameDecl (s s' : LiftState) (d d' : DeclId) : Prop where
  op (id) : s.opDecl.get? id = some d ↔ s'.opDecl.get? id = some d'
  text (showCasts) :
    Write.emit s'.program showCasts (.decl d') = Write.emit s.program showCasts (.decl d)

theorem forall₂_imp_mem {α β : Type} {R S : α → β → Prop} {l : List α} {l' : List β}
    (h : List.Forall₂ R l l') (hS : ∀ x ∈ l, ∀ y, R x y → S x y) : List.Forall₂ S l l' := by
  rw [List.forall₂_iff_zip] at h ⊢
  exact ⟨h.1, fun hmem => hS _ (List.of_mem_zip hmem).1 _ (h.2 hmem)⟩

/-- Relations may be weakened where it is known that the elements are listed. -/
theorem ExchangedIn.imp_mem {α : Type} {R S : α → α → Prop} {x y : α} {l l' : List α}
    (h : ExchangedIn R x y l l') (hS : ∀ a ∈ l, ∀ b, R a b → S a b) : ExchangedIn S x y l l' := by
  obtain ⟨front, back, front', back', x', y', rfl, hl', hfront, hx, hy, hback⟩ := h
  exact ⟨front, back, front', back', x', y', rfl, hl', forall₂_imp_mem hfront fun a ha => hS a (by simp [ha]),
    hS x (by simp) _ hx, hS y (by simp) _ hy, forall₂_imp_mem hback fun a ha => hS a (by simp [ha])⟩

/-- Two lifts that end at the same point have the same declarations under other numbers. -/
theorem Even.sameDecl {g : Graph} {target : Target} {ρ : Pairing} {s s' : LiftState}
    (h : Even g target ρ (s, s')) (hp : s.program.Printable) (hq : s'.program.Printable) {d d' : DeclId}
    (hd : d ∈ s.program.topLevel) (hdd : ρ.decl d d') : s.SameDecl s' d d' := by
  refine ⟨fun id => ?_, fun showCasts => ?_⟩
  · have hop : Option.Rel ρ.decl (s.opDecl.get? id) (s'.opDecl.get? id) := h.agrees.opDecl fun h => h
    cases hx : s.opDecl.get? id with
    | none =>
        rw [hx] at hop
        generalize s'.opDecl.get? id = y at hop
        cases hop
        exact iff_of_false nofun nofun
    | some x =>
        rw [hx] at hop
        generalize s'.opDecl.get? id = y at hop
        cases hop with
        | some hxy =>
            rw [Option.some_inj, Option.some_inj]
            exact h.matched.unique hxy hdd
  · have htwins : s.program.Twins ρ s'.program := ⟨h.matched, hp, hq⟩
    exact htwins.emit_eq h.decls h.stmts hdd (hp.topLevel d hd).2 showCasts

namespace Graph

/-- **The order of functions does not matter.** If two functions with different symbols stand next to
each other in a block of the body of a built graph, and nothing in one of them uses a value that is made
in the other, they may change places: one lift succeeds exactly when the other does, and then they list
the declarations of the same operations with those of the two functions exchanged, each with the same
text. -/
theorem Built.lift_exchanged {g : Graph} (h : g.Built) {R : Region} {b : BlockId} {B : Block}
    {f k : OpId} {o o' : Operation} {pre post : List OpId} (hbody : g.region? g.body = some R)
    (hb : b ∈ R.blocks) (hB : g.block? b = some B) (hops : B.operations = pre ++ f :: k :: post)
    (ho : g.op? f = some o) (hkind : o.kind? = some .function) (ho' : g.op? k = some o')
    (hkind' : o'.kind? = some .function) (hsymbols : o.symbol? ≠ o'.symbol?)
    (hforeign : g.Foreign f k) (hforeign' : g.Foreign k f) (c : LiftConfig) :
    let g' := g.relisted b (pre ++ k :: f :: post)
    ((g.lift .standard c).1 = .ok () ↔ (g'.lift .standard c).1 = .ok ()) ∧
      ∀ s s', g.lift .standard c = (.ok (), s) → g'.lift .standard c = (.ok (), s') →
        ∃ d e, s.opDecl.get? f = some d ∧ s.opDecl.get? k = some e ∧
          ExchangedIn (s.SameDecl s') d e s.program.topLevel s'.program.topLevel := by
  intro g'
  obtain ⟨front, back, hswaps⟩ := h.arranged.swaps_relisted hbody hb hB hops
  have hneighbours : g.Neighbours g' f k front back :=
    { hswaps with
      arranged := h.arranged
      function := ⟨o, ho, hkind⟩
      function' := ⟨o', ho', hkind'⟩
      symbols := fun q q' hq hq' => by
        cases ho.symm.trans hq
        cases ho'.symm.trans hq'
        exact hsymbols
      foreign := hforeign
      foreign' := hforeign' }
  have hrun : Together (Lift.run ⟨g, .standard, c.showOps⟩) (Lift.run ⟨g', .standard, c.showOps⟩)
      (LiftState.start c.target) (LiftState.start c.target) _ _ := hneighbours.run_exchanged
  unfold Together at hrun
  unfold Graph.lift
  cases hl : Lift.run ⟨g, .standard, c.showOps⟩ (LiftState.start c.target) <;>
    cases hr : Lift.run ⟨g', .standard, c.showOps⟩ (LiftState.start c.target) <;>
    rw [hl, hr] at hrun
  · next s _ s' =>
      refine ⟨by simp, ?_⟩
      rintro _ _ ⟨⟩ ⟨⟩
      obtain ⟨d, e, ρ, hd, he, heven, hlisted⟩ := hrun
      have hs : g.lift .standard c = (.ok (), s) := by unfold Graph.lift; rw [hl]
      have hs' : g'.lift .standard c = (.ok (), s') := by unfold Graph.lift; rw [hr]
      have hp := (lift_sound hs).printable
      have hq := (lift_sound hs').printable
      exact ⟨d, e, hd, he, hlisted.imp_mem fun x hx y hxy => heven.sameDecl hp hq hx hxy⟩
  · exact hrun.elim
  · exact hrun.elim
  · exact ⟨by simp, by simp⟩

end Graph

/-- A function that calls the one after it. -/
def errand : Graph :=
  .build .empty
    [.internType (.integer .int none), .internType (.function [0] [0]),
      .createOperation 0 ((OpSpec.ofKind .function).withAttr AttrName.symName (.text "asks")
        |>.withAttr AttrName.functionType (.type 1)),
      .createOperation 0 ((OpSpec.ofKind .function).withAttr AttrName.symName (.text "answers")
        |>.withAttr AttrName.functionType (.type 1)),
      .createRegion 0, .createBlock 1 [0], .createRegion 1, .createBlock 2 [0],
      .createOperation 1 ((OpSpec.ofKind .call).withOperands [.argument 1 0] |>.withResults [0]
        |>.withAttr AttrName.callee (.symbol "answers")),
      .createOperation 1 ((OpSpec.ofKind .returnStmt).withOperands [.result 2 0]),
      .createOperation 2 ((OpSpec.ofKind .returnStmt).withOperands [.argument 2 0])]

/-- Only the call and the two returns stand in an operation. -/
theorem errand_encloses {i c : OpId} (h : errand.Encloses i c) :
    i = 0 ∧ (c = 2 ∨ c = 3) ∨ i = 1 ∧ c = 4 := by
  obtain ⟨q, r, hq, hr, hc⟩ := h
  have hall : ∀ i < 5, ((errand.op? i).all fun q => q.regions.all fun r => (errand.regionOps r).all fun c =>
      i == 0 && (c == 2 || c == 3) || i == 1 && c == 4) = true := by decide +kernel
  have hi := hall i (Graph.op?_lt hq)
  rw [hq] at hi
  simpa using List.all_eq_true.mp (List.all_eq_true.mp hi r hr) c hc

theorem errand_inside {i c : OpId} (h : TransGen errand.Encloses i c) :
    i = 0 ∧ (c = 2 ∨ c = 3) ∨ i = 1 ∧ c = 4 := by
  induction h with
  | single hc => exact errand_encloses hc
  | tail _ hc ih =>
      have := errand_encloses hc
      rcases ih with ⟨-, rfl | rfl⟩ | ⟨-, rfl⟩ <;> simp at this

/-- The argument of a function is made in no other one. -/
theorem errand_argument {i : OpId} {b : BlockId} {j : Nat} (h : errand.DefinedIn i (.argument b j)) :
    b = i + 1 := by
  obtain ⟨c, o, r, B, hic, ho, hr, hB, hregion⟩ := h
  have hregions : ∀ c < 5, ((errand.op? c).all fun o => o.regions.all fun r => r == c + 1 && c < 2) := by
    decide +kernel
  have hblocks : ∀ b < 3, ((errand.block? b).all fun B => B.region == b) := by decide +kernel
  have hc := hregions c (Graph.op?_lt ho)
  have hb := hblocks b (Graph.block?_lt hB)
  rw [ho] at hc
  rw [hB] at hb
  obtain ⟨rfl, hc⟩ : r = c + 1 ∧ c < 2 := by simpa using List.all_eq_true.mp hc r hr
  obtain rfl : B.region = b := by simpa using hb
  rw [hregion]
  obtain rfl | hin := reflTransGen_iff_eq_or_transGen.mp hic
  · rfl
  · rcases errand_inside hin with ⟨-, rfl | rfl⟩ | ⟨-, rfl⟩ <;> simp at hc

/-- Nothing in one of the two functions uses what is made in the other. -/
theorem errand_foreign : errand.Foreign 0 1 ∧ errand.Foreign 1 0 := by
  have operands {c : OpId} {o : Operation} {vs : List Value} (ho : errand.op? c = some o)
      (h : (errand.op? c).map Operation.operands = some vs) : o.operands = vs := by
    rw [ho] at h
    exact Option.some.inj h
  constructor
  · intro c o v hc ho hv hin
    rcases errand_inside hc with ⟨-, rfl | rfl⟩ | ⟨h, -⟩
    · rw [operands ho (by decide +kernel : _ = some [.argument 1 0]), List.mem_singleton] at hv
      cases hv
      cases errand_argument hin
    · rw [operands ho (by decide +kernel : _ = some [.result 2 0]), List.mem_singleton] at hv
      cases hv
      have := errand_inside (show TransGen errand.Encloses 1 2 from hin)
      simp at this
    · cases h
  · intro c o v hc ho hv hin
    rcases errand_inside hc with ⟨h, -⟩ | ⟨-, rfl⟩
    · cases h
    · rw [operands ho (by decide +kernel : _ = some [.argument 2 0]), List.mem_singleton] at hv
      cases hv
      cases errand_argument hin

/-- The two functions change places, so the call comes after what it calls. -/
theorem Graph.Built.lift_exchanged_errand :
    let swapped := errand.relisted 0 [1, 0]
    ∃ s s', errand.lift .standard (.forTarget .host) = (.ok (), s) ∧
      swapped.lift .standard (.forTarget .host) = (.ok (), s') ∧
      s.program.topLevel.map (fun d => (s.program.decl d).name) = ["asks", "answers"] ∧
      s'.program.topLevel.map (fun d => (s'.program.decl d).name) = ["answers", "asks"] ∧
      ∃ d e, s.opDecl.get? 0 = some d ∧ s.opDecl.get? 1 = some e ∧
        ExchangedIn (s.SameDecl s') d e s.program.topLevel s'.program.topLevel := by
  intro swapped
  have hlift : (errand.lift .standard (.forTarget .host)).1 = .ok () := by decide +kernel
  obtain ⟨hiff, hsame⟩ := Graph.Built.lift_exchanged (built_build _ _ : errand.Built)
    (R := ⟨0, none, [0]⟩) (b := 0) (B := ⟨0, 0, [], [0, 1]⟩) (f := 0) (k := 1)
    (by decide +kernel) (by simp) (by decide +kernel) (show [0, 1] = [] ++ 0 :: 1 :: [] from rfl)
    (Option.some_get (by decide +kernel : (errand.op? 0).isSome)).symm (by decide +kernel)
    (Option.some_get (by decide +kernel : (errand.op? 1).isSome)).symm (by decide +kernel)
    (by decide +kernel) errand_foreign.1 errand_foreign.2 (.forTarget .host)
  have hs := lift_eq_of_fst hlift
  have hs' := lift_eq_of_fst (hiff.mp hlift)
  exact ⟨_, _, hs, hs', by decide +kernel, by decide +kernel, hsame _ _ hs hs'⟩

end Readback
