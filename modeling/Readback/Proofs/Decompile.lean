import Readback.Decompile
import Readback.Proofs.Layout.Total
import Readback.Proofs.Lift.Sound
import Readback.Proofs.Lift.Structure

/-! # Decompiling fails only where lifting fails

To decompile a graph is to lift it and to write the program that the lift built. Programs that lifts
build are printable (`Graph.lift_sound`), and printable programs can be written
(`Program.Printable.text_ok`), so the second stage never fails.

Writing is bounded at three places: the depth of declarations, that of expressions and that of types. A
bound that were met would cut a text short without an error, so it has to be shown that none is.
`Program.WrittenInFull` says so: with any larger bounds the outcome is the same. Printable programs have
this property, because their nodes stand after their parts (`Program.Printable.writtenInFull`).

The main result is `Graph.decompileText_ok_iff`: for every graph, every way to choose names and every
configuration of both stages, decompiling gives a text if and only if lifting succeeds, and what is
written is written in full. Names play no part in it; a name that is no identifier makes a text that is
no C, but it is written. `Graph.decompileText_ok_iff_choice` is a function with a branch. -/

namespace Readback

open Program

/-- The bounds on the depth of declarations, expressions and types cut nothing short when the program
is written: with any larger bounds the outcome is the same. -/
structure Program.WrittenInFull (p : Program) : Prop where
  decls : ∀ d ∈ p.topLevel, ∀ (showCasts : Bool) (n : Nat), p.decls.size + p.stmts.size + 1 ≤ n →
    Write.emitAux p showCasts n (.decl d) = Write.emit p showCasts (.decl d)
  exprs : ∀ e n : Nat, e < n → p.termAux n e = p.term e
  types : ∀ (t : QualType) (n : Nat), t.ref < n → p.types.treeAux n t = p.types.tree t

theorem Program.Printable.writtenInFull {p : Program} (h : p.Printable) : p.WrittenInFull where
  decls _ hd showCasts _ hn := h.emit_eq hd showCasts hn
  exprs e n hn := h.ordered.termAux_eq n (e + 1) e hn (Nat.lt_succ_self e)
  types t n hn := h.typed.types.treeAux_eq n (t.ref + 1) t hn (Nat.lt_succ_self _)

/-- What decompiling gives is what lifting gives, written out. -/
theorem Graph.decompileText_eq_ok {g : Graph} {lift : LiftConfig} {layout : Config} {text : String} :
    g.decompileText lift layout = .ok text ↔
      ∃ s, g.lift .standard lift = (.ok (), s) ∧ s.program.text layout = .ok text := by
  unfold decompileText decompile
  obtain ⟨r, s⟩ := g.lift .standard lift
  cases r with
  | error e => simp [bind, Except.bind]
  | ok _ => cases h : s.program.text layout <;> simp [bind, Except.bind, h]

/-- Decompiling gives a text if and only if lifting succeeds: whatever the names, what a lift builds is
written without error and without meeting a bound. -/
theorem Graph.decompileText_ok_iff (g : Graph) (lift : LiftConfig) (layout : Config) :
    ((∃ text, g.decompileText lift layout = .ok text) ↔ (g.lift .standard lift).1 = .ok ()) ∧
      ∀ naming s, g.lift naming lift = (.ok (), s) →
        (∃ text, s.program.text layout = .ok text) ∧ s.program.WrittenInFull := by
  refine ⟨⟨?_, fun h => ?_⟩, fun naming s h => ?_⟩
  · rintro ⟨text, h⟩
    obtain ⟨s, hs, _⟩ := decompileText_eq_ok.mp h
    rw [hs]
  · have hs := lift_eq_of_fst h
    obtain ⟨text, htext⟩ := (lift_sound hs).printable.text_ok layout
    exact ⟨text, decompileText_eq_ok.mpr ⟨_, hs, htext⟩⟩
  · have hsound := lift_sound h
    exact ⟨hsound.printable.text_ok layout, hsound.printable.writtenInFull⟩

/-- A function with a branch is lifted, so it has a text. -/
theorem Graph.decompileText_ok_iff_choice :
    (choice.lift .standard (.forTarget .host)).1 = .ok () ∧
      ∃ text, choice.decompileText (.forTarget .host) .standard = .ok text := by
  have hlift : (choice.lift .standard (.forTarget .host)).1 = .ok () := by decide +kernel
  exact ⟨hlift, (decompileText_ok_iff choice (.forTarget .host) .standard).1.mpr hlift⟩

end Readback
