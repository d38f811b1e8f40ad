import Readback.Proofs.Graph.Interchange
import Readback.Proofs.Typing.Coherence

/-! # What the interchange forms keep

Programs and graphs have an interchange form, which is a value of JSON. A constructed program and a
built graph come back from their forms exactly as they were, or not at all if a floating literal or a
float attribute is not finite: JSON has no number for it, and what is written in its place is not read.

* The forms of programs and graphs are treated node by node in modules of their own
  (`Program.ofJson?_toJson`, `Graph.ofJson?_toJson`). There the condition is computed by a function
  (`Program.floatsFinite`, `Graph.floatsFinite`); here it is said what that means
  (`Program.floatsFinite_iff`, `Graph.floatsFinite_iff`).
* The uses of a graph are not written. They still come back, because a built graph records exactly what
  recording its uses afresh gives (`Graph.Built.rebuildUses_eq`), and that is what reading a graph does.
* Ids, indices and sizes are written with a fixed width, and a number that does not fit is not read. The
  results are about graphs and programs whose numbers fit (`Program.fits`, `Graph.fits`), as all of them
  do that a machine can hold.

The main result is `interchange_restores`, for programs and graphs in both directions. In
`interchange_restores_half` a program with a literal comes back, and a graph with an infinite constant
does not. -/

namespace Readback

theorem Program.floatsFinite_iff {p : Program} :
    p.floatsFinite ↔ ∀ x ∈ p.exprs, ∀ value, x.kind = .floating value → value.isFinite := by
  simp only [floatsFinite, List.all_eq_true, Array.mem_toList_iff]
  refine forall₂_congr fun x _ => ?_
  cases x.kind <;> simp [ExprKind.isFinite]

theorem Graph.floatsFinite_iff {g : Graph} :
    g.floatsFinite ↔ ∀ o ∈ g.operations, ∀ name value,
      (name, .float value) ∈ o.attributes.entries → value.isFinite := by
  simp only [floatsFinite, Operation.floatsFinite, List.all_eq_true, Array.mem_toList_iff]
  refine forall₂_congr fun o _ => ⟨fun h name value hm => h _ hm, fun h e he => ?_⟩
  obtain ⟨name, a⟩ := e
  cases a with
  | float value => exact h name value he
  | _ => rfl

/-- **The interchange forms restore what they were written from.** The form of a constructed program
can be read exactly if all floating literals are finite, and then gives the same program. The form
of a built graph can be read exactly if all float attributes are finite, and then gives the same
graph, with the same uses, which the form itself does not hold. -/
theorem interchange_restores :
    (∀ p : Program, p.Constructed → p.fits →
      ((Program.ofJson? p.toJson).isSome ↔
        ∀ x ∈ p.exprs, ∀ value, x.kind = .floating value → value.isFinite) ∧
      ∀ q, Program.ofJson? p.toJson = some q → q = p) ∧
    ∀ g : Graph, g.Built → g.fits →
      ((Graph.ofJson? g.toJson).isSome ↔ ∀ o ∈ g.operations, ∀ name value,
        (name, .float value) ∈ o.attributes.entries → value.isFinite) ∧
      (∀ h, Graph.ofJson? g.toJson = some h → h = g ∧ ∀ v, h.uses v = g.uses v) ∧
      ∀ useLists, ({ g with useLists } : Graph).toJson = g.toJson := by
  refine ⟨fun p hp hfits => ?_, fun g hg hfits => ?_⟩
  · rw [Program.ofJson?_toJson hfits hp.coherent.distinct, ← Program.floatsFinite_iff]
    cases p.floatsFinite <;> simp
  · rw [Graph.ofJson?_toJson hfits hg.types_distinct hg.rebuildUses_eq, ← Graph.floatsFinite_iff]
    refine ⟨by cases g.floatsFinite <;> simp, fun h hh => ?_, fun _ => rfl⟩
    obtain ⟨-, rfl⟩ : g.floatsFinite = true ∧ g = h := by simpa using hh
    exact ⟨rfl, fun _ => rfl⟩

/-- A program with the literal 0.5 comes back; a graph with an infinite constant does not. -/
theorem interchange_restores_half :
    ∃ (p : Program) (g : Graph), p.Constructed ∧ p.fits ∧ g.Built ∧ g.fits ∧
      (p.expr 0).kind = .floating (.ofFields false 1022 0) ∧ Program.ofJson? p.toJson = some p ∧
      Graph.ofJson? g.toJson = none := by
  have h₀ := Program.Constructed.empty ⟨"x86_64-unknown-linux-gnu", false, 16, 32, 64, 64, 64⟩
  have h₁ := h₀.step (.builtin .double) (by decide +kernel)
  have h₂ := h₁.step (.floating (.ofFields false 1022 0) (.plain 0)) (by decide +kernel)
  have hg := Graph.built_build .empty [.createOperation 0
    ⟨"hl.constant", [], [], ⟨[("value", .float (.infinity false))]⟩, false⟩]
  obtain ⟨hprograms, hgraphs⟩ := interchange_restores
  obtain ⟨hread, hsame⟩ := hprograms _ h₂ (by decide +kernel)
  obtain ⟨hrefused, -, -⟩ := hgraphs _ hg (by decide +kernel)
  refine ⟨_, _, h₂, by decide +kernel, hg, by decide +kernel, by decide +kernel, ?_, ?_⟩
  · obtain ⟨q, hq⟩ := Option.isSome_iff_exists.mp
      (hread.mpr (Program.floatsFinite_iff.mp (by decide +kernel)))
    exact hq.trans (congrArg some (hsame q hq))
  · refine Option.not_isSome_iff_eq_none.mp fun hsome => ?_
    exact absurd (Graph.floatsFinite_iff.mpr (hrefused.mp hsome)) (by decide +kernel)

end Readback
