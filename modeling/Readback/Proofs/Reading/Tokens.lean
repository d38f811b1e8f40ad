import Readback.Proofs.Reading.Runs
import Readback.Proofs.Typing.Coherence

/-! # Expressions are cut into their tokens

Without colours and implicit casts, the text of an expression is cut by C into the tokens that its
operators, names, literals and the types of its casts are spelled with. Blanks keep signs apart, and
nothing else in an expression could run together but for two things: an `&` before an `&`, and a suffix
behind a call.

* The text of a term is a run of pieces in which only `&` and `&` run together (`Term.run_pieces`). It
  is cut into the tokens of its pieces unless two such pieces are neighbours; if they are, `&&` is one
  token, and the text is not cut into what was meant (`Named.not_infix`).
* Each token of a term is spelled with tokens of C if its literals and names are (`Term.sound_iff`).
  Names are identifiers by assumption. The literals that are not so spelled are infinite numbers and
  NaNs with a suffix, which are written as a call of a function (`Constructed.sound_iff`).
* `Program.CutsIntoTokens` is the property: there is exactly one way to cut the text, and it gives those
  tokens in their order.

The main result is `Program.Constructed.cutsIntoTokens_iff`: in a constructed program whose declarations
are named by identifiers, an expression has the property if and only if neither of the two things occurs
in it. `Constructed.cutsIntoTokens_minus` has an instance of each side: a minus before a negative
number, the address of an address, and an infinite `float`. -/

namespace Readback

variable {p : Program}

namespace Program

open Term (leaves leavesAll)

/-- A literal, or a name that an expression of the program refers to. -/
inductive Leaf (p : Program) : Term → Prop where
  | integer (value : Int) (kind : Option Builtin) : Leaf p (.integer value kind)
  | floating (value : Binary64) (kind : Option Builtin) : Leaf p (.floating value kind)
  | text (value : String) : Leaf p (.text value)
  | ref {d : DeclId} {e : ExprId} (h : (p.expr e).kind = .ref d) : Leaf p (.ref d)

theorem Ordered.leaf_of_mem (h : p.Ordered) {leaf : Term} (e : Nat)
    (hleaf : leaf ∈ (p.term e).leaves) : p.Leaf leaf := by
  induction e using Nat.strongRecOn with
  | ind e ih =>
      have inside : ∀ x ∈ (p.expr e).kind.parts, leaf ∈ (p.term x).leaves → p.Leaf leaf :=
        fun x hx => ih x (h e x hx)
      have among : ∀ l : List Nat, (∀ x ∈ l, x ∈ (p.expr e).kind.parts) →
          leaf ∈ leavesAll (l.map p.term) → p.Leaf leaf := by
        intro l hl hmem
        obtain ⟨_, ht, hmem⟩ := Term.mem_leavesAll.mp hmem
        obtain ⟨x, hx, rfl⟩ := List.mem_map.mp ht
        exact inside x (hl x hx) hmem
      rw [h.term_eq e, termLevel] at hleaf
      cases hk : (p.expr e).kind with
      | integer | floating | text | ref d =>
          rw [hk] at hleaf
          obtain rfl := List.mem_singleton.mp hleaf
          first | exact .integer _ _ | exact .floating _ _ | exact .text _ | exact .ref hk
      | paren inner | unary _ inner | cast _ _ inner =>
          rw [hk] at hleaf
          exact inside inner (by simp [hk, ExprKind.parts]) hleaf
      | binary op lhs rhs =>
          rw [hk] at hleaf
          obtain hl | hr := List.mem_append.mp hleaf
          · exact inside lhs (by simp [hk, ExprKind.parts]) hl
          · exact inside rhs (by simp [hk, ExprKind.parts]) hr
      | initList elements =>
          rw [hk] at hleaf
          exact among elements (fun x hx => by simpa [hk, ExprKind.parts] using hx) hleaf
      | call callee args =>
          rw [hk] at hleaf
          obtain hc | ha := List.mem_append.mp hleaf
          · exact inside callee (by simp [hk, ExprKind.parts]) hc
          · exact among args (fun x hx => by simp [hk, ExprKind.parts, hx]) ha

/-- An expression is sound if no suffix stands behind a call in it. -/
theorem Constructed.sound_iff (h : p.Constructed)
    (names : ∀ d < p.decls.size, isIdentifier (p.decl d).name) (e : ExprId) :
    (p.term e).Sound p ↔
      ∀ x kind, .floating x kind ∈ (p.term e).leaves → x.isFinite ∨ floatingSuffix kind = "" := by
  rw [Term.sound_iff]
  refine ⟨fun hs x kind hx => (Term.sound_floating_iff x kind).mp (hs _ hx), fun hf leaf hleaf => ?_⟩
  cases h.coherent.ordered.leaf_of_mem e hleaf with
  | integer value kind => exact Term.sound_integer value kind
  | floating value kind => exact (Term.sound_floating_iff value kind).mpr (hf value kind hleaf)
  | text value => exact Term.sound_text value
  | @ref d x hx =>
      have hlt : x < p.exprs.size := by
        by_contra hge
        rw [expr_of_size_le (Nat.not_lt.mp hge)] at hx
        cases hx
      have hj := h.coherent.justified x hlt
      rw [Justifies, hx] at hj
      exact Term.sound_ref (names d hj.2.1)

/-- Where the text of pieces is cut into their tokens, no `&` stands before another. -/
theorem Named.not_infix (h : p.Named) {ps : List Piece} {parts : List (List String)}
    (hparts : List.Forall₂ (Token.Spelled p) (ps.flatMap Piece.tokens) parts)
    (hm : Munches (Piece.textOf false ps).toList parts.flatten []) :
    ¬ [.symbol "&", .symbol "&"] <:+: ps := by
  rintro ⟨before, after, rfl⟩
  rw [List.flatMap_append, List.flatMap_append, List.append_assoc] at hparts
  rw [Piece.textOf_append, Piece.textOf_append, String.append_assoc, String.toList_append] at hm
  obtain ⟨others, hothers, hm⟩ := h.behind (laid_textOf before) hparts hm
  cases hothers with
  | cons hand _ =>
      cases hand
      have hands : (Piece.textOf false [.symbol "&", .symbol "&"]).toList = "&".toList ++ ['&'] := by
        decide
      rw [String.toList_append, hands, List.append_assoc] at hm
      obtain ⟨hends, -⟩ := hm.of_token (.mark (by decide))
      exact hends ['&'] (by decide) (List.prefix_append _ _) (.mark (m := "&&") (by decide))

/-- The text of the expression, without implicit casts and colours, is cut into tokens of C in one way:
into those that its operators and brackets, the types of its casts, its names and its literals are
spelled with, in their order. -/
def CutsIntoTokens (p : Program) (e : ExprId) : Prop :=
  ∃ parts, List.Forall₂ (Token.Spelled p) (p.tokens e) parts ∧
    ∀ us, Munches (p.exprText false false e).toList us [] ↔ us = parts.flatten

/-- **Where expressions are cut into their tokens.** In a constructed program whose declarations are
named by identifiers, the text of an expression is cut into the tokens of the expression if and only
if no `&` is written directly before another, and no double that is infinite or not a number, and so
written as a call, has a suffix. -/
theorem Constructed.cutsIntoTokens_iff (h : p.Constructed)
    (names : ∀ d < p.decls.size, isIdentifier (p.decl d).name) (e : ExprId) :
    p.CutsIntoTokens e ↔ ¬ [.symbol "&", .symbol "&"] <:+: (p.term e).pieces p false false ∧
      ∀ x kind, .floating x kind ∈ (p.term e).leaves → x.isFinite ∨ floatingSuffix kind = "" := by
  have named : p.Named := ⟨h.tagged, names⟩
  rw [← h.sound_iff names e]
  constructor
  · rintro ⟨parts, hparts, hcut⟩
    exact ⟨named.not_infix hparts ((hcut _).mpr rfl), allSound_iff.mpr ⟨parts, hparts⟩⟩
  · rintro ⟨hand, hsound⟩
    have hrun := Term.run_pieces (p.term e) ((Term.sound_iff _).mp hsound)
    obtain ⟨parts, hparts, hm⟩ := named.munches_textOf hsound (hrun.clears hand)
    refine ⟨parts, hparts, fun us => ⟨fun hus => hus.unique hm, ?_⟩⟩
    rintro rfl
    exact hm

/-- A minus stays apart from the number behind it. The address of an address is not cut into its
tokens, nor is an infinite `float`. -/
theorem Constructed.cutsIntoTokens_minus :
    ∃ p : Program, p.Constructed ∧ (∀ d < p.decls.size, isIdentifier (p.decl d).name) ∧
      (p.exprText false false 3 = "&&x" ∧ ¬ p.CutsIntoTokens 3) ∧
      (p.exprText false false 4 = "__builtin_inf()f" ∧ ¬ p.CutsIntoTokens 4) ∧
      p.exprText false false 6 = "- -1" ∧ p.CutsIntoTokens 6 := by
  have h₀ := Constructed.empty ⟨"x86_64-unknown-linux-gnu", false, 16, 32, 64, 64, 64⟩
  have h₁ := h₀.step (.builtin .int) (by decide +kernel)
  have h₂ := h₁.step (.varDecl .file "x" (.plain 0) .unspecified) (by decide +kernel)
  have h₃ := h₂.step (.declRef 0) (by decide +kernel)
  have h₄ := h₃.step (.unary .addressOf 0) (by decide +kernel)
  have h₅ := h₄.step (.cast .implicit .noOp (.plain 1) 1 .lvalue) (by decide +kernel)
  have h₆ := h₅.step (.unary .addressOf 2) (by decide +kernel)
  have h₇ := h₆.step (.builtin .float) (by decide +kernel)
  have h₈ := h₇.step (.floating ⟨0x7ff0000000000000⟩ (.plain 3)) (by decide +kernel)
  have h₉ := h₈.step (.integer (-1) (.plain 0)) (by decide +kernel)
  have h₁₀ := h₉.step (.unary .minus 5) (by decide +kernel)
  generalize hp : (Construction.unary .minus 5).after _ = p at h₁₀
  have names : ∀ d < p.decls.size, isIdentifier (p.decl d).name := by
    rw [← hp]
    decide +kernel
  have hterm := h₁₀.coherent.ordered.term_eq
  have hcuts := h₁₀.cutsIntoTokens_iff names
  have htexts : p.exprText false false 3 = "&&x" ∧ p.exprText false false 4 = "__builtin_inf()f" ∧
      p.exprText false false 6 = "- -1" := by
    rw [← hp]
    decide +kernel
  refine ⟨p, h₁₀, names, ⟨htexts.1, fun hcut => ?_⟩, ⟨htexts.2.1, fun hcut => ?_⟩, htexts.2.2, ?_⟩
  · refine ((hcuts 3).mp hcut).1 ?_
    rw [← hp]
    decide +kernel
  · have hkind : (p.expr 4).kind = .floating ⟨0x7ff0000000000000⟩ ∧
        p.builtin? (p.expr 4).type = some .float := by
      rw [← hp]
      decide +kernel
    have hleaf : .floating ⟨0x7ff0000000000000⟩ (some .float) ∈ (p.term 4).leaves := by
      rw [hterm, termLevel, hkind.1, hkind.2]
      exact List.mem_singleton_self _
    exact absurd (((hcuts 4).mp hcut).2 _ _ hleaf) (by decide +kernel)
  · have hkinds : (p.expr 6).kind = .unary .minus 5 ∧ (p.expr 5).kind = .integer (-1) := by
      rw [← hp]
      decide +kernel
    refine (hcuts 6).mpr ⟨?_, fun x kind hx => ?_⟩
    · rw [← hp]
      decide +kernel
    · rw [hterm, termLevel, hkinds.1] at hx
      change _ ∈ (p.term 5).leaves at hx
      rw [hterm, termLevel, hkinds.2] at hx
      cases List.mem_singleton.mp hx

end Program

end Readback
