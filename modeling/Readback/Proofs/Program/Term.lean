import Readback.Program.Term

/-! # Unfolding expressions

Expressions refer to their parts by number, so a term is unfolded from an expression with a bound on the
depth, and so is the way inward through parentheses and implicit casts. Where every part of an
expression stands before it (`Program.Ordered`), these bounds are never reached: the functions satisfy
the equations that one expects of them without a bound.

* `Program.termLevel` is one level of a term over the terms of the parts, and `Ordered.term_eq` says
  that unfolding an expression gives this level over unfolding its parts. Proofs by induction on terms
  use this equation and never see the bound.
* `Program.stripAux` goes inward while a function leads on. Both ways inward are instances, one through
  parentheses and one through implicit casts (`skipParensAux_eq_strip`, `skipCastsAux_eq_strip`), so
  that the facts about the bound are proved once: where it is large enough it does not matter
  (`Ordered.stripAux_eq`), and nothing leads on at the end (`Ordered.inner?_stripAux`).
* A term binds as tightly as the expression that it unfolds (`Ordered.precedence_term`); an implicit
  cast binds like its operand, since it is not written.

The last section is about growing programs. `Program.ExprsGrow p q` says that the expressions of `p`
stand unchanged in `q`; then the way inward is the same, and so is how tightly an expression binds
(`ExprsGrow.skipParens_eq`, `ExprsGrow.precedence_eq`). -/

namespace Readback

/-- The expressions directly inside an expression. -/
def ExprKind.parts : ExprKind → List Nat
  | .paren inner => [inner]
  | .unary _ operand => [operand]
  | .binary _ lhs rhs => [lhs, rhs]
  | .cast _ _ operand => [operand]
  | .initList elements => elements
  | .call callee args => callee :: args
  | _ => []

namespace Program

/-- Every expression stands after its parts. -/
def Ordered (p : Program) : Prop := ∀ e : Nat, ∀ x ∈ (p.expr e).kind.parts, x < e

theorem expr_of_size_le {p : Program} {e : Nat} (h : p.exprs.size ≤ e) : p.expr e = default := by
  simp [expr, h]

/-! ### Terms -/

/-- One level of a term; `sub` unfolds the parts. -/
def termLevel (p : Program) (sub : ExprId → Term) (e : Expr) : Term :=
  match e.kind with
  | .integer value => .integer value (p.builtin? e.type)
  | .floating value => .floating value (p.builtin? e.type)
  | .text value => .text value
  | .ref decl => .ref decl
  | .paren inner => .paren (sub inner)
  | .unary op operand => .unary op (sub operand)
  | .binary op lhs rhs => .binary op (sub lhs) (sub rhs)
  | .cast style _ operand => .cast style e.type (sub operand)
  | .initList elements => .initList (elements.map sub)
  | .call callee args => .call (sub callee) (args.map sub)

theorem termAux_succ (p : Program) (n : Nat) (e : Nat) :
    p.termAux (n + 1) e = p.termLevel (p.termAux n) (p.expr e) := rfl

theorem termLevel_congr (p : Program) {f g : ExprId → Term} {e : Expr}
    (h : ∀ x ∈ e.kind.parts, f x = g x) : p.termLevel f e = p.termLevel g e := by
  unfold termLevel
  cases hk : e.kind with
  | initList elements =>
      simp only [Term.initList.injEq]
      exact List.map_congr_left fun x hx => h x (by simpa [hk, ExprKind.parts] using hx)
  | call callee args =>
      simp only [Term.call.injEq]
      exact ⟨h _ (by simp [hk, ExprKind.parts]), List.map_congr_left fun x hx =>
        h x (by simp [hk, ExprKind.parts, hx])⟩
  | _ => simp_all [ExprKind.parts]

theorem Ordered.termAux_eq {p : Program} (h : p.Ordered) :
    ∀ (m n e : Nat), e < m → e < n → p.termAux m e = p.termAux n e := by
  intro m
  induction m with
  | zero => intro n e hm; omega
  | succ m ih =>
      intro n e hm hn
      obtain ⟨n, rfl⟩ : ∃ k, n = k + 1 := ⟨n - 1, by omega⟩
      rw [termAux_succ, termAux_succ]
      refine p.termLevel_congr fun x hx => ?_
      have := h e x hx
      exact ih n x (by omega) (by omega)

/-- Unfolding needs no bound. -/
theorem Ordered.term_eq {p : Program} (h : p.Ordered) (e : Nat) :
    p.term e = p.termLevel p.term (p.expr e) := by
  unfold term
  rw [termAux_succ]
  refine p.termLevel_congr fun x hx => ?_
  have := h e x hx
  exact h.termAux_eq e (x + 1) x (by omega) (by omega)

/-! ### Looking inward -/

/-- Goes inward while `inner?` leads on, at most as often as the first argument says. -/
def stripAux (inner? : ExprKind → Option ExprId) (p : Program) : Nat → ExprId → ExprId
  | 0, e => e
  | n + 1, e =>
    match inner? (p.expr e).kind with
    | some x => stripAux inner? p n x
    | none => e

/-- What stands in the parentheses. -/
def parenthesized? : ExprKind → Option ExprId
  | .paren inner => some inner
  | _ => none

/-- What is cast implicitly. -/
def implied? : ExprKind → Option ExprId
  | .cast .implicit _ operand => some operand
  | _ => none

theorem skipParensAux_eq_strip (p : Program) (n : Nat) (e : ExprId) :
    p.skipParensAux n e = stripAux parenthesized? p n e := by
  induction n generalizing e with
  | zero => rfl
  | succ n ih =>
      rw [skipParensAux, stripAux]
      cases (p.expr e).kind with
      | paren inner => exact ih inner
      | _ => rfl

theorem skipCastsAux_eq_strip (p : Program) (n : Nat) (e : ExprId) :
    p.skipCastsAux n e = stripAux implied? p n e := by
  induction n generalizing e with
  | zero => rfl
  | succ n ih =>
      rw [skipCastsAux, stripAux]
      cases (p.expr e).kind with
      | cast style c operand =>
          cases style with
          | implicit => exact ih operand
          | explicit => rfl
      | _ => rfl

/-- What `inner?` leads to is a part. -/
def LeadsInward (inner? : ExprKind → Option ExprId) : Prop := ∀ k x, inner? k = some x → x ∈ k.parts

theorem leadsInward_parenthesized : LeadsInward parenthesized? := by
  intro k x h
  cases k <;> simp_all [parenthesized?, ExprKind.parts]

theorem leadsInward_implied : LeadsInward implied? := by
  intro k x h
  cases k with
  | cast style c operand => cases style <;> simp_all [implied?, ExprKind.parts]
  | _ => simp [implied?] at h

section strip

variable {inner? : ExprKind → Option ExprId} (hin : LeadsInward inner?) {p : Program}

include hin

/-- Where the bound is large enough, it does not matter. -/
theorem Ordered.stripAux_eq (h : p.Ordered) :
    ∀ (m n e : Nat), e < m → e < n → stripAux inner? p m e = stripAux inner? p n e := by
  intro m
  induction m with
  | zero => intro n e hm; omega
  | succ m ih =>
      intro n e hm hn
      obtain ⟨n, rfl⟩ : ∃ k, n = k + 1 := ⟨n - 1, by omega⟩
      rw [stripAux, stripAux]
      split
      · next x hx =>
          have := h e x (hin _ x hx)
          exact ih n x (by omega) (by omega)
      · rfl

/-- Where the bound is large enough, nothing leads on at the end. -/
theorem Ordered.inner?_stripAux (h : p.Ordered) :
    ∀ (n e : Nat), e < n → inner? (p.expr (stripAux inner? p n e)).kind = none := by
  intro n
  induction n with
  | zero => intro e hn; omega
  | succ n ih =>
      intro e hn
      rw [stripAux]
      split
      · next x hx =>
          have := h e x (hin _ x hx)
          exact ih x (by omega)
      · next hnone => exact hnone

/-- The way inward never goes up. -/
theorem Ordered.stripAux_le (h : p.Ordered) (n e : Nat) : stripAux inner? p n e ≤ e := by
  induction n generalizing e with
  | zero => exact Nat.le_refl e
  | succ n ih =>
      rw [stripAux]
      split
      · next x hx => exact Nat.le_trans (ih x) (Nat.le_of_lt (h e x (hin _ x hx)))
      · exact Nat.le_refl e

end strip

theorem Ordered.skipParensAux_eq {p : Program} (h : p.Ordered) {n e : Nat} (hn : e < n) :
    p.skipParensAux n e = p.skipParens e := by
  rw [skipParens, skipParensAux_eq_strip, skipParensAux_eq_strip]
  exact h.stripAux_eq leadsInward_parenthesized n (e + 1) e hn (by omega)

theorem Ordered.skipCastsAux_eq {p : Program} (h : p.Ordered) {n e : Nat} (hn : e < n) :
    p.skipCastsAux n e = p.skipCasts e := by
  rw [skipCasts, skipCastsAux_eq_strip, skipCastsAux_eq_strip]
  exact h.stripAux_eq leadsInward_implied n (e + 1) e hn (by omega)

theorem Ordered.skipParens_paren {p : Program} (h : p.Ordered) {e inner : Nat}
    (hk : (p.expr e).kind = .paren inner) : p.skipParens e = p.skipParens inner := by
  have hlt := h e inner (by simp [hk, ExprKind.parts])
  rw [skipParens, skipParensAux, hk]
  exact h.skipParensAux_eq hlt

theorem skipParens_self {p : Program} {e : Nat} (hk : ∀ inner, (p.expr e).kind ≠ .paren inner) :
    p.skipParens e = e := by
  unfold skipParens skipParensAux
  split
  · next inner h => exact absurd h (hk inner)
  · rfl

theorem Ordered.skipCasts_cast {p : Program} (h : p.Ordered) {e operand : Nat} {c : Conversion}
    (hk : (p.expr e).kind = .cast .implicit c operand) : p.skipCasts e = p.skipCasts operand := by
  have hlt := h e operand (by simp [hk, ExprKind.parts])
  rw [skipCasts, skipCastsAux, hk]
  exact h.skipCastsAux_eq hlt

theorem skipCasts_self {p : Program} {e : Nat}
    (hk : ∀ c operand, (p.expr e).kind ≠ .cast .implicit c operand) : p.skipCasts e = e := by
  unfold skipCasts skipCastsAux
  split
  · next c operand h => exact absurd h (hk c operand)
  · rfl

theorem Ordered.skipParens_kind {p : Program} (h : p.Ordered) (e inner : ExprId) :
    (p.expr (p.skipParens e)).kind ≠ .paren inner := by
  intro hk
  have hend := h.inner?_stripAux leadsInward_parenthesized (e + 1) e (by omega)
  rw [← skipParensAux_eq_strip, ← skipParens, hk] at hend
  cases hend

theorem Ordered.skipCasts_kind {p : Program} (h : p.Ordered) (e : ExprId) (c : Conversion)
    (operand : ExprId) : (p.expr (p.skipCasts e)).kind ≠ .cast .implicit c operand := by
  intro hk
  have hend := h.inner?_stripAux leadsInward_implied (e + 1) e (by omega)
  rw [← skipCastsAux_eq_strip, ← skipCasts, hk] at hend
  cases hend

/-! ### Precedence -/

theorem Ordered.precedence_cast {p : Program} (h : p.Ordered) {e operand : Nat} {c : Conversion}
    (hk : (p.expr e).kind = .cast .implicit c operand) : p.precedence e = p.precedence operand := by
  unfold precedence
  rw [h.skipCasts_cast hk]

theorem precedence_self {p : Program} {e : Nat}
    (hk : ∀ c operand, (p.expr e).kind ≠ .cast .implicit c operand) :
    p.precedence e = levelPrecedence (p.expr e).kind := by
  unfold precedence
  rw [skipCasts_self hk]

/-- A term binds as tightly as the expression that it unfolds. -/
theorem Ordered.precedence_term {p : Program} (h : p.Ordered) (e : Nat) :
    (p.term e).precedence = p.precedence e := by
  induction e using Nat.strongRecOn with
  | ind e ih =>
      rw [h.term_eq e, termLevel]
      cases hk : (p.expr e).kind with
      | cast style c operand =>
          cases style with
          | implicit =>
              rw [h.precedence_cast hk]
              exact ih operand (h e operand (by simp [hk, ExprKind.parts]))
          | explicit => rw [precedence_self (by simp [hk]), hk]; rfl
      | _ => rw [precedence_self (by simp [hk]), hk]; rfl

/-! ### Growing programs -/

/-- The expressions of `p` stand unchanged in `q`. -/
def ExprsGrow (p q : Program) : Prop :=
  p.exprs.size ≤ q.exprs.size ∧ ∀ e : Nat, e < p.exprs.size → q.expr e = p.expr e

theorem ExprsGrow.of_eq {p q : Program} (h : q.exprs = p.exprs) : p.ExprsGrow q :=
  ⟨Nat.le_of_eq (by rw [h]), fun e _ => by simp only [expr, h]⟩

theorem ExprsGrow.trans {p q r : Program} (h₁ : p.ExprsGrow q) (h₂ : q.ExprsGrow r) :
    p.ExprsGrow r :=
  ⟨Nat.le_trans h₁.1 h₂.1, fun e he => (h₂.2 e (Nat.lt_of_lt_of_le he h₁.1)).trans (h₁.2 e he)⟩

section pushExpr

variable (p : Program) (k : ExprKind) (t : QualType) (c : ValueCategory)

theorem expr_pushExpr_of_lt {e : Nat} (he : e < p.exprs.size) :
    (p.pushExpr k t c).2.expr e = p.expr e := by
  simp [pushExpr, pushStmt, expr, Array.getElem?_push, Nat.ne_of_lt he]

theorem expr_pushExpr_self :
    (p.pushExpr k t c).2.expr p.exprs.size = ⟨p.exprs.size, p.stmts.size, k, t, c⟩ := by
  simp [pushExpr, pushStmt, expr]

theorem pushExpr_grow : p.ExprsGrow (p.pushExpr k t c).2 :=
  ⟨by simp [pushExpr, pushStmt], fun _ he => p.expr_pushExpr_of_lt k t c he⟩

end pushExpr

/-- Further expressions do not change the way inward. -/
theorem ExprsGrow.stripAux_eq {inner? : ExprKind → Option ExprId} (hin : LeadsInward inner?)
    {p q : Program} (hg : p.ExprsGrow q) (hp : p.Ordered) (n : Nat) {e : Nat}
    (he : e < p.exprs.size) : stripAux inner? q n e = stripAux inner? p n e := by
  induction n generalizing e with
  | zero => rfl
  | succ n ih =>
      rw [stripAux, stripAux, hg.2 e he]
      split
      · next x hx =>
          have := hp e x (hin _ x hx)
          exact ih (by omega)
      · rfl

theorem ExprsGrow.skipParens_eq {p q : Program} (hg : p.ExprsGrow q) (hp : p.Ordered) {e : Nat}
    (he : e < p.exprs.size) : q.skipParens e = p.skipParens e := by
  rw [skipParens, skipParens, skipParensAux_eq_strip, skipParensAux_eq_strip]
  exact hg.stripAux_eq leadsInward_parenthesized hp _ he

theorem ExprsGrow.skipCasts_eq {p q : Program} (hg : p.ExprsGrow q) (hp : p.Ordered) {e : Nat}
    (he : e < p.exprs.size) : q.skipCasts e = p.skipCasts e := by
  rw [skipCasts, skipCasts, skipCastsAux_eq_strip, skipCastsAux_eq_strip]
  exact hg.stripAux_eq leadsInward_implied hp _ he

theorem Ordered.skipParens_le {p : Program} (h : p.Ordered) (e : ExprId) : p.skipParens e ≤ e := by
  rw [skipParens, skipParensAux_eq_strip]
  exact h.stripAux_le leadsInward_parenthesized (e + 1) e

theorem Ordered.skipCasts_le {p : Program} (h : p.Ordered) (e : ExprId) : p.skipCasts e ≤ e := by
  rw [skipCasts, skipCastsAux_eq_strip]
  exact h.stripAux_le leadsInward_implied (e + 1) e

/-- Further expressions do not change how tightly an expression binds. -/
theorem ExprsGrow.precedence_eq {p q : Program} (hg : p.ExprsGrow q) (hp : p.Ordered) {e : Nat}
    (he : e < p.exprs.size) : q.precedence e = p.precedence e := by
  have hlt := Nat.lt_of_le_of_lt (hp.skipCasts_le e) he
  rw [precedence, precedence, hg.skipCasts_eq hp he, hg.2 _ hlt]

end Program

end Readback
