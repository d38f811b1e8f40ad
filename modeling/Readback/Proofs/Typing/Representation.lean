import Readback.Proofs.Typing.Changes

/-! # How programs are represented

The tables of a constructed program refer to each other in one way only: every node knows its own
position, expressions and the statements that stand for them are paired off, and nodes refer to nodes
before them. So following parts comes to an end. Construction appends to the tables and completes
declarations, and leaves all else as it is.

* `Program.Represented` is how the tables refer to each other. Each elementary change keeps it
  (`Change.keeps_represented`): an expression is appended together with its statement, a statement
  alone, and completing a declaration does not touch either.
* `Program.Unfolds` says that a bound that exceeds the position of a node does not matter: terms, the
  way through parentheses and casts, and the types behind ids are the same for all such bounds. It
  follows from the order of the tables (`Ordered.unfolds`).
* `Program.Retains` is what one state of a program keeps of an earlier one: all types, expressions and
  statements stand unchanged, and declarations are at most completed (`Decl.CompletedBy`). It is a
  preorder, and every elementary change leads along it (`Change.retains`).

The main result is `Program.Constructed.represented`, for every sequence of calls and for the state that
one further call leaves, successful or not. In `Constructed.represented_function` a function is made and
then given a body, which completes its declaration and keeps every node that was there. -/

namespace Readback

open Step

/-- `y` is `x` with other parameters, body, locals, initial value or fields. -/
structure Decl.CompletedBy (x y : Decl) : Prop where
  id : y.id = x.id
  name : y.name = x.name
  scope : y.scope = x.scope
  sort : y.kind.sort = x.kind.sort

theorem Decl.CompletedBy.refl (x : Decl) : x.CompletedBy x := ⟨rfl, rfl, rfl, rfl⟩

theorem Decl.CompletedBy.trans {x y z : Decl} (h : x.CompletedBy y) (h' : y.CompletedBy z) :
    x.CompletedBy z :=
  ⟨h'.id.trans h.id, h'.name.trans h.name, h'.scope.trans h.scope, h'.sort.trans h.sort⟩

namespace Program

/-- All types, expressions and statements of `p` stand unchanged in `q`, and its declarations are
at most completed. -/
structure Retains (p q : Program) : Prop where
  target : q.target = p.target
  types : p.types.Within q.types
  exprs : ∀ (e : ExprId) (x : Expr), p.exprs[e]? = some x → q.exprs[e]? = some x
  stmts : ∀ (i : StmtId) (s : Stmt), p.stmts[i]? = some s → q.stmts[i]? = some s
  decls : ∀ (d : DeclId) (x : Decl), p.decls[d]? = some x →
    ∃ y, q.decls[d]? = some y ∧ x.CompletedBy y

/-- How the tables of a program refer to each other. -/
structure Represented (p : Program) : Prop where
  declIds : ∀ (d : DeclId) (x : Decl), p.decls[d]? = some x → x.id = d
  stmtIds : ∀ (i : StmtId) (s : Stmt), p.stmts[i]? = some s → s.id = i
  exprIds : ∀ (e : ExprId) (x : Expr), p.exprs[e]? = some x → x.id = e
  twinned : p.Twinned
  exprs : ∀ (e : ExprId) (x : Expr), p.exprs[e]? = some x → ∀ y ∈ x.kind.parts, y < e
  stmts : ∀ (i : StmtId) (s : Stmt), p.stmts[i]? = some s → ∀ j ∈ s.kind.inner, j < i

/-- Following parts comes to an end: once a bound exceeds the position of a node, it does not
matter, and nothing is left to be stripped. -/
structure Unfolds (p : Program) : Prop where
  parens : ∀ e n, e < n → p.skipParensAux n e = p.skipParens e
  casts : ∀ e n, e < n → p.skipCastsAux n e = p.skipCasts e
  terms : ∀ e n, e < n → p.termAux n e = p.term e
  types : ∀ (t : QualType) n, t.ref < n → p.types.treeAux n t = p.types.tree t
  bare : ∀ e inner, (p.expr (p.skipParens e)).kind ≠ .paren inner
  uncast : ∀ e c operand, (p.expr (p.skipCasts e)).kind ≠ .cast .implicit c operand

/-! ### What is there stays -/

theorem Retains.refl (p : Program) : p.Retains p :=
  ⟨rfl, .refl _, fun _ _ h => h, fun _ _ h => h, fun _ x h => ⟨x, h, .refl x⟩⟩

theorem Retains.trans {p q r : Program} (h : p.Retains q) (h' : q.Retains r) : p.Retains r where
  target := h'.target.trans h.target
  types := h.types.trans h'.types
  exprs e x hx := h'.exprs e x (h.exprs e x hx)
  stmts i s hs := h'.stmts i s (h.stmts i s hs)
  decls d x hx := by
    obtain ⟨y, hy, hxy⟩ := h.decls d x hx
    obtain ⟨z, hz, hyz⟩ := h'.decls d y hy
    exact ⟨z, hz, hxy.trans hyz⟩

instance : Interning Retains where
  refl := .refl
  trans _ _ _ := .trans
  intern p node := { Retains.refl p with types := p.types.within_intern node }

theorem getElem?_push_of_eq_some {α : Type} {a : Array α} {i : Nat} {x y : α}
    (h : a[i]? = some x) : (a.push y)[i]? = some x := by
  have hlt := (Array.getElem?_eq_some_iff.mp h).1
  rw [Array.getElem?_push, if_neg (Nat.ne_of_lt hlt)]
  exact h

theorem Change.retains {p q : Program} (h : p.Change q) : p.Retains q := by
  cases h with
  | intern node => exact Interning.intern p node
  | pushExpr k t c =>
      exact { Retains.refl p with
        exprs := fun _ _ => getElem?_push_of_eq_some
        stmts := fun _ _ => getElem?_push_of_eq_some }
  | pushStmt k => exact { Retains.refl p with stmts := fun _ _ => getElem?_push_of_eq_some }
  | pushDecl name scope k =>
      exact { Retains.refl p with
        decls := fun _ x hx => ⟨x, getElem?_push_of_eq_some hx, .refl x⟩ }
  | complete d k sort =>
      refine { Retains.refl p with decls := fun x y hy => ?_ }
      show ∃ z, (p.decls.modify d _)[x]? = some z ∧ y.CompletedBy z
      rw [Array.getElem?_modify, hy]
      by_cases hd : d = x
      · subst hd
        have hdecl : p.decl d = y := by rw [decl, hy]; rfl
        exact ⟨{ y with kind := k }, if_pos rfl, rfl, rfl, rfl, by rw [← hdecl]; exact sort⟩
      · exact ⟨y, if_neg hd, .refl y⟩
  | list d => exact { Retains.refl p with }

theorem Changes.retains {p q : Program} (h : p.Changes q) : p.Retains q := by
  induction h with
  | refl => exact .refl p
  | tail _ step ih => exact ih.trans step.retains

/-! ### How the tables refer to each other -/

theorem represented_empty (target : Target) : (empty target).Represented := by
  refine ⟨?_, ?_, ?_, fun i e => by simp [empty, asExpr?], ?_, ?_⟩ <;> simp [empty]

/-- What stands in a table after an entry was appended. -/
theorem getElem?_push_eq_some {α : Type} {a : Array α} {i : Nat} {x y : α}
    (h : (a.push y)[i]? = some x) : a[i]? = some x ∨ i = a.size ∧ x = y := by
  rw [Array.getElem?_push] at h
  split at h
  · next hi => exact .inr ⟨hi, (Option.some.inj h).symm⟩
  · exact .inl h

theorem Change.keeps_represented {p q : Program} (h : p.Change q) (hp : p.Represented) :
    q.Represented := by
  cases h with
  | intern node => exact ⟨hp.declIds, hp.stmtIds, hp.exprIds, hp.twinned, hp.exprs, hp.stmts⟩
  | list d => exact ⟨hp.declIds, hp.stmtIds, hp.exprIds, hp.twinned, hp.exprs, hp.stmts⟩
  | pushExpr k t c known =>
      refine ⟨hp.declIds, fun i s hs => ?_, fun e x hx => ?_,
        (p.pushExpr_extends k t c).twinned hp.twinned, fun e x hx => ?_, fun i s hs => ?_⟩
      · rcases getElem?_push_eq_some hs with hold | ⟨rfl, rfl⟩
        · exact hp.stmtIds i s hold
        · rfl
      · rcases getElem?_push_eq_some hx with hold | ⟨rfl, rfl⟩
        · exact hp.exprIds e x hold
        · rfl
      · rcases getElem?_push_eq_some hx with hold | ⟨rfl, rfl⟩
        · exact hp.exprs e x hold
        · exact known
      · rcases getElem?_push_eq_some hs with hold | ⟨rfl, rfl⟩
        · exact hp.stmts i s hold
        · exact nofun
  | pushStmt k own known =>
      refine ⟨hp.declIds, fun i s hs => ?_, hp.exprIds, (p.pushStmt_extends own).twinned hp.twinned,
        hp.exprs, fun i s hs => ?_⟩
      · rcases getElem?_push_eq_some hs with hold | ⟨rfl, rfl⟩
        · exact hp.stmtIds i s hold
        · rfl
      · rcases getElem?_push_eq_some hs with hold | ⟨rfl, rfl⟩
        · exact hp.stmts i s hold
        · exact known
  | pushDecl name scope k =>
      refine ⟨fun d x hx => ?_, hp.stmtIds, hp.exprIds, hp.twinned, hp.exprs, hp.stmts⟩
      rcases getElem?_push_eq_some hx with hold | ⟨rfl, rfl⟩
      · exact hp.declIds d x hold
      · rfl
  | complete d k =>
      refine ⟨fun x y hy => ?_, hp.stmtIds, hp.exprIds, hp.twinned, hp.exprs, hp.stmts⟩
      change (p.decls.modify d _)[x]? = some y at hy
      rw [Array.getElem?_modify] at hy
      split at hy
      · obtain ⟨z, hz, rfl⟩ := Option.map_eq_some_iff.mp hy
        exact hp.declIds x z hz
      · exact hp.declIds x y hy

theorem Represented.ordered {p : Program} (h : p.Represented) : p.Ordered := by
  intro e y hy
  unfold expr at hy
  cases hx : p.exprs[e]? with
  | none =>
      rw [hx] at hy
      cases hy
  | some x =>
      rw [hx] at hy
      exact h.exprs e x hx y hy

theorem Ordered.unfolds {p : Program} (h : p.Ordered) (types : p.types.Ordered) : p.Unfolds where
  parens _ _ hn := h.skipParensAux_eq hn
  casts _ _ hn := h.skipCastsAux_eq hn
  terms e n hn := h.termAux_eq n (e + 1) e hn (Nat.lt_succ_self e)
  types t n hn := types.treeAux_eq n (t.ref + 1) t hn (Nat.lt_succ_self _)
  bare := h.skipParens_kind
  uncast := h.skipCasts_kind

/-- **Tables of constructed programs.** Nodes know their positions, expressions and their statements
are paired off, and every part stands before the whole, so following parts comes to an end. No call
of construction changes a type, an expression or a statement that is there, nor of a declaration
anything but its parameters, body, locals, initial value and fields. -/
theorem Constructed.represented {p : Program} (h : p.Constructed) :
    p.Represented ∧ p.Unfolds ∧ ∀ c : Construction, c.Known p → p.Retains (c.after p) := by
  have hp : p.Represented := h.induct represented_empty fun _ _ _ step => step.keeps_represented
  refine ⟨hp, hp.ordered.unfolds h.wellTyped.types, fun c known => ?_⟩
  exact (c.after_changes h.wellTyped known).retains

/-- A function is made and then given its body, `{ (-3); }`: the statement for the expression in
parentheses stands in the body, and giving the body keeps every node that is there. -/
theorem Constructed.represented_function :
    ∃ p : Program, p.Constructed ∧ p.asExpr? 1 = some 1 ∧ (p.expr 1).kind = .paren 0 ∧
      (p.stmt 2).kind = .compound [1] ∧ p.skipParens 1 = 0 ∧
      (p.decl 0).kind = .function (.plain 1) [] none [] ∧
      p.Retains ((Construction.setBody 0 2).after p) ∧
      (((Construction.setBody 0 2).after p).decl 0).kind = .function (.plain 1) [] (some 2) [] := by
  have h₀ := Constructed.empty ⟨"x86_64-unknown-linux-gnu", false, 16, 32, 64, 64, 64⟩
  have h₁ := h₀.step (.builtin .int) (by decide +kernel)
  have h₂ := h₁.step (.functionType (.plain 0) [] false) (by decide +kernel)
  have h₃ := h₂.step (.functionDecl .file "f" (.plain 1)) (by decide +kernel)
  have h₄ := h₃.step (.integer (-3) (.plain 0)) (by decide +kernel)
  have h₅ := h₄.step (.paren 0) (by decide +kernel)
  have h₆ := h₅.step (.compound [1]) (by decide +kernel)
  exact ⟨_, h₆, by decide +kernel, by decide +kernel, by decide +kernel, by decide +kernel,
    by decide +kernel, h₆.represented.2.2 (.setBody 0 2) (by decide +kernel), by decide +kernel⟩

end Program

end Readback
