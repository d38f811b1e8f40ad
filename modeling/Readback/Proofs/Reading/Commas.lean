import Readback.Layout.Unit
import Readback.Proofs.Reading.Expr
import Readback.Proofs.Typing.Growth

/-! # Expressions between commas

Arguments and the elements of lists stand between commas, and an initial value stands where a comma
would begin the next declarator. Construction puts an argument or an element into parentheses if it is
an application of the comma operator, so each binds tighter than a comma and there are as many as were
given. It does not do so for an initial value: one that is an application of the comma operator is read
only up to its first comma.

* Only applications of the comma operator bind as loosely as a comma (`not_comma_lt_precedence_iff`).
  What binds tighter is read as a whole at the level of assignments, up to a symbol that does not
  continue it there (`WellGrouped.reads_tighter`); an application of the comma operator is read at that
  level only up to its first comma (`WellGrouped.reads_to_comma`).
* `EndsDeclarator` says that after the `=` of a declaration the whole initial value is read and the
  declaration ends; `BeginsDeclarator` says that only some first part of it is read, and the comma makes
  the rest another declarator. An initial value cannot do both (`EndsDeclarator.not_begins`).
* `setInit_keeps` is why: a variable gets the initial value that is given, and no expression is made for
  it.

The main result is `Program.Constructed.between_commas`. In a constructed program every argument and
element binds tighter than a comma, so calls and lists are read with as many as they have; and an
initial value ends its declarator if and only if it is no application of the comma operator.
`Constructed.between_commas_pair` has one pair in both places. -/

namespace Readback

open Step

namespace Program

variable {p : Program}

/-- Only applications of the comma operator bind as loosely as a comma. -/
theorem not_comma_lt_precedence_iff (e : ExprId) :
    ¬ .comma < p.precedence e ↔ ∃ l r, (p.expr (p.skipCasts e)).kind = .binary .comma l r := by
  have loosest : ∀ op : BinaryOp, ¬ .comma < op.precedence ↔ op = .comma := by
    intro op
    cases op <;> decide
  unfold precedence
  cases (p.expr (p.skipCasts e)).kind with
  | integer value | floating value =>
      rw [levelPrecedence]
      split <;> exact iff_of_false (by decide) (by rintro ⟨_, _, ⟨⟩⟩)
  | unary op operand =>
      refine iff_of_false (not_not_intro ?_) (by rintro ⟨_, _, ⟨⟩⟩)
      show .comma < op.precedence
      cases op <;> decide
  | binary op lhs rhs =>
      rw [levelPrecedence, loosest]
      constructor
      · rintro rfl
        exact ⟨lhs, rhs, rfl⟩
      · rintro ⟨_, _, ⟨⟩⟩
        rfl
  | cast style c operand =>
      exact iff_of_false (not_not_intro (by decide : Precedence.comma < .unary)) (by rintro ⟨_, _, ⟨⟩⟩)
  | call callee args =>
      exact iff_of_false (not_not_intro (by decide : Precedence.comma < .suffixed)) (by rintro ⟨_, _, ⟨⟩⟩)
  | _ =>
      exact iff_of_false (not_not_intro (by decide : Precedence.comma < .primary)) (by rintro ⟨_, _, ⟨⟩⟩)

/-! ### Tokens of an application of the comma operator -/

theorem Ordered.tokens_cast (h : p.Ordered) {e operand : ExprId} {c : Conversion}
    (hk : (p.expr e).kind = .cast .implicit c operand) : p.tokens e = p.tokens operand := by
  rw [tokens, h.term_eq e, termLevel, hk]
  exact Term.tokens_hidden p _ _

theorem Ordered.tokens_comma (h : p.Ordered) {e lhs rhs : ExprId}
    (hk : (p.expr e).kind = .binary .comma lhs rhs) :
    p.tokens e = p.tokens lhs ++ .symbol "," :: p.tokens rhs := by
  rw [tokens, h.term_eq e, termLevel, hk]
  exact Term.tokens_binary p false .comma _ _

/-- What binds tighter than a comma is read at the level of assignments, up to a symbol that does not
continue it there. -/
theorem WellGrouped.reads_tighter (h : p.WellGrouped) {e : ExprId} (he : .comma < p.precedence e)
    {rest : List Token} (hrest : Stops 1 rest) :
    Reads (.expr 1) (p.tokens e ++ rest) [p.reading e] rest := by
  have hread : ReadFrom .assignment (p.tokens e) (p.reading e) :=
    (Derives.looser he (h.derives e)).readFrom
  exact hread.exact (Nat.le_refl 1) hrest hrest

/-- An application of the comma operator is read at that level only up to its first comma. -/
theorem WellGrouped.reads_to_comma (h : p.WellGrouped) (e : ExprId)
    (he : ¬ .comma < p.precedence e) :
    ∃ t us, ∀ rest, Reads (.expr 1) (p.tokens e ++ rest) [t] (.symbol "," :: (us ++ rest)) := by
  induction e using Nat.strongRecOn with
  | ind e ih =>
      by_cases hcast : ∃ c operand, (p.expr e).kind = .cast .implicit c operand
      · obtain ⟨c, operand, hk⟩ := hcast
        rw [h.ordered.precedence_cast hk] at he
        rw [h.ordered.tokens_cast hk]
        exact ih operand (h.ordered e operand (by simp [hk, ExprKind.parts])) he
      · obtain ⟨lhs, rhs, hk⟩ := (not_comma_lt_precedence_iff e).mp he
        rw [skipCasts_self fun c operand hk => hcast ⟨c, operand, hk⟩] at hk
        rw [h.ordered.tokens_comma hk]
        by_cases hl : .comma < p.precedence lhs
        · -- The first comma is the one between the operands.
          refine ⟨p.reading lhs, p.tokens rhs, fun rest => ?_⟩
          simpa using h.reads_tighter hl (.of_comma (p.tokens rhs ++ rest))
        · obtain ⟨t, us, hread⟩ := ih lhs (h.ordered e lhs (by simp [hk, ExprKind.parts])) hl
          refine ⟨t, us ++ .symbol "," :: p.tokens rhs, fun rest => ?_⟩
          simpa using hread (.symbol "," :: (p.tokens rhs ++ rest))

/-! ### Readings of lists and calls -/

theorem Ordered.reading_call (h : p.Ordered) {e callee : ExprId} {args : List ExprId}
    (hk : (p.expr e).kind = .call callee args) :
    p.reading e = .call (p.reading callee) (args.map p.reading) := by
  rw [reading, h.term_eq e, termLevel, hk]
  simp only [Term.reading, Term.readings_eq_map, List.map_map]
  rfl

theorem Ordered.reading_initList (h : p.Ordered) {e : ExprId} {elements : List ExprId}
    (hk : (p.expr e).kind = .initList elements) :
    p.reading e = .list (elements.map p.reading) := by
  rw [reading, h.term_eq e, termLevel, hk]
  simp only [Term.reading, Term.readings_eq_map, List.map_map]
  rfl

/-! ### Initial values -/

/-- After the `=` of a declaration, the whole initial value is read and the declaration ends. -/
def EndsDeclarator (p : Program) (e : ExprId) : Prop :=
  ∀ rest out left, Reads (.expr 1) (p.tokens e ++ .symbol ";" :: rest) out left ↔
    out = [p.reading e] ∧ left = .symbol ";" :: rest

/-- After the `=` of a declaration, only some first part of the initial value is read, and the comma
after it makes the rest another declarator. -/
def BeginsDeclarator (p : Program) (e : ExprId) : Prop :=
  ∃ t us, ∀ rest out left, Reads (.expr 1) (p.tokens e ++ .symbol ";" :: rest) out left ↔
    out = [t] ∧ left = .symbol "," :: (us ++ .symbol ";" :: rest)

theorem WellGrouped.endsDeclarator (h : p.WellGrouped) {e : ExprId} (he : .comma < p.precedence e) :
    p.EndsDeclarator e := by
  intro rest out left
  have hstops : Stops 1 (.symbol ";" :: rest) := by
    rintro s us c ⟨⟩ hc
    cases hc
  have hread := h.reads_tighter he hstops
  constructor
  · exact fun hr => hr.unique hread
  · rintro ⟨rfl, rfl⟩
    exact hread

theorem WellGrouped.beginsDeclarator (h : p.WellGrouped) {e : ExprId}
    (he : ¬ .comma < p.precedence e) : p.BeginsDeclarator e := by
  obtain ⟨t, us, hread⟩ := h.reads_to_comma e he
  refine ⟨t, us, fun rest out left => ?_⟩
  constructor
  · exact fun hr => hr.unique (hread _)
  · rintro ⟨rfl, rfl⟩
    exact hread _

/-- An initial value cannot do both. -/
theorem EndsDeclarator.not_begins {e : ExprId} (h : p.EndsDeclarator e) :
    ¬ p.BeginsDeclarator e := by
  rintro ⟨t, us, hbegins⟩
  have hread := (hbegins [] [t] _).mpr ⟨rfl, rfl⟩
  have hleft := ((h [] [t] _).mp hread).2
  simp at hleft

/-- A variable gets the initial value that is given, and no expression is made for it. -/
theorem setInit_keeps {d : DeclId} {e : ExprId} {q : Program}
    (h : Check.setInit d e p = .ok () q) :
    q.exprs = p.exprs ∧ ∃ type storage, (q.decl d).kind = .var type (some e) storage := by
  have hgives := Check.setInit_gives (p := p) d e
  have hsame := Check.setInit_sameExprs d e p
  unfold Gives Ensures at hgives
  unfold after at hsame
  rw [h] at hgives hsame
  obtain ⟨r, type, old, storage, hr, hk, rfl⟩ := hgives
  have hd : d < r.decls.size := by
    have hdecls : r.decls = p.decls := by rw [hr]
    rw [hdecls]
    exact lt_of_kind_ne (by rw [hk]; exact nofun)
  refine ⟨hsame, type, storage, ?_⟩
  rw [decl_setDeclKind, if_pos ⟨rfl, hd⟩]

/-- **What stands between commas binds tighter than a comma, save initial values.** In a constructed
program every argument of a call and every element of a list binds tighter than a comma, so the text
of a call or a list is read with the arguments or elements that it has. A variable keeps the initial
value that it is given as it is. The declaration ends after it if and only if it binds tighter than a
comma, which is if it is no application of the comma operator behind implicit casts; else the first
comma in it begins another declarator. -/
theorem Constructed.between_commas (h : p.Constructed) :
    (∀ e callee args, (p.expr e).kind = .call callee args →
      (∀ x ∈ args, .comma < p.precedence x) ∧
        ∀ r, Derives .comma (p.tokens e) r ↔ r = .call (p.reading callee) (args.map p.reading)) ∧
    (∀ e elements, (p.expr e).kind = .initList elements →
      (∀ x ∈ elements, .comma < p.precedence x) ∧
        ∀ r, Derives .comma (p.tokens e) r ↔ r = .list (elements.map p.reading)) ∧
    (∀ d e q, Check.setInit d e p = .ok () q →
      q.exprs = p.exprs ∧ ∃ type storage, (q.decl d).kind = .var type (some e) storage) ∧
    ∀ d type e storage, (p.decl d).kind = .var type (some e) storage →
      (∃ front, p.varText false false d = .ok (front ++ " = " ++ p.exprText false false e)) ∧
        Laid (p.tokens e) (p.exprText false false e) ∧
        (.comma < p.precedence e ↔ ∀ l r, (p.expr (p.skipCasts e)).kind ≠ .binary .comma l r) ∧
        (p.EndsDeclarator e ↔ .comma < p.precedence e) ∧
        (p.BeginsDeclarator e ↔ ¬ .comma < p.precedence e) := by
  have hgrouped := h.wellGrouped
  refine ⟨fun e callee args hk => ?_, fun e elements hk => ?_, fun d e q hset => ?_,
    fun d type e storage hk => ⟨?_, (h.reads_back e).1, ?_, ?_, ?_⟩⟩
  · have hgroups := hgrouped.groups e
    rw [hk] at hgroups
    refine ⟨hgroups.2, fun r => ?_⟩
    rw [(h.reads_back e).2 r, hgrouped.ordered.reading_call hk]
  · have hgroups := hgrouped.groups e
    rw [hk] at hgroups
    refine ⟨hgroups, fun r => ?_⟩
    rw [(h.reads_back e).2 r, hgrouped.ordered.reading_initList hk]
  · exact setInit_keeps hset
  · refine ⟨(storage.keyword?.elim "" fun k => keyword false k ++ " ") ++
      p.declarator type (p.decl d).name, ?_⟩
    simp [varText, hk, String.append_assoc]
  · rw [← not_iff_not, not_comma_lt_precedence_iff]
    simp
  · constructor
    · exact fun hends => by_contra fun he => hends.not_begins (hgrouped.beginsDeclarator he)
    · exact hgrouped.endsDeclarator
  · constructor
    · exact fun hbegins he => (hgrouped.endsDeclarator he).not_begins hbegins
    · exact hgrouped.beginsDeclarator

/-- An argument gets the parentheses that the initial value of `x` does not get. -/
theorem Constructed.between_commas_pair :
    ∃ p : Program, p.Constructed ∧ p.exprText false false 5 = "f((1, 2), 2)" ∧
      (∀ r, Derives .comma (p.tokens 5) r ↔
        r = .call (.name "f") [.binary .comma (.literal "1") (.literal "2"), .literal "2"]) ∧
      p.varText false false 1 = .ok "int x = 1, 2" ∧ p.BeginsDeclarator 2 := by
  have h₀ := Constructed.empty ⟨"x86_64-unknown-linux-gnu", false, 16, 32, 64, 64, 64⟩
  have h₁ := h₀.step (.builtin .int) (by decide +kernel)
  have h₂ := h₁.step (.functionType (.plain 0) [.plain 0, .plain 0] false) (by decide +kernel)
  have h₃ := h₂.step (.functionDecl .file "f" (.plain 1)) (by decide +kernel)
  have h₄ := h₃.step (.varDecl .file "x" (.plain 0) .unspecified) (by decide +kernel)
  have h₅ := h₄.step (.integer 1 (.plain 0)) (by decide +kernel)
  have h₆ := h₅.step (.integer 2 (.plain 0)) (by decide +kernel)
  have h₇ := h₆.step (.binary .comma 0 1) (by decide +kernel)
  have h₈ := h₇.step (.declRef 0) (by decide +kernel)
  have h₉ := h₈.step (.call 3 [2, 1]) (by decide +kernel)
  have h := h₉.step (.setInit 1 2) (by decide +kernel)
  obtain ⟨hcalls, -, -, hinits⟩ := h.between_commas
  refine ⟨_, h, by decide +kernel, ?_, by decide +kernel, ?_⟩
  · intro r
    rw [(hcalls 5 3 [4, 1] (by decide +kernel)).2 r]
    refine Iff.of_eq (congrArg (r = ·) ?_)
    set_option maxRecDepth 2000 in with_unfolding_all rfl
  · obtain ⟨-, -, htight, -, hbegins⟩ := hinits 1 (.plain 0) 2 .unspecified (by decide +kernel)
    exact hbegins.mpr fun hlt => htight.mp hlt 0 1 (by decide +kernel)

end Program

end Readback
