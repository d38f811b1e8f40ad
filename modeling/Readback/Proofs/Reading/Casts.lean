import Readback.Proofs.Reading.Expr

/-! # Expressions with their implicit casts

Construction groups operands as they are written without implicit casts. When these are shown, an
implicit cast is a prefix of its operand and binds looser than a suffix operator or a call, which the
program may put behind it. So the text of a term is a row of casts and a core behind them: a suffix
operator or a call behind an implicit cast goes to the core, inside the cast.

* `CastRow` is what a text is read as that begins with casts: their types, and what is read behind them.
  `Term.shown` computes the row of a term; what is written behind a term goes to the core of its row.
* `Term.fullReading` is the term itself, without its parentheses and with each implicit cast as a cast
  of its operand. The two are the same if and only if no suffix operator and no call stands behind an
  implicit cast (`Term.castsApart`, `Term.reading_shown_eq_iff`).
* `DerivesShown` is the statement about the grammar that is proved by induction on terms: the tokens of
  a term are casts and, behind them, tokens that the grammar derives at the level at which the term
  binds without its implicit casts. What may be done with such tokens is stated in a lemma each: read
  them as a whole (`DerivesShown.derives`), at a tighter level (`DerivesShown.tighter`), with something
  behind them (`DerivesShown.behind`), or behind a cast (`DerivesShown.cast`).

The main result is `Program.Constructed.shown_reads_back`: the text of an expression in which implicit
casts are shown has exactly one reading, which is the row that `Term.shown` computes, and it is the
expression itself exactly if `Term.castsApart` holds. `Constructed.shown_reads_back_decayed` is a call
of a function whose name has turned into a pointer: it is read as a cast of the call. -/

namespace Readback

/-- What a text is read as that begins with casts: their types, and what is read behind them. -/
structure CastRow where
  casts : List String
  core : Reading

namespace CastRow

/-- A text that does not begin with a cast. -/
def plain (r : Reading) : CastRow := ⟨[], r⟩

/-- The whole text, each cast applied to what is behind it. -/
def reading (s : CastRow) : Reading := s.casts.foldr .cast s.core

/-- The text behind a further cast. -/
def cast (type : String) (s : CastRow) : CastRow := ⟨type :: s.casts, s.core⟩

@[simp] theorem reading_plain (r : Reading) : (plain r).reading = r := rfl

@[simp] theorem reading_cast (type : String) (s : CastRow) :
    (s.cast type).reading = .cast type s.reading := rfl

end CastRow

namespace Term

variable (p : Program)

mutual

/-- What the text of a term with its implicit casts is read as. -/
def shown : Term → CastRow
  | .integer value kind => .plain (reading p (.integer value kind))
  | .floating value kind => .plain (reading p (.floating value kind))
  | .text value => .plain (reading p (.text value))
  | .ref decl => .plain (reading p (.ref decl))
  | .paren inner => .plain (shown inner).reading
  | .unary op operand =>
    if op.isSuffix then { shown operand with core := .unary op (shown operand).core }
    else .plain (.unary op (shown operand).reading)
  | .binary op lhs rhs => .plain (.binary op (shown lhs).reading (shown rhs).reading)
  | .cast style type operand =>
    match style with
    | .explicit => .plain (.cast (p.typeText type) (shown operand).reading)
    | .implicit =>
      if operand.precedence < .unary then (CastRow.plain (shown operand).reading).cast (p.typeText type)
      else (shown operand).cast (p.typeText type)
  | .initList elements => .plain (.list (shownReadings elements))
  | .call callee args =>
    { shown callee with core := .call (shown callee).core (shownReadings args) }

/-- What the texts of several terms are read as. -/
def shownReadings : List Term → List Reading
  | [] => []
  | t :: rest => (shown t).reading :: shownReadings rest

end

mutual

/-- A term without its parentheses and with each implicit cast as a cast of its operand. -/
def fullReading : Term → Reading
  | .paren inner => fullReading inner
  | .unary op operand => .unary op (fullReading operand)
  | .binary op lhs rhs => .binary op (fullReading lhs) (fullReading rhs)
  | .cast _ type operand => .cast (p.typeText type) (fullReading operand)
  | .initList elements => .list (fullReadings elements)
  | .call callee args => .call (fullReading callee) (fullReadings args)
  | t => reading p t

/-- Several terms without parentheses and with implicit casts. -/
def fullReadings : List Term → List Reading
  | [] => []
  | t :: rest => fullReading t :: fullReadings rest

end

/-- Whether the text of a term begins with an implicit cast when these are shown. -/
def beginsWithCast : Term → Bool
  | .unary op operand => op.isSuffix && beginsWithCast operand
  | .cast style _ _ => style = .implicit
  | .call callee _ => beginsWithCast callee
  | _ => false

mutual

/-- Whether no suffix operator and no call stands behind an implicit cast. -/
def castsApart : Term → Bool
  | .paren inner => castsApart inner
  | .unary op operand => !(op.isSuffix && operand.beginsWithCast) && castsApart operand
  | .binary _ lhs rhs => castsApart lhs && castsApart rhs
  | .cast _ _ operand => castsApart operand
  | .initList elements => castsApartAll elements
  | .call callee args => !callee.beginsWithCast && castsApart callee && castsApartAll args
  | _ => true

/-- Whether in several terms nothing stands behind an implicit cast. -/
def castsApartAll : List Term → Bool
  | [] => true
  | t :: rest => castsApart t && castsApartAll rest

end

theorem shownReadings_eq_map (ts : List Term) :
    shownReadings p ts = ts.map fun t => (shown p t).reading := by
  induction ts with
  | nil => rfl
  | cons t ts ih => rw [shownReadings, ih, List.map_cons]

/-! ### When the text is read as the term itself -/

/-- A term begins with an implicit cast if and only if its text is read with casts in front. -/
theorem casts_shown_eq_nil (t : Term) : (shown p t).casts = [] ↔ t.beginsWithCast = false := by
  fun_induction beginsWithCast t with
  | case1 op operand ih =>
      cases hs : op.isSuffix with
      | true => simpa [shown, hs] using ih
      | false => simp [shown, CastRow.plain, hs]
  | case2 style type operand =>
      cases style with
      | explicit => simp [shown, CastRow.plain]
      | implicit =>
          simp only [shown]
          split <;> simp [CastRow.cast]
  | case3 callee args ih => simpa [shown] using ih
  | case4 t hunary hcast hcall =>
      cases t with
      | unary op operand => exact absurd rfl (hunary op operand)
      | cast style type operand => exact absurd rfl (hcast style type operand)
      | call callee args => exact absurd rfl (hcall callee args)
      | _ => simp [shown, CastRow.plain]

/-- What goes to the core is the whole only if there are no casts in front. -/
theorem reading_core_eq_iff {s : CastRow} {f : Reading → Reading} {r : Reading}
    (hr : ∀ type x, Reading.cast type x ≠ r) :
    ({ s with core := f s.core } : CastRow).reading = r ↔ s.casts = [] ∧ f s.reading = r := by
  obtain ⟨casts, core⟩ := s
  cases casts with
  | nil => simp [CastRow.reading]
  | cons type casts => simp [CastRow.reading, hr]

mutual

/-- The text is read as the term itself if and only if nothing stands behind an implicit cast. -/
theorem reading_shown_eq_iff : ∀ t : Term, (shown p t).reading = fullReading p t ↔ t.castsApart = true
  | .integer _ _ => by simp [shown, fullReading, castsApart]
  | .floating _ _ => by simp [shown, fullReading, castsApart]
  | .text _ => by simp [shown, fullReading, castsApart]
  | .ref _ => by simp [shown, fullReading, castsApart]
  | .paren inner => by simpa [shown, fullReading, castsApart] using reading_shown_eq_iff inner
  | .unary op operand => by
    have ho := reading_shown_eq_iff operand
    cases hs : op.isSuffix with
    | true =>
        rw [shown, hs, if_pos rfl, fullReading, reading_core_eq_iff (f := .unary op) (by simp),
          casts_shown_eq_nil]
        simp [castsApart, hs, ho]
    | false => simpa [shown, fullReading, castsApart, hs] using ho
  | .binary op lhs rhs => by
    have hl := reading_shown_eq_iff lhs
    have hr := reading_shown_eq_iff rhs
    simp [shown, fullReading, castsApart, hl, hr]
  | .cast style type operand => by
    have ho := reading_shown_eq_iff operand
    cases style with
    | explicit => simpa [shown, fullReading, castsApart] using ho
    | implicit =>
        simp only [shown, fullReading, castsApart]
        split <;> simpa using ho
  | .initList elements => by
    simpa [shown, fullReading, castsApart] using shownReadings_eq_iff elements
  | .call callee args => by
    have hc := reading_shown_eq_iff callee
    have ha := shownReadings_eq_iff args
    rw [shown, fullReading, reading_core_eq_iff (f := fun core => .call core (shownReadings p args))
      (by simp), casts_shown_eq_nil]
    simp [castsApart, hc, ha, and_assoc]

theorem shownReadings_eq_iff : ∀ ts : List Term,
    shownReadings p ts = fullReadings p ts ↔ castsApartAll ts = true
  | [] => by simp [shownReadings, fullReadings, castsApartAll]
  | t :: ts => by
    simp [shownReadings, fullReadings, castsApartAll, reading_shown_eq_iff t, shownReadings_eq_iff ts]

end

/-! ### The text is read as shown -/

theorem tokens_shown {operand : Term} (h : ¬ operand.precedence < .unary) (type : QualType) :
    tokensWith p true (.cast .implicit type operand) =
      .castTo (p.typeText type) :: tokensWith p true operand := by
  simp [tokensWith, pieces, Piece.tokens, h]

theorem tokens_shown_group {operand : Term} (h : operand.precedence < .unary) (type : QualType) :
    tokensWith p true (.cast .implicit type operand) =
      .castTo (p.typeText type) :: (.symbol "(" :: tokensWith p true operand ++ [.symbol ")"]) := by
  simp [tokensWith, pieces, Piece.tokens, h]

/-- The tokens of a term are casts and, behind them, tokens that the grammar derives at the level at
which the term binds. Casts stand only in front of what binds at least as tightly as they do. -/
def DerivesShown (level : Precedence) (ts : List Token) (s : CastRow) : Prop :=
  ∃ q us, ts = s.casts.map .castTo ++ us ∧ Derives q us s.core ∧ level ≤ q ∧
    (s.casts = [] ∨ .unary ≤ q)

end Term

namespace Term.DerivesShown

theorem plain {level : Precedence} {ts : List Token} {r : Reading} (h : Derives level ts r) :
    DerivesShown level ts (.plain r) :=
  ⟨level, ts, rfl, h, Nat.le_refl _, .inl rfl⟩

theorem mono {level level' : Precedence} {ts : List Token} {s : CastRow} (h : DerivesShown level ts s)
    (hle : level' ≤ level) : DerivesShown level' ts s := by
  obtain ⟨q, us, hts, hd, hq, hc⟩ := h
  exact ⟨q, us, hts, hd, Nat.le_trans hle hq, hc⟩

/-- Casts in front of what binds at least as tightly form expressions of their own level. -/
theorem derives_casts {types : List String} {us : List Token} {r : Reading}
    (h : Derives .unary us r) : Derives .unary (types.map .castTo ++ us) (types.foldr .cast r) := by
  induction types with
  | nil => exact h
  | cons type types ih => exact .cast type ih

/-- The whole text, at any level up to that of a cast. -/
theorem derives {level : Precedence} {ts : List Token} {s : CastRow} (h : DerivesShown level ts s)
    {n : Precedence} (hle : n ≤ level) (hn : n ≤ .unary) : Derives n ts s.reading := by
  obtain ⟨q, us, rfl, hd, hq, hc⟩ := h
  obtain ⟨casts, core⟩ := s
  obtain rfl | hc := hc
  · exact .looser (Nat.le_trans hle hq) hd
  · exact .looser hn (derives_casts (.looser hc hd))

/-- The whole text, at a level above one that is looser than casts and than the term. -/
theorem tighter {level n : Precedence} {ts : List Token} {s : CastRow} (h : DerivesShown level ts s)
    (hlevel : n < level) (hn : n < .unary) : ∃ q, n < q ∧ Derives q ts s.reading := by
  by_cases hle : level ≤ .unary
  · exact ⟨level, hlevel, h.derives (Nat.le_refl _) hle⟩
  · exact ⟨.unary, hn, h.derives (Nat.le_of_not_le hle) (Nat.le_refl _)⟩

/-- What is written behind a term goes to its core. -/
theorem behind {ts vs : List Token} {s : CastRow} {f : Reading → Reading}
    (h : DerivesShown .suffixed ts s)
    (hf : ∀ us r, Derives .suffixed us r → Derives .suffixed (us ++ vs) (f r)) :
    DerivesShown .suffixed (ts ++ vs) { s with core := f s.core } := by
  obtain ⟨q, us, rfl, hd, hq, -⟩ := h
  exact ⟨.suffixed, us ++ vs, List.append_assoc .., hf us _ (.looser hq hd), Nat.le_refl _,
    .inr (by decide)⟩

/-- A cast of what binds at least as tightly. -/
theorem cast {level : Precedence} {ts : List Token} {s : CastRow} (h : DerivesShown level ts s)
    (hlevel : .unary ≤ level) (type : String) : DerivesShown level (.castTo type :: ts) (s.cast type) := by
  obtain ⟨q, us, rfl, hd, hq, -⟩ := h
  exact ⟨q, us, rfl, hd, hq, .inr (Nat.le_trans hlevel hq)⟩

end Term.DerivesShown

namespace Program

open Term

/-- The tokens of the text of an expression with its implicit casts. -/
def shownTokens (p : Program) (e : ExprId) : List Token := (p.term e).tokensWith p true

/-- What the text of an expression with its implicit casts is read as. -/
def shown (p : Program) (e : ExprId) : CastRow := (p.term e).shown p

/-- The items of a list of expressions that bind tighter than a comma. -/
theorem derives_shown_items {p : Program} {l : List Nat}
    (derives : ∀ e ∈ l, DerivesShown (p.precedence e) (p.shownTokens e) (p.shown e))
    (fits : ∀ e ∈ l, .comma < p.precedence e) :
    ∀ x ∈ l.map (fun e => (p.shownTokens e, (p.shown e).reading)), Derives .assignment x.1 x.2 := by
  intro x hx
  obtain ⟨e, he, rfl⟩ := List.mem_map.mp hx
  exact (derives e he).derives (fits e he) (by decide)

/-- The grammar derives the core of every expression of a well grouped program at the level at which
the expression binds without its implicit casts. -/
theorem WellGrouped.derives_shown {p : Program} (h : p.WellGrouped) (e : Nat) :
    DerivesShown (p.precedence e) (p.shownTokens e) (p.shown e) := by
  induction e using Nat.strongRecOn with
  | ind e ih =>
      have hparts := h.ordered e
      have hgroups := h.groups e
      rw [← h.ordered.precedence_term e, shownTokens, shown, h.ordered.term_eq e, termLevel]
      cases hk : (p.expr e).kind with
      | integer value => exact .plain (derives_integer p value _)
      | floating value => exact .plain (derives_floating p value _)
      | text value => exact .plain (derives_text p value)
      | ref d => exact .plain (.name _)
      | paren inner =>
          have hi := ih inner (hparts inner (by simp [hk, ExprKind.parts]))
          rw [tokens_paren, Term.shown]
          exact .plain (.group (hi.derives (Nat.zero_le _) (by decide)))
      | unary op operand =>
          have ho := ih operand (hparts operand (by simp [hk, ExprKind.parts]))
          have hle : op.precedence ≤ p.precedence operand := by simpa [hk, Groups] using hgroups
          cases hs : op.isSuffix with
          | true =>
              have hp : op.precedence = .suffixed := by simp [UnaryOp.precedence, hs]
              rw [hp] at hle
              simp only [tokens_suffixed p true hs, Term.shown, hs, if_true, Term.precedence, hp]
              exact (ho.mono hle).behind fun us r hr => .suffixed op hs hr
          | false =>
              have hp : op.precedence = .unary := by simp [UnaryOp.precedence, hs]
              rw [hp] at hle
              simp only [tokens_prefixed p true hs, Term.shown, hs, Term.precedence, hp]
              exact .plain (.prefixed op hs (ho.derives hle (Nat.le_refl _)))
      | binary op lhs rhs =>
          have hl := ih lhs (hparts lhs (by simp [hk, ExprKind.parts]))
          have hr := ih rhs (hparts rhs (by simp [hk, ExprKind.parts]))
          have hop : op.precedence < .unary := by cases op <;> decide
          rw [hk, Groups] at hgroups
          rw [tokens_binary, Term.shown]
          refine .plain (show Derives op.precedence _ _ from ?_)
          cases ha : op.isAssignment with
          | true =>
              obtain ⟨hlt, hle⟩ : op.precedence < p.precedence lhs ∧
                op.precedence ≤ p.precedence rhs := by simpa [ha] using hgroups
              obtain ⟨q, hq, hlq⟩ := hl.tighter hlt hop
              exact .rightward op ha hq hlq (hr.derives hle (Nat.le_of_lt hop))
          | false =>
              obtain ⟨hle, hlt⟩ : op.precedence ≤ p.precedence lhs ∧
                op.precedence < p.precedence rhs := by simpa [ha] using hgroups
              obtain ⟨q, hq, hrq⟩ := hr.tighter hlt hop
              exact .leftward op ha (hl.derives hle (Nat.le_of_lt hop)) hq hrq
      | cast style c operand =>
          have ho := ih operand (hparts operand (by simp [hk, ExprKind.parts]))
          rw [← h.ordered.precedence_term operand] at ho
          cases style with
          | explicit =>
              have hle : .unary ≤ p.precedence operand := by simpa [hk, Groups] using hgroups
              rw [← h.ordered.precedence_term operand] at hle
              rw [tokens_explicit, Term.shown]
              exact .plain (.cast _ (ho.derives hle (Nat.le_refl _)))
          | implicit =>
              rw [Term.precedence, Term.shown]
              by_cases hlow : (p.term operand).precedence < .unary
              · have hgroup : DerivesShown .primary _ _ :=
                  .plain (.group (ho.derives (Nat.zero_le _) (by decide)))
                simp only [tokens_shown_group p hlow, hlow, if_true]
                exact (hgroup.cast (by decide) _).mono (Nat.le_of_lt (Nat.lt_trans hlow (by decide)))
              · simp only [tokens_shown p hlow, hlow, if_false]
                exact ho.cast (Nat.le_of_not_lt hlow) _
      | initList elements =>
          have hlt : ∀ x ∈ elements, .comma < p.precedence x := by
            simpa [hk, Groups] using hgroups
          have hes := derives_shown_items (l := elements)
            (fun x hx => ih x (hparts x (by simpa [hk, ExprKind.parts] using hx))) hlt
          rw [tokens_initList, Term.shown, shownReadings_eq_map]
          refine .plain (show Derives .primary _ _ from ?_)
          simpa [Function.comp_def, shownTokens, shown] using Derives.list _ hes
      | call callee args =>
          have hc := ih callee (hparts callee (by simp [hk, ExprKind.parts]))
          obtain ⟨hle, hlt⟩ : .suffixed ≤ p.precedence callee ∧
            ∀ x ∈ args, .comma < p.precedence x := by simpa [hk, Groups] using hgroups
          have has := derives_shown_items (l := args)
            (fun x hx => ih x (hparts x (by simp [hk, ExprKind.parts, hx]))) hlt
          rw [tokens_call, Term.shown, shownReadings_eq_map, Term.precedence, List.append_assoc]
          refine (hc.mono hle).behind (f := fun core => .call core _) fun us r hr => ?_
          simpa [Function.comp_def, shownTokens, shown] using Derives.call hr _ has

/-- **What the text with implicit casts is read as.** The text of an expression in which implicit
casts are shown has exactly one reading: suffix operators and calls behind an implicit cast go inside
it, and all else is as in the expression. So it is read as the expression without parentheses, each
implicit cast a cast of its own operand, if and only if no suffix operator and no call stands behind
an implicit cast. -/
theorem Constructed.shown_reads_back {p : Program} (h : p.Constructed) (e : ExprId) :
    Laid (p.shownTokens e) (p.exprText true false e) ∧
      (∀ r, Derives .comma (p.shownTokens e) r ↔ r = (p.shown e).reading) ∧
      ((p.shown e).reading = (p.term e).fullReading p ↔ (p.term e).castsApart) := by
  have hd : Derives .comma (p.shownTokens e) (p.shown e).reading :=
    (h.wellGrouped.derives_shown e).derives (Nat.zero_le _) (by decide)
  refine ⟨laid_textOf _, fun r => ⟨fun hr => hr.unique hd, ?_⟩, reading_shown_eq_iff p _⟩
  rintro rfl
  exact hd

/-- A call of a function whose name has turned into a pointer is read as a cast of the call. -/
theorem Constructed.shown_reads_back_decayed :
    ∃ p : Program, p.Constructed ∧ p.exprText true false 3 = "(int (*)(int))f(1)" ∧
      (∀ r, Derives .comma (p.shownTokens 3) r ↔
        r = .cast "int (*)(int)" (.call (.name "f") [.literal "1"])) ∧
      (p.term 3).fullReading p = .call (.cast "int (*)(int)" (.name "f")) [.literal "1"] ∧
      (p.shown 3).reading ≠ (p.term 3).fullReading p := by
  have h₀ := Constructed.empty ⟨"x86_64-unknown-linux-gnu", false, 16, 32, 64, 64, 64⟩
  have h₁ := h₀.step (.builtin .int) (by decide +kernel)
  have h₂ := h₁.step (.functionType (.plain 0) [.plain 0] false) (by decide +kernel)
  have h₃ := h₂.step (.pointerTo (.plain 1)) (by decide +kernel)
  have h₄ := h₃.step (.functionDecl .file "f" (.plain 1)) (by decide +kernel)
  have h₅ := h₄.step (.declRef 0) (by decide +kernel)
  have h₆ := h₅.step (.cast .implicit .functionToPointerDecay (.plain 2) 0 .rvalue) (by decide +kernel)
  have h₇ := h₆.step (.integer 1 (.plain 0)) (by decide +kernel)
  have h₈ := h₇.step (.call 1 [2]) (by decide +kernel)
  obtain ⟨-, hreads, hsame⟩ := h₈.shown_reads_back 3
  refine ⟨_, h₈, by decide +kernel, fun r => ?_, ?_, fun hfull => ?_⟩
  · rw [hreads r]
    refine Iff.of_eq (congrArg (r = ·) ?_)
    with_unfolding_all rfl
  · with_unfolding_all rfl
  · exact absurd (hsame.mp hfull) (by decide +kernel)

end Program

end Readback
