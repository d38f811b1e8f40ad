import Readback.Proofs.Layout.Colour

/-! # Expressions with and without colours

Whether a prefix operator would run into the character after it is decided on the text as it is painted.
A term that begins with a literal begins with an escape character then, so a minus in front of a
negative literal is kept apart from it only without colours. Nothing else about the text of a term
depends on colours.

* `Begins` is about the first character of a text, with colours on and off, where the text begins with a
  literal of the given sign or with none. The first characters of a term are the same with and without
  colours unless the term begins with a literal (`heads_pieces`), and `leadingSign?` tells from the term
  whether it does and which sign that has.
* `UnaryOp.endsInMinus` names the prefix operators that are concerned: negation and decrement. A blank
  that is put without colours is left out with colours exactly where two signs meet (`runsInto_of_sign`,
  `Fades.prefixed`).
* `Term.signsApart` says that no minus stands directly before a negative literal anywhere in a term.

The result is `Term.fades_pieces`: without its codes, the text of a term with colours is the text
without colours, but for the blanks between two signs, and it is the same text exactly if
`Term.signsApart` holds. `Term.fades_commaSeparated` is the same for lists of terms, by the same
induction. -/

namespace Readback

/-! ### Signs in front of literals -/

/-- Whether the operator is written with a minus at its end. -/
def UnaryOp.endsInMinus (op : UnaryOp) : Bool := op = .minus || op = .preDec || op = .postDec

namespace Term

/-- Whether the literal with which the text of a term begins, if it begins with one, is negative. -/
def leadingSign? (showCasts : Bool) : Term → Option Bool
  | .integer value _ => some (value < 0)
  | .floating value _ => some (value.isNegative && !value.isNaN)
  | .text _ => some false
  | .unary op operand => if op.isSuffix then leadingSign? showCasts operand else none
  | .binary _ lhs _ => leadingSign? showCasts lhs
  | .cast style _ operand =>
    match style with
    | .explicit => none
    | .implicit => if showCasts then none else leadingSign? showCasts operand
  | .call callee _ => leadingSign? showCasts callee
  | _ => none

mutual

/-- Whether no minus stands directly before a negative literal. -/
def signsApart (showCasts : Bool) : Term → Bool
  | .paren inner => signsApart showCasts inner
  | .unary op operand =>
    !(!op.isSuffix && op.endsInMinus && operand.leadingSign? showCasts == some true)
      && signsApart showCasts operand
  | .binary _ lhs rhs => signsApart showCasts lhs && signsApart showCasts rhs
  | .cast _ _ operand => signsApart showCasts operand
  | .initList elements => signsApartAll showCasts elements
  | .call callee args => signsApart showCasts callee && signsApartAll showCasts args
  | _ => true

/-- Whether no minus in the terms stands directly before a negative literal. -/
def signsApartAll (showCasts : Bool) : List Term → Bool
  | [] => true
  | t :: rest => signsApart showCasts t && signsApartAll showCasts rest

end

end Term

/-! ### First characters -/

/-- The first character of a text, with colours on and off, where the text begins with a literal of
the given sign or with none. A colour hides what the literal begins with. -/
def Begins (first : Bool → Option Char) : Option Bool → Prop
  | some negative => first true = some '\x1b' ∧
      ∃ c, first false = some c ∧ c ≠ '+' ∧ (c = '-' ↔ negative = true)
  | none => first true = first false

namespace Begins

/-- What follows is the same with and without colours. -/
theorem or {f g : Bool → Option Char} {sign : Option Bool} (h : Begins f sign)
    (hg : Begins g none) : Begins (fun b => (f b).or (g b)) sign := by
  cases sign with
  | none =>
      have hf : f true = f false := h
      have hg : g true = g false := hg
      show (f true).or (g true) = (f false).or (g false)
      rw [hf, hg]
  | some negative =>
      obtain ⟨htrue, c, hfalse, hc⟩ := h
      exact ⟨by simp [htrue], c, by simp [hfalse], hc⟩

theorem of_cons {piece : Piece} {c : Char} (h : ∀ b, (piece.text b).toList.head? = some c)
    (rest : Bool → List Piece) : Begins (fun b => Piece.firstChar? b (piece :: rest b)) none :=
  (Piece.firstChar?_cons (h true) _).trans (Piece.firstChar?_cons (h false) _).symm

theorem of_symbol {s : String} (h : s ≠ "") (rest : Bool → List Piece) :
    Begins (fun b => Piece.firstChar? b (.symbol s :: rest b)) none := by
  cases hs : s.toList with
  | nil => exact absurd (String.toList_eq_nil_iff.mp hs) h
  | cons c _ => exact of_cons (c := c) (fun _ => by simp [Piece.text, hs]) rest

theorem of_blank (rest : Bool → List Piece) :
    Begins (fun b => Piece.firstChar? b (.blank :: rest b)) none :=
  of_cons (c := ' ') (fun _ => by simp [Piece.text]) rest

theorem of_castTo (type : String) (rest : Bool → List Piece) :
    Begins (fun b => Piece.firstChar? b (.castTo type :: rest b)) none :=
  of_cons (c := '(') (by simp [Piece.text]) rest

theorem of_head {s : String} {c : Char} {negative : Bool} (hc : s.toList.head? = some c)
    (hplus : c ≠ '+') (hminus : c = '-' ↔ negative = true) :
    Begins (fun b => Piece.firstChar? b [.literal s]) (some negative) := by
  refine ⟨?_, c, ?_, hplus, hminus⟩
  · simp [Piece.firstChar?, Piece.text, Readback.literal, painted]
  · simp [Piece.firstChar?, Piece.text, Readback.literal, hc]

theorem of_minus (s : String) : Begins (fun b => Piece.firstChar? b [.literal ("-" ++ s)]) (some true) :=
  .of_head (c := '-') (by simp) (by decide) (by simp)

theorem of_constant {s : String} (h : Constant s.toList) :
    Begins (fun b => Piece.firstChar? b [.literal s]) (some false) := by
  obtain ⟨c, rest, hs, hc⟩ := h.eq_cons
  refine .of_head (c := c) (by simp [hs]) ?_ (iff_of_false ?_ (by simp)) <;> rintro rfl <;>
    simp at hc

theorem integer (value : Int) (kind : Option Builtin) :
    Begins (fun b => Piece.firstChar? b [.literal (toString value ++ integerSuffix kind)])
      (some (value < 0)) := by
  have hs := integerSuffix_mem kind
  by_cases h : value < 0
  · rw [toString_of_neg h, String.append_assoc, decide_eq_true h]
    exact of_minus _
  · rw [decide_eq_false h]
    exact of_constant (constant_integer (by omega) hs)

theorem floating (value : Binary64) (kind : Option Builtin) :
    Begins (fun b => Piece.firstChar? b [.literal (floatingText value ++ floatingSuffix kind)])
      (some (value.isNegative && !value.isNaN)) := by
  by_cases h : value.isNegative = true ∧ value.isNaN = false
  · rw [floatingText_of_negative h.1 h.2, String.append_assoc, h.1, h.2]
    exact of_minus _
  · have hsign : (value.isNegative && !value.isNaN) = false := by simpa using h
    rw [hsign]
    cases hn : value.isNaN with
    | true => exact .of_head (c := '_') (by simp [floatingText, hn]) (by decide) (by decide)
    | false =>
        have hneg : value.isNegative = false := by simpa [hn] using hsign
        cases hf : value.isFinite with
        | true =>
            have htext : floatingText value = value.magnitudeText .up := by
              simp [floatingText, Binary64.text, hn, hf, hneg]
            rw [htext]
            exact of_constant (value.constant_magnitude .up (floatingSuffix_mem kind))
        | false =>
            exact .of_head (c := '_') (by simp [floatingText, hn, hf, hneg]) (by decide) (by decide)

end Begins

namespace Term

/-- With and without colours a term begins with the same character, unless it begins with a literal. -/
theorem heads_pieces (p : Program) (showCasts : Bool) : ∀ t : Term,
    Begins (fun b => Piece.firstChar? b (t.pieces p showCasts b)) (t.leadingSign? showCasts)
  | .integer value kind => .integer value kind
  | .floating value kind => .floating value kind
  | .text value => .of_head (c := '"') (by simp [literalQuote]) (by decide) (by decide)
  | .ref decl => by
    show Piece.firstChar? true [.ident (p.decl decl).name] = Piece.firstChar? false [.ident _]
    rw [Piece.firstChar?_eq_head?, Piece.firstChar?_eq_head?]
    simp [Piece.text]
  | .paren inner => by
    simp only [pieces, leadingSign?, List.cons_append]
    exact .of_symbol (by decide) _
  | .unary op operand => by
    have hrest := heads_pieces p showCasts operand
    have hspelling : op.spelling ≠ "" := by cases op <;> decide
    cases hs : op.isSuffix with
    | true =>
        simp only [pieces, leadingSign?, hs, if_true, Piece.firstChar?_append]
        exact hrest.or (.of_symbol hspelling _)
    | false =>
        simp only [pieces, leadingSign?, hs, Bool.false_eq_true, if_false, ← apply_ite]
        exact .of_symbol hspelling _
  | .binary op lhs rhs => by
    have hrest : Begins (fun b => Piece.firstChar? b (pieces p showCasts b lhs)) _ :=
      heads_pieces p showCasts lhs
    simp only [pieces, leadingSign?]
    split
    · simp only [Piece.firstChar?_append]
      exact hrest.or (.of_symbol (by decide) _)
    · simp only [Piece.firstChar?_append]
      exact hrest.or (.of_blank _)
  | .cast style type operand => by
    have hrest := heads_pieces p showCasts operand
    cases style with
    | explicit =>
        simp only [pieces, leadingSign?]
        exact .of_castTo _ _
    | implicit =>
        cases showCasts with
        | false => simpa [pieces, leadingSign?] using hrest
        | true =>
            simp only [pieces, leadingSign?, Bool.not_true, Bool.false_eq_true, if_false, if_true]
            split <;> exact .of_castTo _ _
  | .initList elements => by
    simp only [pieces, leadingSign?, List.cons_append]
    exact .of_symbol (by decide) _
  | .call callee args => by
    simp only [pieces, leadingSign?, Piece.firstChar?_append, List.append_assoc, List.cons_append]
    exact (heads_pieces p showCasts callee).or (.of_symbol (by decide) _)

end Term

/-! ### Texts of terms -/

namespace EscapeFree

theorem unaryOp (op : UnaryOp) : EscapeFree op.spelling := by
  cases op <;> decide

/-- What stands between the operands of a binary operator. -/
theorem between (op : BinaryOp) :
    EscapeFree (if op = .comma then ", " else " " ++ op.spelling ++ " ") := by
  cases op <;> decide

end EscapeFree

theorem comma_append (s : String) : "," ++ (" " ++ s) = ", " ++ s := by
  rw [← String.append_assoc]
  rfl

/-- Without colours a prefix operator is kept apart from a literal exactly where two signs meet. -/
theorem runsInto_of_sign {op : UnaryOp} {c : Char} {negative : Bool} (hplus : c ≠ '+')
    (hminus : c = '-' ↔ negative = true) :
    runsInto op.spelling (some c) = (op.endsInMinus && negative) := by
  by_cases hc : c = '-'
  · rw [hminus.mp hc, hc]
    cases op <;> rfl
  · have hneg : negative = false := by simpa [hc] using hminus
    rw [hneg]
    cases op <;> simp [runsInto, UnaryOp.spelling, Ne.symm hc, hplus.symm]

/-- The blank after a prefix operator, with colours and without them. -/
theorem Fades.prefixed {op : UnaryOp} {first : Bool → Option Char} {sign : Option Bool}
    (hfirst : Begins first sign) {a b : String} {E : Prop} (h : Fades a b E) :
    Fades (op.spelling ++ if runsInto op.spelling (first true) then " " ++ a else a)
      (op.spelling ++ if runsInto op.spelling (first false) then " " ++ b else b)
      ((op.endsInMinus && sign == some true) = false ∧ E) := by
  refine .after (EscapeFree.unaryOp op) ?_
  cases sign with
  | none =>
      have hsame : first true = first false := hfirst
      rw [hsame]
      refine congr ?_ (by simp : E ↔ _)
      split
      · exact h.after (by decide)
      · exact h
  | some negative =>
      obtain ⟨htrue, c, hfalse, hplus, hminus⟩ := hfirst
      have hpainted : runsInto op.spelling (first true) = false := by
        rw [htrue]
        cases op <;> rfl
      rw [hpainted, hfalse, runsInto_of_sign hplus hminus, if_neg (by decide)]
      cases hm : op.endsInMinus && negative with
      | true => exact h.gap.congr (by simp_all)
      | false => exact h.congr (by simp_all)

namespace Term

open Piece (textOf textOf_cons textOf_append firstChar?)

variable {p : Program}

mutual

/-- The text of a term with colours and without them. -/
theorem fades_pieces (h : p.EscapeFreeNames) (showCasts : Bool) : ∀ t : Term,
    Fades (textOf true (t.pieces p showCasts true)) (textOf false (t.pieces p showCasts false))
      (t.signsApart showCasts)
  | .integer value kind => by
    simpa [pieces, Piece.text, signsApart] using
      Fades.literal (.integer value (integerSuffix_mem kind))
  | .floating value kind => by
    simpa [pieces, Piece.text, signsApart] using
      Fades.literal (.floating value (floatingSuffix_mem kind))
  | .text value => by
    simpa [pieces, Piece.text, signsApart] using Fades.literal (.literalQuote value)
  | .ref decl => by
    simpa [pieces, Piece.text, signsApart] using Fades.of_escapeFree (h.name decl)
  | .paren inner => by
    have htext : ∀ b, textOf b (pieces p showCasts b (.paren inner)) =
        "(" ++ (textOf b (pieces p showCasts b inner) ++ ")") := by
      simp [pieces, Piece.text]
    rw [htext, htext, signsApart]
    exact .after (by decide) (.before (fades_pieces h showCasts inner) (by decide))
  | .unary op operand => by
    have ho := fades_pieces h showCasts operand
    cases hs : op.isSuffix with
    | true =>
        have htext : ∀ b, textOf b (pieces p showCasts b (.unary op operand)) =
            textOf b (pieces p showCasts b operand) ++ op.spelling := by
          simp [pieces, Piece.text, hs]
        rw [htext, htext]
        exact (ho.before (EscapeFree.unaryOp op)).congr (by simp [signsApart, hs])
    | false =>
        have htext : ∀ b, textOf b (pieces p showCasts b (.unary op operand)) =
            op.spelling ++ if runsInto op.spelling (firstChar? b (pieces p showCasts b operand)) then
              " " ++ textOf b (pieces p showCasts b operand)
            else textOf b (pieces p showCasts b operand) := by
          intro b
          simp only [pieces, hs, Bool.false_eq_true, if_false]
          split <;> simp [Piece.text]
        rw [htext, htext, signsApart, hs, Bool.not_false, Bool.true_and, Bool.and_eq_true,
          Bool.not_eq_true']
        exact .prefixed (heads_pieces p showCasts operand) ho
  | .binary op lhs rhs => by
    have hl := fades_pieces h showCasts lhs
    have hr := fades_pieces h showCasts rhs
    have htext : ∀ b, textOf b (pieces p showCasts b (.binary op lhs rhs)) =
        textOf b (pieces p showCasts b lhs) ++
          ((if op = .comma then ", " else " " ++ op.spelling ++ " ") ++
            textOf b (pieces p showCasts b rhs)) := by
      intro b
      simp only [pieces]
      split <;> simp [Piece.text, String.append_assoc, comma_append]
    rw [htext, htext, signsApart, Bool.and_eq_true]
    exact hl.append (hr.after (EscapeFree.between op))
  | .cast style type operand => by
    have ho := fades_pieces h showCasts operand
    have htype : EscapeFree ("(" ++ p.typeText type ++ ")") :=
      ((show EscapeFree "(" by decide).append (h.typeText type)).append (by decide)
    have hshown : Fades ("(" ++ p.typeText type ++ ")" ++ textOf true (pieces p showCasts true operand))
        ("(" ++ p.typeText type ++ ")" ++ textOf false (pieces p showCasts false operand))
        (signsApart showCasts operand) := ho.after htype
    rw [signsApart]
    cases style with
    | explicit => simpa [pieces, Piece.text] using hshown
    | implicit =>
        cases showCasts with
        | false => simpa [pieces] using ho
        | true =>
            by_cases hp : operand.precedence < .unary
            · have hgroup : Fades ("(" ++ textOf true (pieces p true true operand) ++ ")")
                  ("(" ++ textOf false (pieces p true false operand) ++ ")")
                  (signsApart true operand) := (ho.after (by decide)).before (by decide)
              simpa [pieces, hp, Piece.text, String.append_assoc] using hgroup.after htype
            · simpa [pieces, hp, Piece.text] using hshown
  | .initList elements => by
    have htext : ∀ b, textOf b (pieces p showCasts b (.initList elements)) =
        "\x7b" ++ (textOf b (commaSeparated (piecesOf p showCasts b elements)) ++ "\x7d") := by
      simp [pieces, Piece.text]
    rw [htext, htext, signsApart]
    exact .after (by decide) (.before (fades_commaSeparated h showCasts elements) (by decide))
  | .call callee args => by
    have htext : ∀ b, textOf b (pieces p showCasts b (.call callee args)) =
        textOf b (pieces p showCasts b callee) ++
          ("(" ++ (textOf b (commaSeparated (piecesOf p showCasts b args)) ++ ")")) := by
      simp [pieces, Piece.text]
    rw [htext, htext, signsApart, Bool.and_eq_true]
    exact (fades_pieces h showCasts callee).append
      (.after (by decide) (.before (fades_commaSeparated h showCasts args) (by decide)))

/-- The text of a list of terms with colours and without them. -/
theorem fades_commaSeparated (h : p.EscapeFreeNames) (showCasts : Bool) : ∀ ts : List Term,
    Fades (textOf true (commaSeparated (piecesOf p showCasts true ts)))
      (textOf false (commaSeparated (piecesOf p showCasts false ts))) (signsApartAll showCasts ts)
  | [] => by
    simpa [piecesOf, commaSeparated, signsApartAll] using Fades.of_escapeFree (s := "") (by decide)
  | [t] => by
    simpa [piecesOf, commaSeparated, signsApartAll] using fades_pieces h showCasts t
  | t :: u :: ts => by
    have htext : ∀ b, textOf b (commaSeparated (piecesOf p showCasts b (t :: u :: ts))) =
        textOf b (pieces p showCasts b t) ++
          (", " ++ textOf b (commaSeparated (piecesOf p showCasts b (u :: ts)))) := by
      simp [piecesOf, commaSeparated, Piece.text, comma_append]
    rw [htext, htext, signsApartAll, Bool.and_eq_true]
    exact (fades_pieces h showCasts t).append (.after (by decide) (fades_commaSeparated h showCasts (u :: ts)))

end

end Term

end Readback
