import Readback.Proofs.Reading.Literal
import Readback.Proofs.Typing.Grouping

/-! # Expressions are read as what they are

The text of an expression is a sequence of tokens with blanks between some of them. Without implicit
casts, the tokens of an expression of a constructed program have exactly one reading in the grammar of
C: the expression without its parentheses and implicit casts.

* `Laid ts s` says that the text `s` is the tokens `ts` in order, with blanks between, before or after.
  Without colours, the text that is put together from pieces is the tokens of the pieces
  (`laid_textOf`).
* `Term.tokens` are the tokens of a term, and `Term.reading` is what it stands for. Parentheses and
  implicit casts are gone from it, and a negative number is the negation of its absolute value, because
  C has no negative constants.
* The grammar derives each term at the level at which it binds (`WellGrouped.derives`). The induction is
  on the term; what makes it work is that construction has put parentheses around operands that would
  bind too loosely, so every operand is derived at the level that its place demands. Lists of arguments
  and elements are derived item by item (`derives_items`), since each item binds tighter than a comma.
* Literals are derived as they are written, with or without a sign (`derives_integer`,
  `derives_floating`, `derives_text`).

That the grammar reads tokens in one way at most is a fact about the grammar alone. Together the two
give the main result, `Program.Constructed.reads_back`. In `Program.Constructed.reads_back_difference`
two signs in a row stay apart, and a difference on the right keeps its parentheses. -/

namespace Readback

/-! ### Tokens -/

/-- How a token is spelled. -/
def Token.spelling : Token → String
  | .name text => text
  | .literal text => text
  | .symbol text => text
  | .castTo type => "(" ++ type ++ ")"

/-- The tokens of a piece. -/
def Piece.tokens : Piece → List Token
  | .literal text => Token.ofLiteral text
  | .ident text => [.name text]
  | .symbol text => [.symbol text]
  | .castTo type => [.castTo type]
  | .blank => []

/-- `Laid ts s`: the text `s` is the tokens `ts` in order, with blanks between, before or after. -/
inductive Laid : List Token → String → Prop where
  | nil : Laid [] ""
  | token (t : Token) {ts s} (rest : Laid ts s) : Laid (t :: ts) (t.spelling ++ s)
  | blank {ts s} (rest : Laid ts s) : Laid ts (" " ++ s)

theorem Laid.ofLiteral (text : String) {ts : List Token} {s : String} (h : Laid ts s) :
    Laid (Token.ofLiteral text ++ ts) (text ++ s) := by
  unfold Token.ofLiteral
  split
  · next rest ht =>
      have hs : text ++ s = "-" ++ (String.ofList rest ++ s) := by
        rw [← String.toList_inj]
        simp [ht]
      rw [hs]
      exact .token (.symbol "-") (.token (.literal _) h)
  · exact .token (.literal text) h

/-- Without colours, the text of pieces is their tokens with blanks between. -/
theorem laid_textOf (pieces : List Piece) :
    Laid (pieces.flatMap Piece.tokens) (Piece.textOf false pieces) := by
  induction pieces with
  | nil => exact .nil
  | cons piece rest ih =>
      rw [List.flatMap_cons, Piece.textOf_cons]
      cases piece with
      | literal text => exact ih.ofLiteral text
      | ident text => exact .token (.name text) ih
      | symbol text => exact .token (.symbol text) ih
      | castTo type => exact .token (.castTo type) ih
      | blank => exact .blank ih

/-! ### Terms -/

namespace Term

variable (p : Program)

/-- The tokens of a term without its implicit casts. -/
def tokens (t : Term) : List Token := (t.pieces p false false).flatMap Piece.tokens

mutual

/-- What a term stands for: itself without parentheses and implicit casts. A negative number is the
negation of its absolute value. -/
def reading : Term → Reading
  | .integer value kind =>
    if value < 0 then .unary .minus (.literal (toString (-value) ++ integerSuffix kind))
    else .literal (toString value ++ integerSuffix kind)
  | .floating value kind =>
    if value.isNegative && !value.isNaN then
      .unary .minus (.literal (floatingText value.abs ++ floatingSuffix kind))
    else .literal (floatingText value ++ floatingSuffix kind)
  | .text value => .literal (literalQuote value)
  | .ref decl => .name (p.decl decl).name
  | .paren inner => reading inner
  | .unary op operand => .unary op (reading operand)
  | .binary op lhs rhs => .binary op (reading lhs) (reading rhs)
  | .cast style type operand =>
    match style with
    | .explicit => .cast (p.typeText type) (reading operand)
    | .implicit => reading operand
  | .initList elements => .list (readings elements)
  | .call callee args => .call (reading callee) (readings args)

/-- What several terms stand for. -/
def readings : List Term → List Reading
  | [] => []
  | t :: rest => reading t :: readings rest

end

theorem readings_eq_map (ts : List Term) : readings p ts = ts.map (reading p) := by
  induction ts with
  | nil => rfl
  | cons t ts ih => rw [readings, ih, List.map_cons]

section Tokens

variable (showCasts : Bool)

/-- The tokens of a term, with its implicit casts or without them. -/
def tokensWith (t : Term) : List Token := (t.pieces p showCasts false).flatMap Piece.tokens

/-- The tokens of several terms, separated by commas. -/
theorem flatMap_commaSeparated (ts : List Term) :
    (commaSeparated (piecesOf p showCasts false ts)).flatMap Piece.tokens =
      separated (ts.map (tokensWith p showCasts)) := by
  induction ts with
  | nil => rfl
  | cons t ts ih =>
      cases ts with
      | nil => rfl
      | cons u ts =>
          simp only [piecesOf, List.map_cons] at ih ⊢
          simp [commaSeparated, separated, Piece.tokens, ih, tokensWith]

theorem tokens_paren (inner : Term) : tokensWith p showCasts (.paren inner) =
    .symbol "(" :: tokensWith p showCasts inner ++ [.symbol ")"] := by
  simp [tokensWith, pieces, Piece.tokens]

theorem tokens_suffixed {op : UnaryOp} (h : op.isSuffix = true) (operand : Term) :
    tokensWith p showCasts (.unary op operand) =
      tokensWith p showCasts operand ++ [.symbol op.spelling] := by
  simp [tokensWith, pieces, Piece.tokens, h]

theorem tokens_prefixed {op : UnaryOp} (h : op.isSuffix = false) (operand : Term) :
    tokensWith p showCasts (.unary op operand) =
      .symbol op.spelling :: tokensWith p showCasts operand := by
  simp only [tokensWith, pieces, h]
  split
  · next h' => cases h'
  · split <;> simp [Piece.tokens]

theorem tokens_binary (op : BinaryOp) (lhs rhs : Term) :
    tokensWith p showCasts (.binary op lhs rhs) =
      tokensWith p showCasts lhs ++ .symbol op.spelling :: tokensWith p showCasts rhs := by
  simp only [tokensWith, pieces]
  split
  · next h => simp [Piece.tokens, h, BinaryOp.spelling]
  · simp [Piece.tokens]

theorem tokens_explicit (type : QualType) (operand : Term) :
    tokensWith p showCasts (.cast .explicit type operand) =
      .castTo (p.typeText type) :: tokensWith p showCasts operand := by
  simp [tokensWith, pieces, Piece.tokens]

theorem tokens_hidden (type : QualType) (operand : Term) :
    tokensWith p false (.cast .implicit type operand) = tokensWith p false operand := by
  simp [tokensWith, pieces]

theorem tokens_initList (elements : List Term) : tokensWith p showCasts (.initList elements) =
    .symbol "\x7b" :: separated (elements.map (tokensWith p showCasts)) ++ [.symbol "\x7d"] := by
  rw [← flatMap_commaSeparated]
  simp [tokensWith, pieces, Piece.tokens]

theorem tokens_call (callee : Term) (args : List Term) :
    tokensWith p showCasts (.call callee args) = tokensWith p showCasts callee ++
      .symbol "(" :: separated (args.map (tokensWith p showCasts)) ++ [.symbol ")"] := by
  rw [← flatMap_commaSeparated]
  simp [tokensWith, pieces, Piece.tokens]

end Tokens

/-! ### Literals -/

theorem derives_unsigned {text : String} (h : Unsigned text) :
    Derives .primary (Token.ofLiteral text) (.literal text) := by
  rw [Token.ofLiteral_unsigned h]
  exact .literal text

theorem derives_minus (text : String) :
    Derives .unary (Token.ofLiteral ("-" ++ text)) (.unary .minus (.literal text)) := by
  rw [Token.ofLiteral_minus]
  exact .prefixed .minus rfl (.looser (by decide) (.literal text))

theorem derives_integer (value : Int) (kind : Option Builtin) :
    Derives (precedence (.integer value kind)) (tokens p (.integer value kind))
      (reading p (.integer value kind)) := by
  have ht : tokens p (.integer value kind) =
      Token.ofLiteral (toString value ++ integerSuffix kind) := by
    simp [tokens, pieces, Piece.tokens]
  rw [ht, precedence, reading]
  by_cases h : value < 0
  · rw [if_pos h, if_pos h, toString_of_neg h, String.append_assoc]
    exact derives_minus _
  · rw [if_neg h, if_neg h]
    exact derives_unsigned (unsigned_integer (Int.not_lt.mp h) _)

theorem derives_floating (value : Binary64) (kind : Option Builtin) :
    Derives (precedence (.floating value kind)) (tokens p (.floating value kind))
      (reading p (.floating value kind)) := by
  have ht : tokens p (.floating value kind) =
      Token.ofLiteral (floatingText value ++ floatingSuffix kind) := by
    simp [tokens, pieces, Piece.tokens]
  have hle : (precedence (.floating value kind)) ≤ .primary := by
    rw [precedence]
    split <;> decide
  rw [ht, reading]
  by_cases h : value.isNegative = true ∧ value.isNaN = false
  · rw [if_pos (by simp [h]), floatingText_of_negative h.1 h.2, String.append_assoc, precedence,
      if_pos h.1]
    exact derives_minus _
  · have hu : Unsigned (floatingText value) := by
      refine unsigned_floatingText ?_
      cases hn : value.isNegative <;> simp_all
    rw [if_neg (by simpa using h)]
    exact .looser hle (derives_unsigned (hu.append _))

theorem derives_text (value : String) :
    Derives .primary (tokens p (.text value)) (reading p (.text value)) := by
  have ht : tokens p (.text value) = Token.ofLiteral (literalQuote value) := by
    simp [tokens, pieces, Piece.tokens]
  rw [ht, reading]
  exact derives_unsigned ⟨'"', by simp [literalQuote], by decide⟩

end Term

/-! ### Expressions of a program -/

namespace Program

open Term

/-- The tokens of the text of an expression without its implicit casts. -/
def tokens (p : Program) (e : ExprId) : List Token := (p.term e).tokens p

/-- The expression without parentheses and implicit casts. -/
def reading (p : Program) (e : ExprId) : Reading := (p.term e).reading p

/-- The items of a list of expressions that bind tighter than a comma. -/
theorem derives_items {p : Program} {l : List Nat}
    (derives : ∀ e ∈ l, Derives (p.precedence e) (p.tokens e) (p.reading e))
    (fits : ∀ e ∈ l, .comma < p.precedence e) :
    ∀ x ∈ l.map (fun e => (p.tokens e, p.reading e)), Derives .assignment x.1 x.2 := by
  intro x hx
  obtain ⟨e, he, rfl⟩ := List.mem_map.mp hx
  exact .looser (fits e he) (derives e he)

/-- The grammar derives every expression of a well grouped program at the level at which it binds. -/
theorem WellGrouped.derives {p : Program} (h : p.WellGrouped) (e : Nat) :
    Derives (p.precedence e) (p.tokens e) (p.reading e) := by
  induction e using Nat.strongRecOn with
  | ind e ih =>
      have hparts := h.ordered e
      have hgroups := h.groups e
      rw [← h.ordered.precedence_term e, tokens, reading, h.ordered.term_eq e, termLevel]
      change Derives _ (tokensWith p false _) _
      cases hk : (p.expr e).kind with
      | integer value => exact derives_integer p value _
      | floating value => exact derives_floating p value _
      | text value => exact derives_text p value
      | ref d => exact .name _
      | paren inner =>
          have hi := ih inner (hparts inner (by simp [hk, ExprKind.parts]))
          rw [tokens_paren, Term.reading]
          exact .group (.looser (Nat.zero_le _) hi)
      | unary op operand =>
          have ho := ih operand (hparts operand (by simp [hk, ExprKind.parts]))
          have hle : op.precedence ≤ p.precedence operand := by simpa [hk, Groups] using hgroups
          rw [Term.precedence, Term.reading]
          cases hs : op.isSuffix with
          | true =>
              have hp : op.precedence = .suffixed := by simp [UnaryOp.precedence, hs]
              rw [tokens_suffixed p false hs, hp]
              exact .suffixed op hs (.looser (hp ▸ hle) ho)
          | false =>
              have hp : op.precedence = .unary := by simp [UnaryOp.precedence, hs]
              rw [tokens_prefixed p false hs, hp]
              exact .prefixed op hs (.looser (hp ▸ hle) ho)
      | binary op lhs rhs =>
          have hl := ih lhs (hparts lhs (by simp [hk, ExprKind.parts]))
          have hr := ih rhs (hparts rhs (by simp [hk, ExprKind.parts]))
          rw [hk, Groups] at hgroups
          rw [tokens_binary, Term.reading]
          cases ha : op.isAssignment with
          | true =>
              obtain ⟨hlt, hle⟩ : op.precedence < p.precedence lhs ∧
                op.precedence ≤ p.precedence rhs := by simpa [ha] using hgroups
              exact .rightward op ha hlt hl (.looser hle hr)
          | false =>
              obtain ⟨hle, hlt⟩ : op.precedence ≤ p.precedence lhs ∧
                op.precedence < p.precedence rhs := by simpa [ha] using hgroups
              exact .leftward op ha (.looser hle hl) hlt hr
      | cast style c operand =>
          have ho := ih operand (hparts operand (by simp [hk, ExprKind.parts]))
          cases style with
          | implicit =>
              rw [tokens_hidden, Term.reading, Term.precedence, h.ordered.precedence_term]
              exact ho
          | explicit =>
              have hle : .unary ≤ p.precedence operand := by simpa [hk, Groups] using hgroups
              rw [tokens_explicit, Term.reading]
              exact .cast _ (.looser hle ho)
      | initList elements =>
          have hlt : ∀ x ∈ elements, .comma < p.precedence x := by
            simpa [hk, Groups] using hgroups
          have hes := derives_items (l := elements)
            (fun x hx => ih x (hparts x (by simpa [hk, ExprKind.parts] using hx))) hlt
          change Derives .primary (tokensWith p false (.initList _)) _
          rw [tokens_initList, Term.reading, readings_eq_map]
          simpa [Function.comp_def, tokens, Term.tokens, tokensWith, reading] using
            Derives.list _ hes
      | call callee args =>
          have hc := ih callee (hparts callee (by simp [hk, ExprKind.parts]))
          obtain ⟨hle, hlt⟩ : .suffixed ≤ p.precedence callee ∧
            ∀ x ∈ args, .comma < p.precedence x := by simpa [hk, Groups] using hgroups
          have has := derives_items (l := args)
            (fun x hx => ih x (hparts x (by simp [hk, ExprKind.parts, hx]))) hlt
          rw [tokens_call, Term.reading, readings_eq_map, Term.precedence]
          simpa [Function.comp_def, tokens, Term.tokens, tokensWith, reading] using
            Derives.call (.looser hle hc) _ has

/-- **Expressions are read as what they are.** The text of an expression without implicit casts and
colours is a sequence of tokens, and its only reading is the expression itself without parentheses
and implicit casts. -/
theorem Constructed.reads_back {p : Program} (h : p.Constructed) (e : ExprId) :
    Laid (p.tokens e) (p.exprText false false e) ∧
      ∀ r, Derives .comma (p.tokens e) r ↔ r = p.reading e := by
  refine ⟨laid_textOf _, fun r => ⟨fun hr => ?_, ?_⟩⟩
  · exact hr.unique (.looser (Nat.zero_le _) (h.wellGrouped.derives e))
  · rintro rfl
    exact .looser (Nat.zero_le _) (h.wellGrouped.derives e)

/-- Two signs in a row stay apart, and a difference on the right keeps its parentheses. -/
theorem Constructed.reads_back_difference :
    ∃ p : Program, p.Constructed ∧ p.exprText false false 5 = "- -3 - (1 - -3)" ∧
      ∀ r, Derives .comma (p.tokens 5) r ↔
        r = .binary .sub (.unary .minus (.unary .minus (.literal "3")))
          (.binary .sub (.literal "1") (.unary .minus (.literal "3"))) := by
  have h₀ := Constructed.empty ⟨"x86_64-unknown-linux-gnu", false, 16, 32, 64, 64, 64⟩
  have h₁ := h₀.step (.builtin .int) (by decide +kernel)
  have h₂ := h₁.step (.integer (-3) (.plain 0)) (by decide +kernel)
  have h₃ := h₂.step (.integer 1 (.plain 0)) (by decide +kernel)
  have h₄ := h₃.step (.binary .sub 1 0) (by decide +kernel)
  have h₅ := h₄.step (.unary .minus 0) (by decide +kernel)
  have h₆ := h₅.step (.binary .sub 3 2) (by decide +kernel)
  refine ⟨_, h₆, by decide +kernel, fun r => ?_⟩
  rw [(h₆.reads_back 5).2 r]
  refine Iff.of_eq (congrArg (r = ·) ?_)
  with_unfolding_all rfl

end Program

end Readback
