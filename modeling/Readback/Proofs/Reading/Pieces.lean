import Mathlib.Data.List.Chain
import Readback.Proofs.Reading.Expr
import Readback.Proofs.Reading.TypeTokens

/-! # Pieces are cut into their tokens

A token of an expression is spelled with one or more tokens of C: an operator with one, a literal with a
constant or with a call of a function, a cast with the tokens of its type. A sequence of pieces is cut
into these if each piece ends before the first character of the next one.

* `Token.Spelled` says which tokens of C a token of an expression is spelled with, and `Token.Sound`
  that there are some. `LiteralTokens` lists the forms of literals: one constant, one string literal, or
  a call.
* `Token.endsBefore` and `Piece.endsBefore` decide whether a token or a piece ends before a character,
  and `Piece.Clears` whether a piece ends before the next one, by the first character of that.
* A token is cut into what it is spelled with before a character before which it ends
  (`Named.munches_token`), hence a piece (`Named.munches_piece`), and hence a sequence of pieces of
  which each clears the next (`Named.munches_textOf`). Names have to be identifiers for that, which is
  `Program.Named`.
* For the converse one has to know that a text is not cut otherwise. What it is cut into behind some of
  its tokens does not depend on them (`Named.behind`), so a sequence that is cut into its tokens as a
  whole is so from every piece on.

The pieces of terms, and which of them clear the next one, are the subject of other modules. -/

namespace Readback

open Lexeme

/-! ### The spelling of tokens -/

/-- The operators and brackets of expressions. -/
def symbols : List String :=
  UnaryOp.all.map UnaryOp.spelling ++ BinaryOp.all.map BinaryOp.spelling ++ ["(", ")", "\x7b", "\x7d"]

/-- The tokens of C in a literal without a sign: one constant, one string literal, or a call of a
builtin function. -/
inductive LiteralTokens : String → List String → Prop where
  | constant {s : String} (h : Constant s.toList) : LiteralTokens s [s]
  | text {s : String} {t : List Char} (hs : s.toList = '"' :: t) (h : quoteTail '"' t) :
      LiteralTokens s [s]
  | infinity : LiteralTokens "__builtin_inf()" ["__builtin_inf", "(", ")"]
  | nan : LiteralTokens "__builtin_nan(\"\")" ["__builtin_nan", "(", "\"\"", ")"]

/-- `t.Spelled p ts`: the tokens of C that the token of an expression is spelled with are `ts`. -/
inductive Token.Spelled (p : Program) : Token → List String → Prop where
  | name {x : String} (h : isIdentifier x) : Spelled p (.name x) [x]
  | literal {s : String} {ts : List String} (h : LiteralTokens s ts) : Spelled p (.literal s) ts
  | symbol {s : String} (h : s ∈ symbols) : Spelled p (.symbol s) [s]
  | castTo (t : QualType) : Spelled p (.castTo (p.typeText t)) ("(" :: (p.typeTokens t ++ [")"]))

/-- Whether the token is spelled with tokens of C. -/
def Token.Sound (p : Program) (t : Token) : Prop := ∃ ts, t.Spelled p ts

theorem mem_marks_of_mem_symbols : ∀ s ∈ symbols, s ∈ marks ∧ s ≠ "." := by decide

/-- A literal starts with a digit, a quote or the name of a function, and so does not make an operator
longer. -/
theorem LiteralTokens.head {s : String} {ts : List String} (h : LiteralTokens s ts) :
    ∃ c t, s.toList = c :: t ∧ c ∉ ['=', '>', '&', '-'] := by
  cases h with
  | constant h =>
      obtain ⟨d, t, hs, hd⟩ := h.eq_cons
      refine ⟨d, t, hs, fun hmem => ?_⟩
      simp only [List.mem_cons, List.not_mem_nil, or_false] at hmem
      obtain rfl | rfl | rfl | rfl := hmem <;> cases hd
  | @text _ t hs _ => exact ⟨'"', t, hs, by decide⟩
  | infinity => exact ⟨'_', _, rfl, by decide⟩
  | nan => exact ⟨'_', _, rfl, by decide⟩

/-- A sign in front of a literal is a token by itself. -/
theorem Token.ofLiteral_cases (s : String) :
    (∃ t, s = "-" ++ t ∧ ofLiteral s = [.symbol "-", .literal t]) ∨ ofLiteral s = [.literal s] := by
  unfold ofLiteral
  split
  · next rest hs =>
      refine .inl ⟨String.ofList rest, ?_, rfl⟩
      rw [← String.toList_inj, hs]
      simp
  · exact .inr rfl

/-! ### Where tokens and pieces end -/

/-- Whether a token of an expression ends before the character. -/
def Token.endsBefore : Token → Char → Bool
  | .name _, c => !continuesWord c
  | .literal _, c => !isWordChar c && c != '.'
  | .symbol s, c => c ∉ follows s
  | .castTo _, _ => true

/-- Whether a piece ends before the character. -/
def Piece.endsBefore (x : Piece) (c : Char) : Bool := x.tokens.getLast?.all (·.endsBefore c)

/-- The first piece ends before the second one. -/
def Piece.Clears (x y : Piece) : Prop := ∃ c ∈ (y.text false).toList.head?, x.endsBefore c

theorem Munches.quoted {s : String} {t : List Char} (hs : s.toList = '"' :: t) (h : quoteTail '"' t)
    (rest : List Char) : Munches (s.toList ++ rest) [s] rest := by
  have hlead : "" ∈ leads := by decide
  refine .token s ?_ ?_ (.done rest) <;> rw [hs]
  · exact .quoted hlead rfl h
  · exact endsBefore_of_quoteTail rfl h rest

namespace LiteralTokens

theorem munches_infinity (rest : List Char) :
    Munches ("__builtin_inf()".toList ++ rest) ["__builtin_inf", "(", ")"] rest :=
  (Cuts.word (s := "__builtin_inf") (by decide)).munches_call .empty rest

theorem munches_nan (rest : List Char) :
    Munches ("__builtin_nan(\"\")".toList ++ rest) ["__builtin_nan", "(", "\"\"", ")"] rest := by
  have hquotes : Cuts "\"\"" ["\"\""] :=
    ⟨fun rest _ => by simp, fun rest _ => .quoted (t := ['"']) rfl (by decide) rest⟩
  exact (Cuts.word (s := "__builtin_nan") (by decide)).munches_call hquotes rest

variable {s : String} {ts : List String} (h : LiteralTokens s ts)

include h

theorem munches {rest : List Char} (hrest : ∀ c ∈ rest.head?, (Token.literal s).endsBefore c) :
    Munches (s.toList ++ rest) ts rest := by
  cases h with
  | constant h =>
      refine .token s h.isToken (h.endsBefore fun c hc => ?_) (.done rest)
      simpa [Token.endsBefore] using hrest c hc
  | text hs h => exact .quoted hs h rest
  | infinity => exact munches_infinity rest
  | nan => exact munches_nan rest

/-- What a text is cut into behind a literal. -/
theorem behind {rest : List Char} {us : List String} (hm : Munches (s.toList ++ rest) (ts ++ us) []) :
    Munches rest us [] := by
  cases h with
  | constant h => exact (hm.of_token h.isToken).2
  | text hs h => exact (Munches.quoted hs h rest).behind hm
  | infinity => exact (munches_infinity rest).behind hm
  | nan => exact (munches_nan rest).behind hm

end LiteralTokens

namespace Program

/-- What is written can be cut into tokens: the declarations are named by identifiers, and record
types belong to declarations. -/
structure Named (p : Program) : Prop where
  tagged : p.Tagged
  names : ∀ d < p.decls.size, isIdentifier (p.decl d).name

namespace Named

variable {p : Program} (h : p.Named)

include h

theorem munches_castTo (t : QualType) (rest : List Char) :
    Munches ((Token.castTo (p.typeText t)).spelling.toList ++ rest)
      ("(" :: (p.typeTokens t ++ [")"])) rest := by
  have hcall := Cuts.empty.munches_call (h.tagged.cuts_typeText h.names t) rest
  rwa [String.empty_append, List.nil_append] at hcall

/-- A token is cut into what it is spelled with before a character before which it ends. -/
theorem munches_token {t : Token} {ts : List String} (ht : t.Spelled p ts) {rest : List Char}
    (hrest : ∀ c ∈ rest.head?, t.endsBefore c) : Munches (t.spelling.toList ++ rest) ts rest := by
  cases ht with
  | @name x hx =>
      have hword := isWord_of_isIdentifier hx
      refine .token x (.word hword) (endsBefore_of_isWord hword fun c hc => ?_) (.done rest)
      simpa [Token.endsBefore] using hrest c hc
  | literal hs => exact hs.munches hrest
  | @symbol s hs =>
      obtain ⟨hmark, hpoint⟩ := mem_marks_of_mem_symbols s hs
      refine .token s (.mark hmark) (endsBefore_of_mark hmark hpoint fun c hc => ?_) (.done rest)
      simpa [Token.endsBefore] using hrest c hc
  | castTo t => exact h.munches_castTo t rest

/-- A piece is cut into its tokens before a character before which it ends. -/
theorem munches_piece {x : Piece} (hsound : ∀ t ∈ x.tokens, t.Sound p) {rest : List Char}
    (hrest : ∀ c ∈ rest.head?, x.endsBefore c) :
    ∃ parts, List.Forall₂ (Token.Spelled p) x.tokens parts ∧
      Munches ((x.text false).toList ++ rest) parts.flatten rest := by
  -- A piece of one token.
  have single : ∀ t : Token, x.tokens = [t] → x.text false = t.spelling →
      ∃ parts, List.Forall₂ (Token.Spelled p) x.tokens parts ∧
        Munches ((x.text false).toList ++ rest) parts.flatten rest := by
    intro t hx htext
    obtain ⟨ts, hts⟩ := hsound t (by simp [hx])
    refine ⟨[ts], hx ▸ .cons hts .nil, ?_⟩
    rw [htext, List.flatten_singleton]
    exact h.munches_token hts (by simpa [Piece.endsBefore, hx] using hrest)
  cases x with
  | literal s =>
      obtain ⟨t, rfl, ht⟩ | hs := Token.ofLiteral_cases s
      · have hx : (Piece.literal ("-" ++ t)).tokens = [.symbol "-", .literal t] := ht
        obtain ⟨ts, hts⟩ := hsound (.literal t) (by simp [hx])
        have hsign : Token.Spelled p (.symbol "-") ["-"] := .symbol (by decide)
        have hend : ∀ c ∈ rest.head?, (Token.literal t).endsBefore c := by
          simpa [Piece.endsBefore, hx] using hrest
        refine ⟨[["-"], ts], hx ▸ .cons hsign (.cons hts .nil), ?_⟩
        have hnext : ∀ c ∈ (t.toList ++ rest).head?, (Token.symbol "-").endsBefore c := by
          have hfollows : follows "-" = ['>', '-', '='] := by decide
          cases hts with
          | literal hl =>
              obtain ⟨c, u, ht, hc⟩ := hl.head
              rw [ht]
              rintro _ ⟨⟩
              simp_all [Token.endsBefore]
        have hm := (h.munches_token hsign hnext).append (h.munches_token hts hend)
        simpa [Piece.text, literal, Token.spelling] using hm
      · exact single (.literal s) hs rfl
  | ident s => exact single (.name s) rfl rfl
  | symbol s => exact single (.symbol s) rfl rfl
  | castTo type => exact single (.castTo type) rfl rfl
  | blank => exact ⟨[], .nil, .blank (.done rest)⟩

/-- Pieces that end where the next one starts are cut into their tokens. -/
theorem munches_textOf {ps : List Piece} (hsound : ∀ t ∈ ps.flatMap Piece.tokens, t.Sound p)
    (hclears : ps.IsChain Piece.Clears) :
    ∃ parts, List.Forall₂ (Token.Spelled p) (ps.flatMap Piece.tokens) parts ∧
      Munches (Piece.textOf false ps).toList parts.flatten [] := by
  induction ps with
  | nil => exact ⟨[], .nil, .done []⟩
  | cons x ps ih =>
      rw [List.flatMap_cons] at hsound ⊢
      rw [List.forall_mem_append] at hsound
      obtain ⟨hnext, hclears⟩ := List.isChain_cons.mp hclears
      obtain ⟨parts, hparts, hmunches⟩ := ih hsound.2 hclears
      have hrest : ∀ c ∈ (Piece.textOf false ps).toList.head?, x.endsBefore c := by
        cases ps with
        | nil => simp
        | cons y ps =>
            obtain ⟨c, hc, hends⟩ := hnext y rfl
            rw [Piece.textOf_cons, String.toList_append, List.head?_append, Option.mem_def.mp hc]
            rintro _ ⟨⟩
            exact hends
      obtain ⟨xs, hxs, hx⟩ := h.munches_piece hsound.1 hrest
      refine ⟨xs ++ parts, List.rel_append hxs hparts, ?_⟩
      rw [Piece.textOf_cons, String.toList_append, List.flatten_append]
      exact hx.append hmunches

/-- What a text is cut into behind a token. -/
theorem behind_token {t : Token} {ts us : List String} (ht : t.Spelled p ts) {rest : List Char}
    (hm : Munches (t.spelling.toList ++ rest) (ts ++ us) []) : Munches rest us [] := by
  cases ht with
  | name hx => exact (hm.of_token (.word (isWord_of_isIdentifier hx))).2
  | literal hs => exact hs.behind hm
  | symbol hs => exact (hm.of_token (.mark (mem_marks_of_mem_symbols _ hs).1)).2
  | castTo t => exact (h.munches_castTo t rest).behind hm

/-- What a text is cut into behind some of its tokens. -/
theorem behind {ts : List Token} {s : String} (hlaid : Laid ts s) {rest : List Char} {us : List Token}
    {parts : List (List String)} (hparts : List.Forall₂ (Token.Spelled p) (ts ++ us) parts)
    (hm : Munches (s.toList ++ rest) parts.flatten []) :
    ∃ others, List.Forall₂ (Token.Spelled p) us others ∧ Munches rest others.flatten [] := by
  induction hlaid generalizing parts with
  | nil => exact ⟨parts, hparts, hm⟩
  | token t _ ih =>
      cases hparts with
      | cons ht hparts =>
          rw [String.toList_append, List.append_assoc, List.flatten_cons] at hm
          exact ih hparts (h.behind_token ht hm)
  | blank _ ih =>
      rw [String.toList_append, List.append_assoc] at hm
      exact ih hparts hm.of_blank

end Named

end Program

end Readback
