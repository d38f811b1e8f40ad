import Readback.Proofs.Reading.Pieces

/-! # Literals and names are spelled with tokens of C

The tokens of a term are spelled with tokens of C if those of its literals and names are. Of these, only
a double that is written as a call and has a suffix is not.

* `Term.leaves` lists the literals and names of a term. Operators and brackets are tokens of C by
  themselves (`mem_symbols_unary`, `mem_symbols_binary`), and types of casts are spelled with tokens of
  their own, so whether a term is sound depends on its leaves (`Term.sound_iff`).
* A literal is sound if it is one constant, one string literal or a call of a builtin function
  (`Token.sound_literal_iff`), behind a sign or not (`allSound_ofLiteral`).
* Integers are digits with a suffix, which form one constant. Texts are written with escape sequences,
  so that no quote and no line break stands inside (`quoteTail_escaped`), and form one string literal.
* A double is written as digits, or as a call of a function if it is an infinity or a NaN
  (`floatingText_eq`). A suffix goes on with digits, but behind a call it is a token that stands by
  itself (`literalTokens_call_iff`).

So `Term.sound_floating_iff` is the one place where soundness has a condition: a double is spelled with
tokens of C unless a suffix stands behind a call. -/

namespace Readback

namespace Term

mutual

/-- The literals and names of a term, in their order. -/
def leaves : Term → List Term
  | .paren inner => leaves inner
  | .unary _ operand => leaves operand
  | .binary _ lhs rhs => leaves lhs ++ leaves rhs
  | .cast _ _ operand => leaves operand
  | .initList elements => leavesAll elements
  | .call callee args => leaves callee ++ leavesAll args
  | t => [t]

/-- The literals and names of several terms. -/
def leavesAll : List Term → List Term
  | [] => []
  | t :: rest => leaves t ++ leavesAll rest

end

theorem mem_leavesAll {leaf : Term} {ts : List Term} :
    leaf ∈ leavesAll ts ↔ ∃ t ∈ ts, leaf ∈ t.leaves := by
  induction ts with
  | nil => simp [leavesAll]
  | cons t ts ih => simp [leavesAll, ih]

end Term

/-! ### Tokens that are spelled with tokens of C -/

variable {p : Program}

/-- All tokens are spelled with tokens of C. -/
def AllSound (p : Program) (ts : List Token) : Prop := ∀ t ∈ ts, t.Sound p

theorem allSound_append {ts us : List Token} :
    AllSound p (ts ++ us) ↔ AllSound p ts ∧ AllSound p us := List.forall_mem_append

theorem allSound_cons {t : Token} {ts : List Token} :
    AllSound p (t :: ts) ↔ t.Sound p ∧ AllSound p ts := List.forall_mem_cons

theorem allSound_nil : AllSound p [] := nofun

theorem allSound_iff {ts : List Token} :
    AllSound p ts ↔ ∃ parts, List.Forall₂ (Token.Spelled p) ts parts := by
  constructor
  · intro h
    induction ts with
    | nil => exact ⟨[], .nil⟩
    | cons t ts ih =>
        obtain ⟨⟨us, hus⟩, hts⟩ := allSound_cons.mp h
        obtain ⟨parts, hparts⟩ := ih hts
        exact ⟨us :: parts, .cons hus hparts⟩
  · rintro ⟨parts, h⟩
    induction h with
    | nil => exact allSound_nil
    | cons ht _ ih => exact allSound_cons.mpr ⟨⟨_, ht⟩, ih⟩

theorem Token.Sound.of_symbol {s : String} (h : s ∈ symbols) : Token.Sound p (.symbol s) :=
  ⟨_, .symbol h⟩

theorem allSound_separated (l : List (List Token)) :
    AllSound p (separated l) ↔ ∀ ts ∈ l, AllSound p ts := by
  have hcomma : Token.Sound p (.symbol ",") := .of_symbol (by decide)
  induction l with
  | nil => simp [separated, allSound_nil]
  | cons ts l ih =>
      cases l with
      | nil => simp [separated]
      | cons us l =>
          have hstep : separated (ts :: us :: l) = ts ++ .symbol "," :: separated (us :: l) := rfl
          rw [hstep, allSound_append, allSound_cons, and_iff_right hcomma,
            List.forall_mem_cons (a := ts)]
          exact and_congr_right fun _ => ih

/-- Tokens in brackets. -/
theorem allSound_enclosed {l r : String} (hl : l ∈ symbols) (hr : r ∈ symbols) (ts : List Token) :
    AllSound p (.symbol l :: ts ++ [.symbol r]) ↔ AllSound p ts := by
  rw [allSound_append, allSound_cons, allSound_cons]
  simp [Token.Sound.of_symbol, hl, hr, allSound_nil]

namespace Term

/-- The tokens of the term are spelled with tokens of C. -/
def Sound (p : Program) (t : Term) : Prop := AllSound p (t.tokensWith p false)

theorem mem_symbols_unary (op : UnaryOp) : op.spelling ∈ symbols := by
  cases op <;> decide

theorem mem_symbols_binary (op : BinaryOp) : op.spelling ∈ symbols := by
  cases op <;> decide

mutual

/-- The tokens of a term are sound if those of its literals and names are. -/
theorem sound_iff : ∀ t : Term, t.Sound p ↔ ∀ leaf ∈ t.leaves, leaf.Sound p
  | .integer _ _ | .floating _ _ | .text _ | .ref _ => by simp [leaves]
  | .paren inner => by
    rw [Sound, tokens_paren, allSound_enclosed (by decide) (by decide)]
    exact sound_iff inner
  | .unary op operand => by
    have hop : Token.Sound p (.symbol op.spelling) := .of_symbol (mem_symbols_unary op)
    rw [leaves, ← sound_iff operand, Sound]
    cases hs : op.isSuffix with
    | true =>
        rw [tokens_suffixed p false hs, allSound_append, allSound_cons]
        simp [hop, allSound_nil, Sound]
    | false =>
        rw [tokens_prefixed p false hs, allSound_cons]
        simp [hop, Sound]
  | .binary op lhs rhs => by
    have hop : Token.Sound p (.symbol op.spelling) := .of_symbol (mem_symbols_binary op)
    rw [leaves, List.forall_mem_append, ← sound_iff lhs, ← sound_iff rhs, Sound, tokens_binary,
      allSound_append, allSound_cons]
    simp [hop, Sound]
  | .cast .explicit type operand => by
    rw [leaves, ← sound_iff operand, Sound, tokens_explicit, allSound_cons]
    exact and_iff_right ⟨_, .castTo type⟩
  | .cast .implicit type operand => by
    rw [leaves, ← sound_iff operand, Sound, tokens_hidden]
    rfl
  | .initList elements => by
    rw [leaves, ← soundAll_iff elements, Sound, tokens_initList,
      allSound_enclosed (by decide) (by decide), allSound_separated, List.forall_mem_map]
    rfl
  | .call callee args => by
    rw [leaves, List.forall_mem_append, ← sound_iff callee, ← soundAll_iff args, Sound, tokens_call,
      List.append_assoc, allSound_append, allSound_enclosed (by decide) (by decide),
      allSound_separated, List.forall_mem_map]
    rfl

theorem soundAll_iff : ∀ ts : List Term,
    (∀ t ∈ ts, t.Sound p) ↔ ∀ leaf ∈ leavesAll ts, leaf.Sound p
  | [] => by simp [leavesAll]
  | t :: ts => by
    rw [leavesAll, List.forall_mem_append, List.forall_mem_cons, sound_iff t, soundAll_iff ts]

end

end Term

/-! ### Literals -/

theorem LiteralTokens.unsigned {s : String} {ts : List String} (h : LiteralTokens s ts) :
    Unsigned s := by
  obtain ⟨c, t, hs, hc⟩ := h.head
  refine ⟨c, by simp [hs], ?_⟩
  rintro rfl
  exact hc (by decide)

theorem Token.sound_literal_iff {s : String} :
    Token.Sound p (.literal s) ↔ ∃ ts, LiteralTokens s ts := by
  refine ⟨?_, fun ⟨ts, h⟩ => ⟨ts, .literal h⟩⟩
  rintro ⟨ts, h⟩
  cases h with
  | literal h => exact ⟨ts, h⟩

/-- A literal and its sign. -/
theorem allSound_ofLiteral {sign s : String} (hsign : sign = "" ∨ sign = "-") (hs : Unsigned s) :
    AllSound p (Token.ofLiteral (sign ++ s)) ↔ ∃ ts, LiteralTokens s ts := by
  obtain rfl | rfl := hsign
  · rw [String.empty_append, Token.ofLiteral_unsigned hs, allSound_cons, Token.sound_literal_iff]
    exact and_iff_left allSound_nil
  · rw [Token.ofLiteral_minus, allSound_cons, allSound_cons, Token.sound_literal_iff,
      and_iff_right (Token.Sound.of_symbol (by decide))]
    exact and_iff_left allSound_nil

/-- Characters that stand for themselves in a string literal. -/
def isPlain (c : Char) : Bool := c != '"' && c != '\\' && c != '\n'

/-- An escape sequence and plain characters, or just plain characters. -/
def isEscaped : List Char → Bool
  | '\\' :: _ :: rest => rest.all isPlain
  | rest => rest.all isPlain

theorem quoteTail_plain {xs : List Char} (h : xs.all isPlain) (rest : List Char) :
    quoteTail '"' (xs ++ rest) = quoteTail '"' rest := by
  induction xs with
  | nil => rfl
  | cons c xs ih =>
      obtain ⟨hc, hxs⟩ : isPlain c ∧ xs.all isPlain := by simpa using h
      obtain ⟨⟨hquote, hescape⟩, hline⟩ : (c ≠ '"' ∧ c ≠ '\\') ∧ c ≠ '\n' := by
        simpa [isPlain] using hc
      rw [List.cons_append, quoteTail_cons hescape, if_neg (by simpa using hquote), ih hxs]
      simp [hline]

theorem quoteTail_escaped {xs : List Char} (h : isEscaped xs) (rest : List Char) :
    quoteTail '"' (xs ++ rest) = quoteTail '"' rest := by
  unfold isEscaped at h
  split at h
  · next c ys => exact (quoteTail.eq_2 '"' c (ys ++ rest)).trans (quoteTail_plain h rest)
  · exact quoteTail_plain h rest

theorem literalTokens_quote (s : String) : LiteralTokens (literalQuote s) [literalQuote s] := by
  have hbyte : ∀ n < 256, isEscaped (literalByte (UInt8.ofNat n)) := by decide +kernel
  have hbytes : ∀ bs : List UInt8, quoteTail '"' (bs.flatMap literalByte ++ ['"']) := by
    intro bs
    induction bs with
    | nil => rfl
    | cons b bs ih =>
        have hb : isEscaped (literalByte b) := by simpa using hbyte b.toNat b.toNat_lt
        rw [List.flatMap_cons, List.append_assoc, quoteTail_escaped hb]
        exact ih
  exact .text (String.toList_ofList ..) (hbytes _)

/-- A literal that starts with an underscore is a call. -/
theorem LiteralTokens.eq_of_underscore {s : String} {ts : List String} (h : LiteralTokens s ts)
    (hs : s.toList.head? = some '_') : s = "__builtin_inf()" ∨ s = "__builtin_nan(\"\")" := by
  cases h with
  | constant h =>
      obtain ⟨d, t, heq, hd⟩ := h.eq_cons
      rw [heq] at hs
      obtain rfl : d = '_' := Option.some.inj hs
      cases hd
  | text heq =>
      rw [heq] at hs
      cases hs
  | infinity => exact .inl rfl
  | nan => exact .inr rfl

namespace Term

theorem sound_integer (value : Int) (kind : Option Builtin) : (integer value kind).Sound p := by
  have ht : (integer value kind).tokensWith p false =
      Token.ofLiteral (toString value ++ integerSuffix kind) := by
    simp [tokensWith, pieces, Piece.tokens]
  have hconstant : ∀ {i : Int}, 0 ≤ i → LiteralTokens (toString i ++ integerSuffix kind) _ :=
    fun hi => .constant (constant_integer hi (integerSuffix_mem kind))
  rw [Sound, ht]
  by_cases h : value < 0
  · have hm := hconstant (i := -value) (by omega)
    rw [toString_of_neg h, String.append_assoc]
    exact (allSound_ofLiteral (.inr rfl) hm.unsigned).mpr ⟨_, hm⟩
  · have hm := hconstant (i := value) (by omega)
    simpa using (allSound_ofLiteral (.inl rfl) hm.unsigned).mpr ⟨_, hm⟩

theorem sound_text (value : String) : (text value).Sound p := by
  have ht : (text value).tokensWith p false = Token.ofLiteral ("" ++ literalQuote value) := by
    simp [tokensWith, pieces, Piece.tokens]
  have hs := literalTokens_quote value
  rw [Sound, ht]
  exact (allSound_ofLiteral (.inl rfl) hs.unsigned).mpr ⟨_, hs⟩

theorem sound_ref {d : DeclId} (h : isIdentifier (p.decl d).name) : (ref d).Sound p :=
  allSound_cons.mpr ⟨⟨_, .name h⟩, allSound_nil⟩

/-- The text of a double is a sign, if it has one, and its magnitude or a call. -/
theorem floatingText_eq (x : Binary64) : ∃ sign s, (sign = "" ∨ sign = "-") ∧
    floatingText x = sign ++ s ∧ (x.isFinite = true ∧ s = x.magnitudeText .up ∨
      x.isFinite = false ∧ s ∈ ["__builtin_inf()", "__builtin_nan(\"\")"]) := by
  have hsign : ∀ s : String, ∃ sign, (sign = "" ∨ sign = "-") ∧
      (if x.isNegative then "-" ++ s else s) = sign ++ s := by
    intro s
    cases x.isNegative with
    | true => exact ⟨"-", .inr rfl, rfl⟩
    | false => exact ⟨"", .inl rfl, (String.empty_append).symm⟩
  cases hn : x.isNaN with
  | true =>
      have hf : x.isFinite = false := by simp_all [Binary64.isNaN, Binary64.isFinite]
      exact ⟨"", "__builtin_nan(\"\")", .inl rfl, by simp [floatingText, hn], .inr ⟨hf, by decide⟩⟩
  | false =>
      cases hf : x.isFinite with
      | true =>
          obtain ⟨sign, h, heq⟩ := hsign (x.magnitudeText .up)
          refine ⟨sign, _, h, Eq.trans ?_ heq, .inl ⟨rfl, rfl⟩⟩
          simp only [floatingText, Binary64.text, hn, hf, Bool.false_eq_true, if_true, if_false]
      | false =>
          obtain ⟨sign, h, heq⟩ := hsign "__builtin_inf()"
          refine ⟨sign, _, h, Eq.trans ?_ heq, .inr ⟨rfl, by decide⟩⟩
          simp only [floatingText, hn, hf, Bool.false_eq_true, if_false]
          rfl

/-- A suffix behind a call makes no literal of it. -/
theorem literalTokens_call_iff {s suffix : String}
    (hs : s ∈ ["__builtin_inf()", "__builtin_nan(\"\")"]) (hsuffix : suffix ∈ floatingSuffixes) :
    (∃ ts, LiteralTokens (s ++ suffix) ts) ↔ suffix = "" := by
  constructor
  · rintro ⟨ts, h⟩
    have hhead : (s ++ suffix).toList.head? = some '_' := by
      simp only [List.mem_cons, List.not_mem_nil, or_false] at hs
      obtain rfl | rfl := hs <;> simp
    have hwhole := (by decide : ∀ s ∈ ["__builtin_inf()", "__builtin_nan(\"\")"],
      ∀ suffix ∈ floatingSuffixes, s ++ suffix = "__builtin_inf()" ∨
        s ++ suffix = "__builtin_nan(\"\")" → suffix = "") s hs suffix hsuffix
    exact hwhole (h.eq_of_underscore hhead)
  · rintro rfl
    simp only [List.mem_cons, List.not_mem_nil, or_false] at hs
    obtain rfl | rfl := hs
    · exact ⟨_, .infinity⟩
    · exact ⟨_, .nan⟩

/-- A double is spelled with tokens of C unless a suffix stands behind a call. -/
theorem sound_floating_iff (x : Binary64) (kind : Option Builtin) :
    (floating x kind).Sound p ↔ x.isFinite ∨ floatingSuffix kind = "" := by
  have ht : (floating x kind).tokensWith p false =
      Token.ofLiteral (floatingText x ++ floatingSuffix kind) := by
    simp [tokensWith, pieces, Piece.tokens]
  obtain ⟨sign, s, hsign, heq, hs⟩ := floatingText_eq x
  rw [Sound, ht, heq, String.append_assoc]
  obtain ⟨hfinite, rfl⟩ | ⟨hfinite, hcall⟩ := hs
  · have hm : LiteralTokens _ _ := .constant (x.constant_magnitude .up (floatingSuffix_mem kind))
    rw [allSound_ofLiteral hsign hm.unsigned]
    exact iff_of_true ⟨_, hm⟩ (.inl hfinite)
  · have hu : Unsigned s := by
      simp only [List.mem_cons, List.not_mem_nil, or_false] at hcall
      obtain rfl | rfl := hcall <;> simp [Unsigned]
    rw [allSound_ofLiteral hsign (hu.append _),
      literalTokens_call_iff hcall (floatingSuffix_mem kind)]
    simp [hfinite]

end Term

end Readback
