import Readback.Proofs.Reading.Leaves

/-! # Pieces side by side

The pieces of a term are built from those of its parts, with operators, brackets and blanks between
them. What can stand first and last in such a sequence is known, and so is what meets where two are
joined: each piece ends before the next one, except for an `&` before an `&`.

* `Piece.Opens` says of a piece that it can stand behind a prefix operator other than a sign, unless
  both are `&`. `Piece.Closes` says that it ends before whatever follows an expression (`stops`), and
  `Piece.Meets` that it ends before the piece behind it, or both are `&`.
* `Piece.Run` is a sequence that begins with a piece that opens, ends with one that closes, and in which
  neighbours meet. These are the sequences that can stand where an expression stands.
* Runs are put together as expressions are: a piece in front (`Run.cons`, `Run.behind`), brackets around
  (`Run.enclosed`), a comma or a binary operator between two (`Run.comma`, `Run.operator`), a suffix,
  and a prefix operator, with a blank where it would run into a sign (`Run.prefixed`). That blank is
  what keeps `- -x` from becoming a decrement; there is none between two `&`.
* Marks that no character makes longer (`loneMarks`), such as brackets and commas, meet everything.

The result is `Term.run_pieces`, by induction on terms: every term is a run. A run is cut into its
tokens unless two neighbours are both `&` (`Piece.Run.clears`). -/

namespace Readback

open Lexeme

variable {p : Program}

/-- The characters that follow an expression inside another one. -/
def stops : List Char := [' ', ',', '(', ')', '\x7d', '+', '-']

/-- No token of an expression goes on with one of them, other than an operator. -/
theorem not_continues_of_mem_stops {c : Char} (h : c ∈ stops) :
    isWordChar c = false ∧ isQuote c = false ∧ c ≠ '.' := by
  simp only [stops, List.mem_cons, List.not_mem_nil, or_false] at h
  obtain rfl | rfl | rfl | rfl | rfl | rfl | rfl := h <;> decide

namespace Piece

/-- The piece can stand behind a prefix operator other than a sign, unless both are `&`. -/
def Opens (x : Piece) : Prop :=
  ∃ c ∈ (x.text false).toList.head?, c ≠ '=' ∧ c ≠ '>' ∧ (c = '&' → x = .symbol "&")

/-- The piece ends before whatever follows an expression. -/
def Closes (x : Piece) : Prop := ∀ c ∈ stops, x.endsBefore c

/-- The first piece ends before the second one, or both are `&`. -/
def Meets (x y : Piece) : Prop := x.Clears y ∨ x = .symbol "&" ∧ y = .symbol "&"

/-- A sequence of pieces that can stand where an expression stands, and in which only `&` and `&` run
together. -/
structure Run (ps : List Piece) : Prop where
  first : ∃ x ∈ ps.head?, x.Opens
  last : ∃ x ∈ ps.getLast?, x.Closes
  chain : ps.IsChain Meets

namespace Run

variable {x : Piece} {ps qs : List Piece}

theorem single (ho : x.Opens) (hc : x.Closes) : Run [x] :=
  ⟨⟨x, rfl, ho⟩, ⟨x, rfl, hc⟩, .singleton x⟩

theorem append (hp : Run ps) (hq : Run qs)
    (h : ∀ x ∈ ps.getLast?, ∀ y ∈ qs.head?, x.Meets y) : Run (ps ++ qs) where
  first := by
    obtain ⟨x, hx, ho⟩ := hp.first
    exact ⟨x, by rw [List.head?_append, Option.mem_def.mp hx]; rfl, ho⟩
  last := by
    obtain ⟨x, hx, hc⟩ := hq.last
    exact ⟨x, by rw [List.getLast?_append, Option.mem_def.mp hx]; rfl, hc⟩
  chain := List.isChain_append.mpr ⟨hp.chain, hq.chain, h⟩

/-- A further piece in front. -/
theorem cons (ho : x.Opens) (h : ∀ y, y.Opens → y ∈ ps.head? → x.Meets y) (hp : Run ps) :
    Run (x :: ps) where
  first := ⟨x, rfl, ho⟩
  last := by
    obtain ⟨y, hy, hc⟩ := hp.last
    refine ⟨y, ?_, hc⟩
    cases ps with
    | nil => cases hy
    | cons z ps => rwa [List.getLast?_cons_cons]
  chain := by
    obtain ⟨y, hy, hyo⟩ := hp.first
    refine List.isChain_cons.mpr ⟨fun z hz => ?_, hp.chain⟩
    obtain rfl : y = z := Option.mem_unique hy hz
    exact h y hyo hz

/-- A piece that ends wherever it stands, in front. -/
theorem behind (ho : x.Opens) (h : ∀ c, x.endsBefore c) (hp : Run ps) : Run (x :: ps) :=
  hp.cons ho fun _ ⟨c, hc, _⟩ _ => .inl ⟨c, hc, h c⟩

/-- Pieces that begin with a character that can follow an expression, behind an expression. -/
theorem before (hp : Run ps) (hq : Run qs)
    (h : ∀ y ∈ qs.head?, ∃ c ∈ (y.text false).toList.head?, c ∈ stops) : Run (ps ++ qs) := by
  refine hp.append hq fun x hx y hy => .inl ?_
  obtain ⟨x', hx', hc⟩ := hp.last
  obtain rfl : x' = x := Option.mem_unique hx' hx
  obtain ⟨c, hyc, hstop⟩ := h y hy
  exact ⟨c, hyc, hc c hstop⟩

end Run

theorem opens_blank : Opens .blank := ⟨' ', by simp [text], by decide, by decide, by decide⟩

theorem endsBefore_blank (c : Char) : Piece.blank.endsBefore c := rfl

theorem opens_castTo (type : String) : Opens (.castTo type) :=
  ⟨'(', by simp [text], by decide, by decide, fun h => absurd h (by decide)⟩

theorem endsBefore_castTo (type : String) (c : Char) : (Piece.castTo type).endsBefore c := rfl

/-- The marks that no character makes longer. -/
def loneMarks : List String := ["(", ")", "\x7b", "\x7d", ",", "++", "--"]

section LoneMarks

variable {s : String} (hs : s ∈ loneMarks)

include hs

theorem opens_lone : Opens (.symbol s) := by
  simp only [loneMarks, List.mem_cons, List.not_mem_nil, or_false] at hs
  obtain rfl | rfl | rfl | rfl | rfl | rfl | rfl := hs <;>
    exact ⟨_, rfl, by decide, by decide, by decide⟩

theorem endsBefore_lone (c : Char) : (Piece.symbol s).endsBefore c := by
  have hfollows : follows s = [] := (by decide : ∀ s ∈ loneMarks, follows s = []) s hs
  simp [endsBefore, tokens, Token.endsBefore, hfollows]

theorem run_lone : Run [.symbol s] := .single (opens_lone hs) fun c _ => endsBefore_lone hs c

end LoneMarks

namespace Run

variable {ps qs : List Piece}

/-- Pieces in brackets, or none. -/
theorem enclosed {l : String} (hl : l ∈ loneMarks) {r : String} (hr : r ∈ [")", "\x7d"])
    (h : ps = [] ∨ Run ps) : Run (.symbol l :: ps ++ [.symbol r]) := by
  have hlone : r ∈ loneMarks := (by decide : ∀ r ∈ [")", "\x7d"], r ∈ loneMarks) r hr
  have hinner : Run (ps ++ [.symbol r]) := by
    obtain rfl | hp := h
    · exact run_lone hlone
    · refine hp.before (run_lone hlone) ?_
      rintro _ ⟨⟩
      simp only [List.mem_cons, List.not_mem_nil, or_false] at hr
      obtain rfl | rfl := hr <;> exact ⟨_, rfl, by decide⟩
  exact hinner.behind (opens_lone hl) (endsBefore_lone hl)

/-- A comma and a blank between two expressions. -/
theorem comma (hp : Run ps) (hq : Run qs) : Run (ps ++ .symbol "," :: .blank :: qs) := by
  have hcomma : "," ∈ loneMarks := by decide
  refine hp.before ((hq.behind opens_blank endsBefore_blank).behind (opens_lone hcomma)
    (endsBefore_lone hcomma)) ?_
  rintro _ ⟨⟩
  exact ⟨',', rfl, by decide⟩

theorem commaSeparated {l : List (List Piece)} (h : ∀ ps ∈ l, Run ps) :
    Readback.commaSeparated l = [] ∨ Run (Readback.commaSeparated l) := by
  cases l with
  | nil => exact .inl rfl
  | cons ps l =>
      right
      induction l generalizing ps with
      | nil => exact h ps List.mem_cons_self
      | cons qs l ih =>
          rw [List.forall_mem_cons] at h
          simpa [Readback.commaSeparated] using h.1.comma (ih qs h.2)

/-- A binary operator with blanks around it between two expressions. -/
theorem operator (op : BinaryOp) (hp : Run ps) (hq : Run qs) :
    Run (ps ++ .blank :: .symbol op.spelling :: .blank :: qs) := by
  have hblank : ∀ x : Piece, x.endsBefore ' ' → x.Meets .blank := fun x hx =>
    .inl ⟨' ', by simp [text], hx⟩
  have hop : (Piece.symbol op.spelling).endsBefore ' ' := by cases op <;> decide
  have hright := hq.behind opens_blank endsBefore_blank
  refine hp.before ?_ ?_
  · obtain ⟨c, s, hs⟩ : ∃ c s, op.spelling.toList = c :: s := by cases op <;> exact ⟨_, _, rfl⟩
    have hleft : Meets .blank (.symbol op.spelling) := .inl ⟨c, by simp [text, hs], rfl⟩
    refine ⟨⟨_, rfl, opens_blank⟩, ?_, .cons_cons hleft (.cons_cons (hblank _ hop) hright.chain)⟩
    simpa [List.getLast?_cons_cons] using hright.last
  · rintro _ ⟨⟩
    exact ⟨' ', by simp [text], by decide⟩

theorem suffixed {op : UnaryOp} (hop : op.isSuffix = true) (hp : Run ps) :
    Run (ps ++ [.symbol op.spelling]) := by
  have hsteps : op = .postInc ∨ op = .postDec := by
    cases op <;> simp_all [UnaryOp.isSuffix]
  obtain rfl | rfl := hsteps
  · refine hp.before (run_lone (by decide)) ?_
    rintro _ ⟨⟩
    exact ⟨'+', rfl, by decide⟩
  · refine hp.before (run_lone (by decide)) ?_
    rintro _ ⟨⟩
    exact ⟨'-', rfl, by decide⟩

/-- A prefix operator, with a blank where it would run into a sign. -/
theorem prefixed (op : UnaryOp) (hp : Run ps) :
    Run (if runsInto op.spelling (firstChar? false ps) then .symbol op.spelling :: .blank :: ps
      else .symbol op.spelling :: ps) := by
  have hopens : Opens (.symbol op.spelling) := by
    cases op <;> exact ⟨_, rfl, by decide, by decide, by decide⟩
  have hblank : (Piece.symbol op.spelling).endsBefore ' ' := by cases op <;> decide
  have hfollows : (follows op.spelling).all fun c => c = '=' ∨ c = '>' ∨
      c = '&' ∧ op.spelling = "&" ∨ runsInto op.spelling (some c) := by cases op <;> decide
  simp only [List.all_eq_true, decide_eq_true_eq] at hfollows
  split
  · refine (hp.behind opens_blank endsBefore_blank).cons hopens ?_
    rintro _ - ⟨⟩
    exact .inl ⟨' ', by simp [text], hblank⟩
  · next hruns =>
      refine hp.cons hopens fun y ⟨c, hc, heq, hgt, hand⟩ hy => ?_
      by_cases hc' : c ∈ follows op.spelling
      · obtain rfl | rfl | ⟨rfl, hspelling⟩ | hsign := hfollows c hc'
        · exact absurd rfl heq
        · exact absurd rfl hgt
        · exact .inr ⟨by rw [hspelling], hand rfl⟩
        · -- The first character of the operand is the sign that the operator would run into.
          cases ps with
          | nil => cases hy
          | cons z ps =>
              obtain rfl : z = y := Option.some.inj hy
              rw [firstChar?_cons hc] at hruns
              exact absurd hsign hruns
      · exact .inl ⟨c, hc, by simpa [endsBefore, tokens, Token.endsBefore] using hc'⟩

end Run

end Piece

/-- Only neighbours that are both `&` keep a run from being cut into its tokens. -/
theorem Piece.Run.clears {ps : List Piece} (h : Run ps)
    (hand : ¬ [.symbol "&", .symbol "&"] <:+: ps) : ps.IsChain Clears := by
  rw [List.isChain_iff_forall_rel_of_append_cons_cons]
  intro x y before after heq
  obtain hclears | ⟨rfl, rfl⟩ := List.isChain_iff_forall_rel_of_append_cons_cons.mp h.chain heq
  · exact hclears
  · exact absurd ⟨before, after, by simp [heq]⟩ hand

/-! ### Terms as runs -/

theorem Piece.run_literal {s : String} (h : AllSound p (Token.ofLiteral s)) : Run [.literal s] := by
  obtain ⟨ts, hlast⟩ : ∃ t, (Token.ofLiteral s).getLast? = some (.literal t) := by
    obtain ⟨t, -, ht⟩ | ht := Token.ofLiteral_cases s
    · exact ⟨t, by rw [ht]; rfl⟩
    · exact ⟨s, by rw [ht]; rfl⟩
  refine .single ?_ fun c hc => ?_
  · obtain ⟨t, rfl, -⟩ | ht := Token.ofLiteral_cases s
    · exact ⟨'-', by simp [text, Readback.literal], by decide, by decide,
        fun hc => absurd hc (by decide)⟩
    · rw [ht, allSound_cons, Token.sound_literal_iff] at h
      obtain ⟨⟨_, hs⟩, -⟩ := h
      obtain ⟨c, t, hs, hc⟩ := hs.head
      simp only [List.mem_cons, List.not_mem_nil, or_false, not_or] at hc
      exact ⟨c, by simp [text, Readback.literal, hs], hc.1, hc.2.1, fun h => absurd h hc.2.2.1⟩
  · simp [endsBefore, tokens, hlast, Token.endsBefore, not_continues_of_mem_stops hc]

theorem Piece.run_ident {s : String} (h : isIdentifier s) : Run [.ident s] := by
  obtain ⟨c, t, hs, hc, -⟩ := isWord_iff.mp (isWord_of_isIdentifier h)
  refine .single ⟨c, by simp [text, hs], ?_, ?_, ?_⟩ fun c hc => ?_
  iterate 3 rintro rfl; simp at hc
  simp [endsBefore, tokens, Token.endsBefore, continuesWord, not_continues_of_mem_stops hc]

namespace Term

theorem run_leaf {t : Term} {s : String} (ht : t.pieces p false false = [.literal s])
    (h : t.Sound p) : Piece.Run (t.pieces p false false) := by
  rw [Sound, tokensWith, ht, List.flatMap_singleton] at h
  rw [ht]
  exact Piece.run_literal h

mutual

/-- In a term only `&` and `&` run together. -/
theorem run_pieces : ∀ t : Term, (∀ leaf ∈ t.leaves, leaf.Sound p) →
    Piece.Run (t.pieces p false false)
  | .integer _ _, h | .floating _ _, h | .text _, h =>
    run_leaf (by rw [pieces]) (h _ (List.mem_singleton_self _))
  | .ref d, h => by
    obtain ⟨⟨_, ⟨hs⟩⟩, -⟩ := allSound_cons.mp (h _ (List.mem_singleton_self _))
    rw [pieces]
    exact Piece.run_ident hs
  | .paren inner, h => by
    rw [pieces]
    exact .enclosed (by decide) (by decide) (.inr (run_pieces inner h))
  | .unary op operand, h => by
    have ho := run_pieces operand h
    rw [pieces]
    split
    · next hs => exact ho.suffixed hs
    · exact ho.prefixed op
  | .binary op lhs rhs, h => by
    rw [leaves, List.forall_mem_append] at h
    have hl := run_pieces lhs h.1
    have hr := run_pieces rhs h.2
    rw [pieces]
    split
    · exact hl.comma hr
    · exact hl.operator op hr
  | .cast .explicit type operand, h => by
    rw [pieces]
    exact (run_pieces operand h).behind (Piece.opens_castTo _) (Piece.endsBefore_castTo _)
  | .cast .implicit type operand, h => by
    rw [pieces]
    exact run_pieces operand h
  | .initList elements, h => by
    have helements := Piece.Run.commaSeparated (run_piecesOf elements h)
    rw [pieces]
    exact .enclosed (by decide) (by decide) helements
  | .call callee args, h => by
    rw [leaves, List.forall_mem_append] at h
    have hargs := Piece.Run.commaSeparated (run_piecesOf args h.2)
    rw [pieces, List.append_assoc]
    refine (run_pieces callee h.1).before (.enclosed (by decide) (by decide) hargs) ?_
    rintro _ ⟨⟩
    exact ⟨'(', rfl, by decide⟩

theorem run_piecesOf : ∀ ts : List Term, (∀ leaf ∈ leavesAll ts, leaf.Sound p) →
    ∀ ps ∈ piecesOf p false false ts, Piece.Run ps
  | [], _ => nofun
  | t :: ts, h => by
    rw [leavesAll, List.forall_mem_append] at h
    exact List.forall_mem_cons.mpr ⟨run_pieces t h.1, run_piecesOf ts h.2⟩

end

end Term

end Readback
