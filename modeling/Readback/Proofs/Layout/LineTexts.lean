import Readback.Proofs.Layout.Braces
import Readback.Proofs.Layout.Printable

/-! # Texts of single lines

The texts that stand on the lines of a program, if its names are identifiers: none has a line break in
it, and none begins with a blank or a closing brace. Without that, lines could not be told apart in the
text of a program, nor their indentation from what they say.

* `OneLine` is the property. Its second half, `StartsLine`, is about the first character; it is a matter
  of the leftmost leaf of a declarator or of a term, so it is proved by going down on the left only
  (`CType.startsLine_declarator`, `Program.Printable.exprText_startsLine`). The first half is about all
  characters, and holds because the line break is a control character (`break_control`), which
  identifiers, literals and marks are free of.
* A line may end in an opening brace or begin with a closing one. `OneLine.plain`, `OneLine.opener`,
  `BraceText.closer` and `BraceText.of_close` say for texts put together from such parts what kind of
  line they are.
* Colours put codes around words and literals. Codes have no line break either, and a text in a colour
  begins with a code and not with a blank (`lacks_painted`, `startsLine_painted`).

`Program.Identified` asks that the names of declarations are identifiers. It is the one condition under
which the texts of a program are texts of single lines: expressions
(`Program.Printable.exprText_oneLine`), the heads of functions (`Identified.functionHeader`) and
variables with their initial values (`Identified.varText`). -/

namespace Readback

/-- The text begins with a character that is no blank and no closing brace. -/
def StartsLine (s : String) : Prop := ∃ c ∈ s.toList.head?, isBlank c = false ∧ c ≠ '\x7d'

instance (s : String) : Decidable (StartsLine s) :=
  decidable_of_iff (s.toList.head?.any fun c => !isBlank c && decide (c ≠ '\x7d')) (by
    simp [StartsLine, Option.any_eq_true])

theorem StartsLine.append {s : String} (h : StartsLine s) (t : String) : StartsLine (s ++ t) := by
  obtain ⟨c, hc, hstart⟩ := h
  refine ⟨c, ?_, hstart⟩
  rw [String.toList_append, List.head?_append, Option.mem_def.mp hc]
  rfl

theorem StartsLine.of_head {s : String} {c : Char} (h : s.toList.head? = some c)
    (hc : isBlank c = false ∧ c ≠ '\x7d') : StartsLine s := ⟨c, h, hc⟩

/-- The text stands on one line and begins with a character that is no blank and no closing brace. -/
structure OneLine (s : String) : Prop where
  starts : StartsLine s
  unbroken : Lacks '\n' s

theorem OneLine.append {s t : String} (h : OneLine s) (ht : Lacks '\n' t) : OneLine (s ++ t) :=
  ⟨h.starts.append t, h.unbroken.append ht⟩

/-- The line break is a control character. -/
theorem break_control : '\n'.toNat < 32 := by decide

/-! ### The kinds of lines -/

section BraceText

theorem closesBrace_of_startsLine {s : String} (h : StartsLine s) : closesBrace s.toList = false := by
  obtain ⟨c, hc, hblank, hne⟩ := h
  cases hs : s.toList with
  | nil => simp [hs] at hc
  | cons d rest =>
      obtain rfl : d = c := by simpa [hs] using hc
      rw [closesBrace, List.dropWhile_cons_of_neg (by simp [hblank])]
      simpa using hne

theorem opensBrace_append (s : String) {t : String} {c : Char} (h : t.toList.getLast? = some c) :
    opensBrace (s ++ t).toList = (c == '\x7b') := by
  rw [opensBrace, String.toList_append, List.getLast?_append, h]
  rfl

theorem OneLine.starts_blank {s : String} (h : OneLine s) (t : String) :
    ∃ c ∈ (s ++ t).toList.head?, isBlank c = false := by
  obtain ⟨c, hc, hblank, -⟩ := h.starts.append t
  exact ⟨c, hc, hblank⟩

/-- A line that begins with no brace and ends with the given text. -/
theorem OneLine.ending {s t : String} {c : Char} (h : OneLine s) (ht : Lacks '\n' t)
    (hlast : t.toList.getLast? = some c) : BraceText (s ++ t) false (c == '\x7b') where
  starts := h.starts_blank t
  closes := closesBrace_of_startsLine (h.starts.append t)
  opens := opensBrace_append s hlast
  unbroken := h.unbroken.append ht

theorem OneLine.plain {s : String} (h : OneLine s) : BraceText (s ++ ";") false false :=
  h.ending (c := ';') (by decide) rfl

theorem OneLine.opener {s : String} (h : OneLine s) : BraceText (s ++ " \x7b") false true :=
  h.ending (c := '\x7b') (by decide) rfl

/-- A line that begins with a closing brace and ends with the given text. -/
theorem BraceText.of_close {s t : String} {c : Char} (hs : Lacks '\n' s) (ht : Lacks '\n' t)
    (hlast : t.toList.getLast? = some c) : BraceText ("\x7d" ++ (s ++ t)) true (c == '\x7b') where
  starts := ⟨'\x7d', by simp, by decide⟩
  closes := by simp [closesBrace, isBlank]
  opens := by
    rw [← String.append_assoc]
    exact opensBrace_append _ hlast
  unbroken := .append (by decide) (hs.append ht)

theorem BraceText.closer : BraceText "\x7d" true false :=
  ⟨⟨'\x7d', by decide, by decide⟩, by decide, by decide, by decide⟩

theorem BraceText.open : BraceText "\x7b" false true :=
  ⟨⟨'\x7b', by decide, by decide⟩, by decide, by decide, by decide⟩

end BraceText

/-! ### Words and literals in colour -/

theorem mem_repaint {code : List Char} {c : Char} (hcode : c ∉ code) (hplain : c ∉ plainCode) :
    ∀ xs : List Char, c ∉ xs → c ∉ repaint code xs := by
  intro xs
  fun_induction repaint code xs with
  | case1 rest ih =>
      intro hxs
      simp only [List.mem_append, not_or]
      exact ⟨⟨hplain, hcode⟩, ih (by simp_all)⟩
  | case2 c' rest _ ih =>
      intro hxs
      obtain ⟨hc, hrest⟩ : c ≠ c' ∧ c ∉ rest := by simpa using hxs
      simpa [hc] using ih hrest
  | case3 => exact id

/-- A text in a colour has no line break more. -/
theorem lacks_painted {color s : String} (hcolor : Lacks '\n' color) (h : Lacks '\n' s) :
    Lacks '\n' (painted color s) := by
  have hcode : '\n' ∉ ['\x1b', '['] ++ color.toList ++ ['m'] := by
    simpa [Lacks] using hcolor
  have hplain : '\n' ∉ plainCode := by decide
  simp only [Lacks, painted, String.toList_ofList, List.mem_append, not_or]
  exact ⟨⟨by simpa using hcode, mem_repaint hcode hplain _ h⟩, hplain⟩

theorem startsLine_painted (color s : String) : StartsLine (painted color s) :=
  .of_head (c := '\x1b') (by simp [painted]) (by decide)

variable (useColors : Bool)

theorem oneLine_keyword {s : String} (h : OneLine s) : OneLine (keyword useColors s) := by
  cases useColors with
  | false => exact h
  | true => exact ⟨startsLine_painted _ _, lacks_painted (by decide) h.unbroken⟩

theorem lacks_literal {s : String} (h : Lacks '\n' s) : Lacks '\n' (literal useColors s) := by
  cases useColors with
  | false => exact h
  | true => exact lacks_painted (by decide) h

theorem startsLine_literal {s : String} (h : StartsLine s) : StartsLine (literal useColors s) := by
  cases useColors with
  | false => exact h
  | true => exact startsLine_painted _ _

/-! ### Types -/

theorem CType.startsLine_joinWords {quals base : String} (inner : String)
    (hquals : quals = "" ∨ StartsLine quals) (hbase : StartsLine base) :
    StartsLine (joinWords quals base inner) := by
  unfold joinWords
  obtain rfl | h := hquals
  · rw [if_pos (by decide), String.empty_append]
    exact hbase.append _
  · refine .append (.append ?_ _) _
    split
    · next hempty =>
        obtain ⟨c, hc, -⟩ := h
        rw [String.isEmpty_iff.mp hempty] at hc
        cases hc
    · exact h.append " "

theorem Quals.startsLine_spelling (q : Quals) : q.spelling = "" ∨ StartsLine q.spelling := by
  obtain ⟨isConst, isVolatile, isRestrict⟩ := q
  cases isConst <;> cases isVolatile <;> cases isRestrict <;> decide

/-- A declarator begins with a qualifier or the name of a type. -/
theorem CType.startsLine_declarator (tagOf : DeclId → String) : ∀ (t : CType) (outer : Quals)
    (inner : String), StartsLine (t.declarator tagOf outer inner)
  | .builtin quals kind, outer, inner => by
    rw [declarator]
    exact startsLine_joinWords inner (Quals.startsLine_spelling _) (by cases kind <;> decide)
  | .record quals decl, outer, inner => by
    rw [declarator]
    exact startsLine_joinWords inner (Quals.startsLine_spelling _) (.append (by decide) _)
  | .pointer quals pointee, outer, inner => by
    rw [declarator]
    exact startsLine_declarator tagOf pointee .none _
  | .array quals element size, outer, inner => by
    rw [declarator]
    exact startsLine_declarator tagOf element _ _
  | .function _ result params isVariadic, outer, inner => by
    rw [declarator]
    exact startsLine_declarator tagOf result .none _

/-! ### Names -/

/-- The names of declarations are identifiers. -/
def Program.Identified (p : Program) : Prop := ∀ d < p.decls.size, isIdentifier (p.decl d).name

/-- An identifier is one word that begins with a letter or an underscore. -/
theorem oneLine_identifier {s : String} (h : isIdentifier s) : OneLine s := by
  unfold isIdentifier at h
  cases hs : s.toList with
  | nil => simp [hs] at h
  | cons c rest =>
      simp only [hs, Bool.and_eq_true, Bool.or_eq_true, beq_iff_eq, List.all_eq_true] at h
      obtain ⟨⟨hc, hrest⟩, -⟩ := h
      have hword : Lexeme.isWordChar c := by
        obtain hc | rfl := hc
        · simp [Lexeme.isWordChar, Char.isAlphanum, hc]
        · decide
      refine ⟨.of_head (c := c) (by simp [hs]) ⟨?_, ?_⟩, .of_word break_control ?_⟩
      · rw [isBlank, Bool.or_eq_false_iff, beq_eq_false_iff_ne, beq_eq_false_iff_ne]
        constructor <;> rintro rfl <;> revert hword <;> decide
      · rintro rfl
        revert hword
        decide
      · rw [hs]
        exact List.forall_mem_cons.mpr ⟨hword, hrest⟩

namespace Program

variable {p : Program}

namespace Identified

variable (h : p.Identified)

include h

theorem name (d : DeclId) : Lacks '\n' (p.decl d).name := by
  by_cases hd : d < p.decls.size
  · exact (oneLine_identifier (h d hd)).unbroken
  · have hnone : p.decl d = default := by simp [decl, Nat.le_of_not_lt hd]
    rw [hnone]
    decide

theorem declarator (t : QualType) {name : String} (hname : Lacks '\n' name) :
    OneLine (p.declarator t name) :=
  ⟨CType.startsLine_declarator _ _ _ _, CType.lacks_declarator break_control h.name _ _ hname⟩

theorem typeText (t : QualType) : Lacks '\n' (p.typeText t) := (h.declarator t .empty).unbroken

end Identified

end Program

/-! ### Expressions -/

namespace Term

open Piece (textOf)

variable {p : Program}

mutual

/-- A term is written on one line. -/
theorem unbroken_pieces (h : p.Identified) (showCasts useColors : Bool) : ∀ t : Term,
    Lacks '\n' (textOf useColors (t.pieces p showCasts useColors))
  | .integer value kind => by
    simpa [pieces, Piece.text] using
      lacks_literal useColors (.integer break_control value (integerSuffix_mem kind))
  | .floating value kind => by
    simpa [pieces, Piece.text] using
      lacks_literal useColors (.floating break_control value (floatingSuffix_mem kind))
  | .text value => by
    simpa [pieces, Piece.text] using lacks_literal useColors (.literalQuote break_control value)
  | .ref decl => by simpa [pieces, Piece.text] using h.name decl
  | .paren inner => by
    have ih := unbroken_pieces h showCasts useColors inner
    have hfixed : ∀ s ∈ ["(", ")"], Lacks '\n' s := by decide
    simp_all [pieces, Piece.text]
  | .unary op operand => by
    have ih := unbroken_pieces h showCasts useColors operand
    have hop : Lacks '\n' op.spelling := by cases op <;> decide
    have hblank : Lacks '\n' " " := by decide
    unfold pieces
    dsimp only
    split
    · simp [Piece.text, ih, hop]
    · split <;> simp [Piece.text, ih, hop, hblank]
  | .binary op lhs rhs => by
    have hl := unbroken_pieces h showCasts useColors lhs
    have hr := unbroken_pieces h showCasts useColors rhs
    have hop : Lacks '\n' op.spelling := by cases op <;> decide
    have hfixed : ∀ s ∈ [" ", ","], Lacks '\n' s := by decide
    unfold pieces
    dsimp only
    split <;> simp_all [Piece.text]
  | .cast style type operand => by
    have ih := unbroken_pieces h showCasts useColors operand
    have htype := h.typeText type
    have hfixed : ∀ s ∈ ["(", ")"], Lacks '\n' s := by decide
    unfold pieces
    dsimp only
    split
    · simp_all [Piece.text]
    · split
      · exact ih
      · split <;> simp_all [Piece.text]
  | .initList elements => by
    have ih := unbroken_commaSeparated h showCasts useColors elements
    have hfixed : ∀ s ∈ ["\x7b", "\x7d"], Lacks '\n' s := by decide
    simp_all [pieces, Piece.text]
  | .call callee args => by
    have hc := unbroken_pieces h showCasts useColors callee
    have ha := unbroken_commaSeparated h showCasts useColors args
    have hfixed : ∀ s ∈ ["(", ")"], Lacks '\n' s := by decide
    simp_all [pieces, Piece.text]

theorem unbroken_commaSeparated (h : p.Identified) (showCasts useColors : Bool) : ∀ ts : List Term,
    Lacks '\n' (textOf useColors (commaSeparated (piecesOf p showCasts useColors ts)))
  | [] => by simp [piecesOf, commaSeparated]
  | [t] => by simpa [piecesOf, commaSeparated] using unbroken_pieces h showCasts useColors t
  | t :: u :: ts => by
    have ht := unbroken_pieces h showCasts useColors t
    have hts := unbroken_commaSeparated h showCasts useColors (u :: ts)
    have hfixed : ∀ s ∈ [",", " "], Lacks '\n' s := by decide
    simp_all [piecesOf, commaSeparated, Piece.text]

end

end Term

/-- Digits and suffixes begin no line with a blank or a brace. -/
theorem startsLine_of_constant {s : String} (h : Constant s.toList) : StartsLine s := by
  obtain ⟨c, rest, hs, hc⟩ := h.eq_cons
  refine .of_head (c := c) (by simp [hs]) ⟨?_, ?_⟩
  · rw [isBlank, Bool.or_eq_false_iff, beq_eq_false_iff_ne, beq_eq_false_iff_ne]
    constructor <;> rintro rfl <;> revert hc <;> decide
  · rintro rfl
    revert hc
    decide

theorem startsLine_integer (value : Int) (kind : Option Builtin) :
    StartsLine (toString value ++ integerSuffix kind) := by
  by_cases h : value < 0
  · rw [toString_of_neg h, String.append_assoc]
    exact .append (by decide) _
  · exact startsLine_of_constant (constant_integer (by omega) (integerSuffix_mem kind))

theorem startsLine_floating (x : Binary64) (kind : Option Builtin) :
    StartsLine (floatingText x ++ floatingSuffix kind) := by
  have hmagnitude := startsLine_of_constant (x.constant_magnitude .up (floatingSuffix_mem kind))
  have hfixed : ∀ t ∈ ["-", "__builtin_nan(\"\")", "__builtin_inf()", "-__builtin_inf()"],
      StartsLine t := by decide
  unfold floatingText Binary64.text
  cases x.isNaN with
  | true => exact .append (hfixed _ (by simp)) _
  | false =>
      cases x.isFinite with
      | true =>
          cases x.isNegative with
          | true => exact .append (.append (hfixed _ (by simp)) _) _
          | false => exact hmagnitude
      | false => cases x.isNegative <;> exact .append (hfixed _ (by simp)) _

namespace Program

open Piece (textOf)

variable {p : Program}

/-- An expression begins with its leftmost leaf or what stands before it. -/
theorem Printable.exprText_startsLine (h : p.Printable) (names : p.Identified)
    (showCasts useColors : Bool) (e : ExprId) : StartsLine (p.exprText showCasts useColors e) := by
  unfold exprText
  induction e using Nat.strongRecOn with
  | ind e ih =>
      have part : ∀ x ∈ (p.expr e).kind.parts,
          StartsLine (textOf useColors ((p.term x).pieces p showCasts useColors)) := fun x hx =>
        ih x (h.ordered e x hx)
      rw [h.ordered.term_eq, termLevel]
      cases hk : (p.expr e).kind with
      | integer value =>
          simpa [Term.pieces, Piece.text] using startsLine_literal useColors (startsLine_integer value _)
      | floating value =>
          simpa [Term.pieces, Piece.text] using startsLine_literal useColors (startsLine_floating value _)
      | text value =>
          have hquote : StartsLine (literalQuote value) :=
            .of_head (c := '"') (by simp [literalQuote]) (by decide)
          simpa [Term.pieces, Piece.text] using startsLine_literal useColors hquote
      | ref d =>
          simpa [Term.pieces, Piece.text] using (oneLine_identifier (names d (h.refs e d hk))).starts
      | paren inner =>
          simp only [Term.pieces, List.cons_append, Piece.textOf_cons]
          exact (show StartsLine "(" by decide).append _
      | unary op operand =>
          have hspelling : StartsLine op.spelling := by cases op <;> decide
          simp only [Term.pieces]
          split
          · rw [Piece.textOf_append]
            exact (part operand (by simp [hk, ExprKind.parts])).append _
          · split
            · rw [Piece.textOf_cons]
              exact hspelling.append _
            · rw [Piece.textOf_cons]
              exact hspelling.append _
      | binary op lhs rhs =>
          have hl := part lhs (by simp [hk, ExprKind.parts])
          simp only [Term.pieces]
          split
          · rw [Piece.textOf_append]
            exact hl.append _
          · rw [Piece.textOf_append]
            exact hl.append _
      | cast style c operand =>
          have ho := part operand (by simp [hk, ExprKind.parts])
          have hcast : ∀ (t : QualType) (rest : List Piece),
              StartsLine (textOf useColors (.castTo (p.typeText t) :: rest)) := by
            intro t rest
            rw [Piece.textOf_cons]
            exact (((show StartsLine "(" by decide).append _).append _).append _
          cases style with
          | explicit => exact hcast _ _
          | implicit =>
              simp only [Term.pieces]
              split
              · exact ho
              · split <;> exact hcast _ _
      | initList elements =>
          simp only [Term.pieces, List.cons_append, Piece.textOf_cons]
          exact (show StartsLine "\x7b" by decide).append _
      | call callee args =>
          simp only [Term.pieces, List.append_assoc, Piece.textOf_append]
          exact (part callee (by simp [hk, ExprKind.parts])).append _

theorem Printable.exprText_oneLine (h : p.Printable) (names : p.Identified)
    (showCasts useColors : Bool) (e : ExprId) : OneLine (p.exprText showCasts useColors e) :=
  ⟨h.exprText_startsLine names showCasts useColors e, Term.unbroken_pieces names showCasts useColors _⟩

/-! ### Declarations -/

/-- The head of a function. -/
theorem Identified.functionHeader (names : p.Identified) {id : DeclId} {text : String}
    (h : p.functionHeader id = .ok text) : OneLine text := by
  unfold Program.functionHeader at h
  cases hk : (p.decl id).kind with
  | function type params body locals =>
      cases hparts : p.functionParts? type with
      | none => simp [hk, hparts] at h
      | some parts =>
          simp only [hk, hparts] at h
          cases h
          have hopen : Lacks '\n' "(" := by decide
          refine names.declarator _ ((((names.name id).append hopen).append
            (.parameters break_control (fun x hx => ?_) _)).append (by decide))
          split at hx
          · obtain ⟨y, -, rfl⟩ := List.mem_map.mp hx
            exact (names.declarator _ (names.name _)).unbroken
          · obtain ⟨t, -, rfl⟩ := List.mem_map.mp hx
            exact names.typeText t
  | _ => simp [hk] at h

/-- A variable with its initial value. -/
theorem Identified.varText (names : p.Identified) {showCasts useColors : Bool} {id : DeclId}
    {text : String} (h : p.varText showCasts useColors id = .ok text) : OneLine text := by
  unfold Program.varText at h
  cases hk : (p.decl id).kind with
  | var type init storage =>
      simp only [hk] at h
      cases h
      have hdecl := names.declarator type (names.name id)
      have hinit : Lacks '\n' (init.elim "" fun e => " = " ++ p.exprText showCasts useColors e) := by
        cases init with
        | none => exact .empty
        | some e => exact .append (by decide) (Term.unbroken_pieces names showCasts useColors _)
      cases hword : storage.keyword? with
      | none => exact hdecl.append hinit
      | some word =>
          have hline : OneLine word := by
            cases storage <;> cases hword <;> exact ⟨by decide, by decide⟩
          exact (((oneLine_keyword useColors hline).append (by decide)).append hdecl.unbroken).append hinit
  | _ => simp [hk] at h

end Program

end Readback
