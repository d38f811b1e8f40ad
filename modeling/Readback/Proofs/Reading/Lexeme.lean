import Readback.Builtin
import Readback.Quals

/-! # Lexemes of declarations

The text of a declaration is a sequence of words and of marks, which are single characters. Blanks
separate words and mean nothing else. A mark or a blank ends a word, so the lexemes of a text are
those before it and those after it (`lexemes_break`, `lexemes_blank`, `lexemes_enclosed`).

Some words belong to types: those that qualify them (`isQualifier`), those of the names of builtin types
(`isPlainWord`), and with these the ones that begin a record (`isReserved`). All others that are
spelled like names are identifiers (`isIdentifier`). Identifiers and numerals are one lexeme each
(`lexemes_identifier`, `lexemes_numeral`), and the names of builtin types are told apart by their words
(`Builtin.eq_of_words_eq`). -/

namespace Readback

/-- A word or a mark in the text of a declaration. -/
inductive Lexeme where
  | word (text : String)
  | star
  | lparen
  | rparen
  | lbracket
  | rbracket
  | comma
  | dot
  | stray (char : Char)
deriving DecidableEq, Inhabited

namespace Lexeme

/-- Whether a character belongs to words. -/
def isWordChar (c : Char) : Bool := c.isAlphanum || c == '_'

/-- The word of the given characters, if there are any. -/
def ofWord (w : List Char) : List Lexeme := if w.isEmpty then [] else [.word (String.ofList w)]

/-- What a character outside words stands for. -/
def ofChar : Char → List Lexeme
  | ' ' => []
  | '*' => [.star]
  | '(' => [.lparen]
  | ')' => [.rparen]
  | '[' => [.lbracket]
  | ']' => [.rbracket]
  | ',' => [.comma]
  | '.' => [.dot]
  | c => [.stray c]

/-- The lexemes of a text, of which the first word began with `pending`. -/
def scan (pending : List Char) : List Char → List Lexeme
  | [] => ofWord pending
  | c :: rest =>
    if isWordChar c then scan (pending ++ [c]) rest else ofWord pending ++ ofChar c ++ scan [] rest

theorem scan_break {c : Char} (hc : isWordChar c = false) (pending xs ys : List Char) :
    scan pending (xs ++ c :: ys) = scan pending xs ++ ofChar c ++ scan [] ys := by
  induction xs generalizing pending with
  | nil => simp [scan, hc]
  | cons x xs ih => cases hx : isWordChar x <;> simp [scan, hx, ih]

theorem scan_word {xs : List Char} (h : ∀ c ∈ xs, isWordChar c = true) (pending : List Char) :
    scan pending xs = ofWord (pending ++ xs) := by
  induction xs generalizing pending with
  | nil => simp [scan]
  | cons x xs ih =>
      rw [scan, if_pos (h x List.mem_cons_self), ih fun c hc => h c (List.mem_cons_of_mem x hc),
        List.append_assoc]
      rfl

end Lexeme

open Lexeme

/-- The lexemes of a text. -/
def lexemes (s : String) : List Lexeme := scan [] s.toList

@[simp] theorem lexemes_empty : lexemes "" = [] := rfl

theorem lexemes_break (a b : String) {c : Char} (hc : isWordChar c = false) :
    lexemes (a ++ String.singleton c ++ b) = lexemes a ++ ofChar c ++ lexemes b := by
  rw [lexemes, String.toList_append, String.toList_append, String.toList_singleton,
    List.append_assoc]
  exact scan_break hc [] a.toList b.toList

theorem lexemes_of_word {s : String} (h : ∀ c ∈ s.toList, isWordChar c = true) (hs : s ≠ "") :
    lexemes s = [.word s] := by
  rw [lexemes, scan_word h, ofWord, List.nil_append, if_neg (by simpa using hs),
    String.ofList_toList]

theorem lexemes_blank (a b : String) : lexemes (a ++ " " ++ b) = lexemes a ++ lexemes b :=
  (lexemes_break a b (c := ' ') rfl).trans (by simp [ofChar])

/-- A text between two marks, after another one. -/
theorem lexemes_enclosed (a b : String) {l r : Char} (hl : isWordChar l = false)
    (hr : isWordChar r = false) :
    lexemes (a ++ String.singleton l ++ b ++ String.singleton r) =
      lexemes a ++ (ofChar l ++ (lexemes b ++ ofChar r)) := by
  have h := lexemes_break (a ++ String.singleton l ++ b) "" hr
  rw [String.append_empty, lexemes_break a b hl, lexemes_empty, List.append_nil] at h
  rw [h, List.append_assoc, List.append_assoc]

/-! ### Words of types -/

/-- The words that qualify types. -/
def qualifierWords : List String := ["const", "volatile", "restrict"]

/-- The words of the names of builtin types. -/
def typeWords : List String :=
  ["void", "_Bool", "char", "signed", "unsigned", "short", "int", "long", "__int128", "__fp16",
    "__bf16", "float", "double", "__float128"]

/-- Whether a word qualifies types. -/
def isQualifier (s : String) : Bool := s ∈ qualifierWords

/-- Whether a word belongs to the spelling of builtin types. -/
def isPlainWord (s : String) : Bool := isQualifier s || s ∈ typeWords

/-- Whether a word belongs to types, and so is no identifier. -/
def isReserved (s : String) : Bool := isPlainWord s || s == "struct"

theorem isPlainWord_of_isQualifier {s : String} (h : isQualifier s = true) :
    isPlainWord s = true := by simp [isPlainWord, h]

theorem isReserved_of_isPlainWord {s : String} (h : isPlainWord s = true) :
    isReserved s = true := by simp [isReserved, h]

/-- Whether a text is an identifier. -/
def isIdentifier (s : String) : Bool :=
  match s.toList with
  | [] => false
  | c :: rest => (c.isAlpha || c == '_') && rest.all isWordChar && !isReserved s

theorem lexemes_identifier {s : String} (h : isIdentifier s = true) : lexemes s = [.word s] := by
  unfold isIdentifier at h
  cases hs : s.toList with
  | nil => simp [hs] at h
  | cons c rest =>
      rw [hs] at h
      simp only [Bool.and_eq_true, Bool.or_eq_true, List.all_eq_true] at h
      refine lexemes_of_word (fun x hx => ?_) (by rintro rfl; simp at hs)
      rw [hs] at hx
      obtain rfl | hx := List.mem_cons.mp hx
      · obtain hx | hx := h.1.1
        · simp [isWordChar, Char.isAlphanum, hx]
        · simp [isWordChar, hx]
      · exact h.1.2 x hx

theorem not_isReserved_of_isIdentifier {s : String} (h : isIdentifier s = true) :
    isReserved s = false := by
  unfold isIdentifier at h
  split at h
  · cases h
  · simp only [Bool.and_eq_true, Bool.not_eq_true'] at h
    exact h.2

theorem toList_numeral (n : Nat) : (toString n).toList = Nat.toDigits 10 n := by
  rw [Nat.toString_eq_ofList_toDigits, String.toList_ofList]

theorem numeral_injective {m n : Nat} (h : toString m = toString n) : m = n := by
  have hdigits : Nat.toDigits 10 m = Nat.toDigits 10 n := by
    rw [← toList_numeral, h, toList_numeral]
  rw [← Nat.ofDigitChars_ten_toDigits (n := m), hdigits, Nat.ofDigitChars_ten_toDigits]

theorem lexemes_numeral (n : Nat) : lexemes (toString n) = [.word (toString n)] := by
  refine lexemes_of_word (fun c hc => ?_) fun hn => Nat.toDigits_ne_nil (b := 10) (n := n) ?_
  · rw [toList_numeral] at hc
    simp [isWordChar, Char.isAlphanum, Nat.isDigit_of_mem_toDigits (by decide) (by decide) hc]
  · rw [← toList_numeral, hn, String.toList_empty]

/-- The words of the qualifiers of a type. -/
theorem lexemes_spelling (q : Quals) : lexemes q.spelling = q.words.map .word := by
  obtain ⟨c, v, r⟩ := q
  cases c <;> cases v <;> cases r <;> decide

namespace Builtin

/-- The words of the name of a builtin type. -/
def words : Builtin → List String
  | .void => ["void"]
  | .bool => ["_Bool"]
  | .char => ["char"]
  | .signedChar => ["signed", "char"]
  | .unsignedChar => ["unsigned", "char"]
  | .short => ["short"]
  | .unsignedShort => ["unsigned", "short"]
  | .int => ["int"]
  | .unsignedInt => ["unsigned", "int"]
  | .long => ["long"]
  | .unsignedLong => ["unsigned", "long"]
  | .longLong => ["long", "long"]
  | .unsignedLongLong => ["unsigned", "long", "long"]
  | .int128 => ["__int128"]
  | .unsignedInt128 => ["unsigned", "__int128"]
  | .half => ["__fp16"]
  | .bfloat16 => ["__bf16"]
  | .float => ["float"]
  | .double => ["double"]
  | .longDouble => ["long", "double"]
  | .float128 => ["__float128"]

theorem lexemes_name (k : Builtin) : lexemes k.name = k.words.map .word := by
  cases k <;> decide

theorem words_ne_nil (k : Builtin) : k.words ≠ [] := by
  cases k <;> decide

theorem words_subset (k : Builtin) : k.words ⊆ typeWords := by
  cases k <;> decide

/-- No two builtin types have the same words. -/
theorem eq_of_words_eq {k k' : Builtin} (h : k.words = k'.words) : k = k' := by
  have hfind : ∀ k : Builtin, all.find? (fun x => x.words = k.words) = some k := by
    intro k
    cases k <;> decide
  have := hfind k
  rw [h, hfind k'] at this
  exact (Option.some.inj this).symm

end Builtin

end Readback
