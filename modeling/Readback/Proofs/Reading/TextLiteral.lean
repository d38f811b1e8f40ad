import Mathlib.Data.List.TakeWhile
import Readback.Layout.Expr
import Readback.Proofs.Typing.Decay

/-! # Text literals as C reads them

C reads a string literal from its opening quote to the first quote that is not escaped, and each
character or escape sequence in it stands for bytes.

* `simpleEscape?` and `escape?` are the escape sequences: a backslash is followed by a letter or mark of
  its own or by octal digits, of which up to three belong to the escape. `literalBody?` reads the
  characters up to the closing quote, and `textLiteral?` the literal that a text begins with, along with
  what follows it.
* A text is written byte by byte: what is written for one byte is read as that byte, whatever comes
  after it (`literalBody?_literalByte`). Letters and marks that are escaped are no digits
  (`escape?_simple`), and octal escapes have all their three digits, so a digit of the text behind one
  is not taken for part of it (`escape?_octal`).
* So the literal is read as the bytes of the text, up to its last quote, whatever follows it
  (`textLiteral?_literalQuote`). Quotes within the text are escaped and do not end it.
* Bytes that are no visible characters are written in octal digits (`literalByte_visible`), so a literal
  has only printable ASCII characters, whatever the text.

The main result is `Program.text_reads_back`: a literal can be made of every text in every program, its
type is an array of `char` with room for a zero behind the bytes of the text (`text_ok`), and what is
written for it is read as these bytes. Characters outside of ASCII count as the bytes of their UTF-8
form throughout. -/

namespace Readback

/-! ### The literals of C -/

/-- Whether a character is a digit below eight. -/
def isOctalDigit (c : Char) : Bool := '0' ≤ c && c ≤ '7'

/-- The byte that a letter or mark behind a backslash stands for. -/
def simpleEscape? : Char → Option UInt8
  | '\x27' => some 0x27
  | '"' => some 0x22
  | '?' => some 0x3F
  | '\\' => some 0x5C
  | 'a' => some 0x07
  | 'b' => some 0x08
  | 'f' => some 0x0C
  | 'n' => some 0x0A
  | 'r' => some 0x0D
  | 't' => some 0x09
  | 'v' => some 0x0B
  | _ => none

/-- The byte of an escape sequence, from behind its backslash, and what follows it. Octal digits belong
to it as far as they go, but no more than three. -/
def escape? (text : List Char) : Option (UInt8 × List Char) :=
  let digits := (text.take 3).takeWhile isOctalDigit
  if digits.isEmpty then
    match text with
    | [] => none
    | c :: rest => (simpleEscape? c).map fun b => (b, rest)
  else
    let n := Nat.ofDigitChars 8 digits 0
    if n < 256 then some (UInt8.ofNat n, text.drop digits.length) else none

theorem length_le_of_escape? {text rest : List Char} {b : UInt8} (h : escape? text = some (b, rest)) :
    rest.length ≤ text.length := by
  unfold escape? at h
  dsimp only at h
  split at h
  · cases text with
    | nil => cases h
    | cons c text =>
        obtain ⟨b', -, heq⟩ := Option.map_eq_some_iff.mp h
        obtain ⟨-, rfl⟩ := Prod.mk.inj heq
        exact Nat.le_succ _
  · split at h
    · obtain ⟨-, rfl⟩ := Prod.mk.inj (Option.some.inj h)
      rw [List.length_drop]
      exact Nat.sub_le _ _
    · cases h

/-- The bytes of a literal, from behind its opening quote, and what follows its closing quote.
Characters outside escape sequences stand for themselves. -/
def literalBody? : List Char → Option (List UInt8 × List Char)
  | [] => none
  | c :: rest =>
    if c = '"' then some ([], rest)
    else if c = '\n' then none
    else if c = '\\' then
      match _ : escape? rest with
      | none => none
      | some (b, after) => (literalBody? after).map fun x => (b :: x.1, x.2)
    else (literalBody? rest).map fun x => (String.utf8EncodeChar c ++ x.1, x.2)
termination_by text => text.length
decreasing_by
  · next h => exact Nat.lt_succ_of_le (length_le_of_escape? h)
  · exact Nat.lt_succ_self _

/-- The bytes of the string literal that a text begins with, and what follows it. -/
def textLiteral? : List Char → Option (List UInt8 × List Char)
  | '"' :: rest => literalBody? rest
  | _ => none

/-! ### Reading one byte -/

section Bytes

variable {c : Char} {b : UInt8} (rest : List Char)

theorem literalBody?_quote : literalBody? ('"' :: rest) = some ([], rest) := by
  rw [literalBody?, if_pos rfl]

theorem literalBody?_escape {text after : List Char} (h : escape? text = some (b, after)) :
    literalBody? ('\\' :: text) = (literalBody? after).map fun x => (b :: x.1, x.2) := by
  rw [literalBody?, if_neg (by decide), if_neg (by decide), if_pos rfl]
  split
  · next hnone =>
      rw [h] at hnone
      cases hnone
  · next hsome =>
      rw [h] at hsome
      cases hsome
      rfl

/-- Letters and marks that are escaped are no digits. -/
theorem escape?_simple (h : simpleEscape? c = some b) : escape? (c :: rest) = some (b, rest) := by
  have hdigit : isOctalDigit c = false := by
    unfold simpleEscape? at h
    split at h <;> first
      | rfl
      | cases h
  have hnone : ((c :: rest).take 3).takeWhile isOctalDigit = [] := by
    rw [List.take_succ_cons, List.takeWhile_cons, hdigit]
    rfl
  unfold escape?
  rw [hnone]
  simp [h]

/-- After three digits an octal escape is at its end. -/
theorem escape?_octal {ds : List Char} (hlength : ds.length = 3) (hds : ds.all isOctalDigit)
    (hvalue : Nat.ofDigitChars 8 ds 0 = b.toNat) : escape? (ds ++ rest) = some (b, rest) := by
  have hthree : ((ds ++ rest).take 3).takeWhile isOctalDigit = ds := by
    rw [← hlength, List.take_left]
    exact List.takeWhile_eq_self_iff.mpr (List.all_eq_true.mp hds)
  have hnonempty : ds.isEmpty = false := by
    cases ds with
    | nil => cases hlength
    | cons d ds => rfl
  unfold escape?
  simp [hthree, hnonempty, hvalue, b.toNat_lt]

/-- What is written for a byte is read as the byte, whatever follows. -/
theorem literalBody?_literalByte (b : UInt8) :
    literalBody? (literalByte b ++ rest) = (literalBody? rest).map fun x => (b :: x.1, x.2) := by
  have simple {c : Char} (h : simpleEscape? c = some b) : literalBody? (['\\', c] ++ rest) =
      (literalBody? rest).map fun x => (b :: x.1, x.2) :=
    literalBody?_escape (escape?_simple rest h)
  have eq_of_toNat {n : Nat} (hn : b.toNat = n) : UInt8.ofNat n = b := by
    rw [← hn, UInt8.ofNat_toNat]
  unfold literalByte
  dsimp only
  split_ifs with hquote hbackslash hline htab hreturn hvisible
  · exact simple (congrArg some (eq_of_toNat hquote))
  · exact simple (congrArg some (eq_of_toNat hbackslash))
  · exact simple (congrArg some (eq_of_toNat hline))
  · exact simple (congrArg some (eq_of_toNat htab))
  · exact simple (congrArg some (eq_of_toNat hreturn))
  · have hplain : ∀ n < 0x7F, 0x20 ≤ n ∧ n ≠ 0x22 ∧ n ≠ 0x5C → Char.ofNat n ≠ '"' ∧
        Char.ofNat n ≠ '\n' ∧ Char.ofNat n ≠ '\\' ∧
        String.utf8EncodeChar (Char.ofNat n) = [UInt8.ofNat n] := by decide +kernel
    obtain ⟨hne, hne', hne'', hbytes⟩ :=
      hplain b.toNat (Nat.lt_succ_of_le hvisible.2) ⟨hvisible.1, hquote, hbackslash⟩
    rw [List.singleton_append, literalBody?, if_neg hne, if_neg hne', if_neg hne'', hbytes,
      UInt8.ofNat_toNat]
    rfl
  · have hdigits : ∀ n < 256, [digitChar (n / 64), digitChar (n / 8 % 8), digitChar (n % 8)].all
          isOctalDigit ∧ Nat.ofDigitChars 8
            [digitChar (n / 64), digitChar (n / 8 % 8), digitChar (n % 8)] 0 = n := by decide +kernel
    obtain ⟨hall, hvalue⟩ := hdigits b.toNat b.toNat_lt
    exact literalBody?_escape (escape?_octal rest rfl hall hvalue)

theorem literalBody?_bytes (bs : List UInt8) :
    literalBody? (bs.flatMap literalByte ++ '"' :: rest) = some (bs, rest) := by
  induction bs with
  | nil => exact literalBody?_quote rest
  | cons b bs ih =>
      rw [List.flatMap_cons, List.append_assoc, literalBody?_literalByte, ih]
      rfl

end Bytes

/-! ### Whole literals -/

theorem toList_literalQuote (s : String) :
    (literalQuote s).toList = '"' :: (utf8Bytes s).flatMap literalByte ++ ['"'] :=
  String.toList_ofList ..

/-- A literal is read as the bytes of its text and ends at its last quote, whatever follows. -/
theorem textLiteral?_literalQuote (s : String) (rest : List Char) :
    textLiteral? ((literalQuote s).toList ++ rest) = some (utf8Bytes s, rest) := by
  rw [toList_literalQuote, List.cons_append, List.cons_append, List.append_assoc]
  exact literalBody?_bytes rest (utf8Bytes s)

-- The digit after a control character does not run into its escape.
example : (literalQuote "\x011").toList = "\"\\0011\"".toList := by decide +kernel

/-- Bytes that are no visible characters are written in octal digits. -/
theorem literalByte_visible (b : UInt8) : ∀ c ∈ literalByte b, 0x20 ≤ c.toNat ∧ c.toNat ≤ 0x7E := by
  have hchar : ∀ n < 0x7F, (Char.ofNat n).toNat = n := by decide +kernel
  have hdigit : ∀ n < 8, 0x20 ≤ (digitChar n).toNat ∧ (digitChar n).toNat ≤ 0x7E := by decide
  have hbyte := b.toNat_lt
  unfold literalByte
  dsimp only
  split_ifs with _ _ _ _ _ hvisible <;>
    simp only [List.mem_cons, List.not_mem_nil, or_false, forall_eq_or_imp, forall_eq]
  · decide
  · decide
  · decide
  · decide
  · decide
  · rw [hchar _ (Nat.lt_succ_of_le hvisible.2)]
    exact hvisible
  · refine ⟨by decide, hdigit _ ?_, hdigit _ ?_, hdigit _ ?_⟩ <;> omega

theorem literalQuote_visible (s : String) :
    ∀ c ∈ (literalQuote s).toList, 0x20 ≤ c.toNat ∧ c.toNat ≤ 0x7E := by
  intro c hc
  simp only [toList_literalQuote, List.mem_cons, List.mem_append, List.mem_flatMap,
    List.not_mem_nil, or_false] at hc
  obtain (rfl | ⟨b, -, hb⟩) | rfl := hc
  · decide
  · exact literalByte_visible b c hb
  · decide

namespace Check

open Program Step

/-- A text literal is an array of `char` with room for a zero behind the bytes of the text. -/
theorem text_ok (p : Program) (s : String) :
    ∃ (r : Program) (element : QualType), Check.text s p = .ok p.exprs.size r ∧
      (r.expr p.exprs.size).kind = .text s ∧ r.builtin? element = some .char ∧
      r.node (r.expr p.exprs.size).type = .array element (some ((utf8Bytes s).length + 1)) := by
  obtain ⟨char, hchar⟩ : ∃ char, char = p.internNode (.builtin .char) := ⟨_, rfl⟩
  obtain ⟨type, htype⟩ : ∃ type, type = char.2.internNode
      (.array char.1 (some (s.utf8ByteSize + 1))) := ⟨_, rfl⟩
  have hknown : char.2.HasType char.1 := hchar ▸ Interned.intern_lt _ _
  have hlength : (utf8Bytes s).length = s.utf8ByteSize := rfl
  have helement : char.2.node char.1 = .builtin .char := hchar ▸ p.node_internNode_self _
  have hsize : type.2.exprs.size = p.exprs.size := by
    rw [htype, hchar]
    rfl
  refine ⟨(type.2.pushExpr (.text s) type.1 .lvalue).2, char.1, ?_, ?_, ?_, ?_⟩
  · rw [htype, hchar]
    rfl
  · rw [← hsize, expr_pushExpr_self]
  · show type.2.builtin? char.1 = _
    rw [builtin?, htype, node_internNode hknown, helement]
  · rw [← hsize, expr_pushExpr_self, hlength]
    show type.2.node type.1 = _
    rw [htype, node_internNode_self]

end Check

namespace Program

/-- **Text literals are read as what they were made from.** A literal can be made of every text in
every program. Its type is an array of `char` of the length of the text in bytes and one. What is written
for it has only printable ASCII characters, begins and ends with a quote, and is read by C as one string
literal that ends at its last character, whatever follows, and denotes the bytes of the text. Colours
only paint it. -/
theorem text_reads_back (p : Program) (s : String) :
    ∃ (r : Program) (element : QualType) (text : String), Check.text s p = .ok p.exprs.size r ∧
      (r.expr p.exprs.size).kind = .text s ∧ r.builtin? element = some .char ∧
      r.node (r.expr p.exprs.size).type = .array element (some ((utf8Bytes s).length + 1)) ∧
      (∀ showCasts, r.exprText showCasts false p.exprs.size = text) ∧
      (∀ showCasts, r.exprText showCasts true p.exprs.size = literal true text) ∧
      (∀ c ∈ text.toList, 0x20 ≤ c.toNat ∧ c.toNat ≤ 0x7E) ∧
      (∃ inner, text.toList = '"' :: inner ++ ['"']) ∧
      ∀ rest, textLiteral? (text.toList ++ rest) = some (utf8Bytes s, rest) := by
  obtain ⟨r, element, hrun, hkind, helement, htype⟩ := Check.text_ok p s
  have htext : ∀ showCasts useColors, r.exprText showCasts useColors p.exprs.size =
      literal useColors (literalQuote s) := by
    intro showCasts useColors
    have hterm : r.term p.exprs.size = .text s := by
      unfold term termAux
      dsimp only
      rw [hkind]
    rw [exprText, hterm]
    show Piece.textOf useColors [.literal (literalQuote s)] = _
    rw [Piece.textOf_cons, Piece.textOf_nil, String.append_empty]
    rfl
  exact ⟨r, element, literalQuote s, hrun, hkind, helement, htype, fun showCasts => htext showCasts false,
    fun showCasts => htext showCasts true, literalQuote_visible s, ⟨_, toList_literalQuote s⟩,
    textLiteral?_literalQuote s⟩

end Program

end Readback
