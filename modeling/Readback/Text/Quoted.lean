import Readback.Text.Visible

/-! # Quoted text

Two ways to write a text between double quotes. `listingQuote` is for listings of operations: it
works on characters and escapes those without a glyph of their own by their code point.
`literalQuote` is for string literals: it works on the bytes of the text and escapes each byte
outside printable ASCII by three octal digits, so that no escape can swallow the byte after it. -/

namespace Readback

/-! ### Listings -/

/-- The lower-case hexadecimal digits of a number. -/
def hexDigits (n : Nat) : List Char := Nat.toDigits 16 n

/-- A character inside a quoted text of a listing. -/
def listingChar (c : Char) : List Char :=
  if c = '\x00' then ['\\', '0']
  else if c = '\t' then ['\\', 't']
  else if c = '\r' then ['\\', 'r']
  else if c = '\n' then ['\\', 'n']
  else if c = '"' then ['\\', '"']
  else if c = '\\' then ['\\', '\\']
  else if isVisible c then [c]
  else ['\\', 'u', '\x7b'] ++ hexDigits c.toNat ++ ['\x7d']

/-- A text in quotes, as listings show it. -/
def listingQuote (s : String) : String :=
  String.ofList ('"' :: s.toList.flatMap listingChar ++ ['"'])

/-- A list of texts in brackets, as listings show it. -/
def listingQuotes (items : List String) : String :=
  "[" ++ ", ".intercalate (items.map listingQuote) ++ "]"

/-! ### String literals -/

/-- The bytes of a text in UTF-8. -/
def utf8Bytes (s : String) : List UInt8 := s.toUTF8.data.toList

/-- The digit for a number below ten. -/
def digitChar (n : Nat) : Char := Char.ofNat (48 + n)

/-- A byte inside a string literal. -/
def literalByte (b : UInt8) : List Char :=
  let n := b.toNat
  if n = 0x22 then ['\\', '"']
  else if n = 0x5C then ['\\', '\\']
  else if n = 0x0A then ['\\', 'n']
  else if n = 0x09 then ['\\', 't']
  else if n = 0x0D then ['\\', 'r']
  else if 0x20 ≤ n ∧ n ≤ 0x7E then [Char.ofNat n]
  else ['\\', digitChar (n / 64), digitChar (n / 8 % 8), digitChar (n % 8)]

/-- A text as a string literal. -/
def literalQuote (s : String) : String :=
  String.ofList ('"' :: (utf8Bytes s).flatMap literalByte ++ ['"'])

end Readback
