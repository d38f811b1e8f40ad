import Readback.Json.Basic
import Readback.Number.Numeral

/-! # Reading JSON text

`Json.read?` reads one value and nothing after it. A lexer cuts the text into tokens and turns
literals into values; a parser on the tokens builds lists and objects, whose keys are strings.
Lexer and parser are bounded by the length of what they read. -/

namespace Readback

namespace Json

/-- A token: a string with its characters, if they are characters; another literal with its value;
or a mark. -/
inductive Token where
  | text (value : Option String)
  | literal (value : Json)
  | openList
  | closeList
  | openObject
  | closeObject
  | comma
  | colon

/-! ### Strings -/

/-- The value of a hexadecimal digit. -/
def hexValue? (c : Char) : Option Nat :=
  if '0' ≤ c ∧ c ≤ '9' then some (c.toNat - 48)
  else if 'a' ≤ c ∧ c ≤ 'f' then some (c.toNat - 87)
  else if 'A' ≤ c ∧ c ≤ 'F' then some (c.toNat - 55)
  else none

/-- The 16-bit unit named by four hexadecimal digits. -/
def unit? (a b c d : Char) : Option Nat := do
  let a ← hexValue? a
  let b ← hexValue? b
  let c ← hexValue? c
  let d ← hexValue? d
  return ((a * 16 + b) * 16 + c) * 16 + d

/-- The character that a one-letter escape stands for. -/
def escape? (c : Char) : Option Char :=
  match c with
  | '"' => some '"'
  | '\\' => some '\\'
  | '/' => some '/'
  | 'b' => some '\x08'
  | 'f' => some '\x0c'
  | 'n' => some '\n'
  | 'r' => some '\r'
  | 't' => some '\t'
  | _ => none

/-- The code units of a string body up to its closing quote, and the text after that. -/
def body? : List Char → Option (List Nat × List Char)
  | [] => none
  | '"' :: rest => some ([], rest)
  | '\\' :: 'u' :: a :: b :: c :: d :: rest => do
    let u ← unit? a b c d
    let (us, rest) ← body? rest
    return (u :: us, rest)
  | '\\' :: e :: rest => do
    let e ← escape? e
    let (us, rest) ← body? rest
    return (e.toNat :: us, rest)
  | c :: rest =>
    if c.toNat < 0x20 then none
    else do
      let (us, rest) ← body? rest
      return (c.toNat :: us, rest)

/-- The characters of a sequence of code units. Two surrogates in a row make one character; a
surrogate alone makes none. -/
def characters? : List Nat → Option (List Char)
  | [] => some []
  | u :: rest =>
    if 0xD800 ≤ u ∧ u < 0xDC00 then
      match rest with
      | v :: rest =>
        if 0xDC00 ≤ v ∧ v < 0xE000 then
          (characters? rest).map (Char.ofNat (0x10000 + (u - 0xD800) * 0x400 + (v - 0xDC00)) :: ·)
        else none
      | [] => none
    else if 0xDC00 ≤ u ∧ u < 0xE000 then none
    else (characters? rest).map (Char.ofNat u :: ·)

/-! ### Numbers -/

/-- Whether a character is a decimal digit. -/
def isDigit (c : Char) : Bool := decide ('0' ≤ c ∧ c ≤ '9')

/-- The digits of the whole part of a number: a zero alone, or digits without a leading zero. -/
def whole? : List Char → Option (List Char × List Char)
  | '0' :: rest =>
    match rest with
    | c :: _ => if isDigit c then none else some (['0'], rest)
    | [] => some (['0'], [])
  | c :: rest =>
    if isDigit c then some (c :: rest.takeWhile isDigit, rest.dropWhile isDigit) else none
  | [] => none

/-- The digits after a point, none if there is no point. -/
def fraction? : List Char → Option (List Char × List Char)
  | '.' :: rest =>
    match rest.takeWhile isDigit with
    | [] => none
    | digits => some (digits, rest.dropWhile isDigit)
  | rest => some ([], rest)

/-- The power of ten after an exponent mark; `none` in the first place if there is no mark. -/
def exponent? : List Char → Option (Option Int × List Char)
  | c :: rest =>
    if c = 'e' ∨ c = 'E' then
      let (negative, rest) := match rest with
        | '-' :: rest => (true, rest)
        | '+' :: rest => (false, rest)
        | rest => (false, rest)
      match rest.takeWhile isDigit with
      | [] => none
      | digits =>
        let n : Int := numeral digits
        some (some (if negative then -n else n), rest.dropWhile isDigit)
    else some (none, c :: rest)
  | [] => some (none, [])

/-- The value of a number from its parts. A whole number stays an integer if it fits in 64 bits,
signed or unsigned, and all others are doubles, minus zero among them. A number beyond the doubles
has no value. -/
def number (negative : Bool) (whole fraction : List Char) (exponent : Option Int) : Json :=
  let n := numeral whole
  if fraction.isEmpty ∧ exponent.isNone ∧ ¬negative ∧ n < Nat.pow 2 64 then .int n
  else if fraction.isEmpty ∧ exponent.isNone ∧ negative ∧ 0 < n ∧ n ≤ Nat.pow 2 63 then .int (-n)
  else
    let x := Binary64.ofNumeral negative whole fraction (exponent.getD 0)
    if x.isFinite then .float x else .void

/-- A number and the text after it. -/
def number? (cs : List Char) : Option (Json × List Char) := do
  let (negative, cs) := match cs with
    | '-' :: rest => (true, rest)
    | rest => (false, rest)
  let (whole, cs) ← whole? cs
  let (fraction, cs) ← fraction? cs
  let (exponent, cs) ← exponent? cs
  return (number negative whole fraction exponent, cs)

/-! ### Tokens -/

/-- Whether a character may stand between tokens. -/
def isBlank (c : Char) : Bool := c == ' ' || c == '\n' || c == '\t' || c == '\r'

/-- The token at the front of a text without leading blanks, and the text after it. -/
def token? : List Char → Option (Token × List Char)
  | '[' :: rest => some (.openList, rest)
  | ']' :: rest => some (.closeList, rest)
  | '\x7b' :: rest => some (.openObject, rest)
  | '\x7d' :: rest => some (.closeObject, rest)
  | ',' :: rest => some (.comma, rest)
  | ':' :: rest => some (.colon, rest)
  | 'n' :: 'u' :: 'l' :: 'l' :: rest => some (.literal .null, rest)
  | 't' :: 'r' :: 'u' :: 'e' :: rest => some (.literal (.bool true), rest)
  | 'f' :: 'a' :: 'l' :: 's' :: 'e' :: rest => some (.literal (.bool false), rest)
  | '"' :: rest => do
    let (units, rest) ← body? rest
    return (.text ((characters? units).map String.ofList), rest)
  | cs => do
    let (n, rest) ← number? cs
    return (.literal n, rest)

/-- The tokens of a text; the first argument bounds their number. -/
def tokensAux : Nat → List Char → Option (List Token)
  | 0, cs => if (cs.dropWhile isBlank).isEmpty then some [] else none
  | n + 1, cs =>
    match cs.dropWhile isBlank with
    | [] => some []
    | cs => do
      let (t, rest) ← token? cs
      let ts ← tokensAux n rest
      return t :: ts

/-- The tokens of a text. -/
def tokens? (s : String) : Option (List Token) := tokensAux s.length s.toList

/-! ### Values -/

mutual

/-- A value at the front of the tokens, and the tokens after it. -/
def valueAux : Nat → List Token → Option (Json × List Token)
  | 0, _ => none
  | n + 1, ts =>
    match ts with
    | .text s :: rest => some (s.elim .void .text, rest)
    | .literal j :: rest => some (j, rest)
    | .openList :: .closeList :: rest => some (.list [], rest)
    | .openList :: rest => itemsAux n rest []
    | .openObject :: .closeObject :: rest => some (.object [], rest)
    | .openObject :: rest => membersAux n rest true []
    | _ => none

/-- The items of a list from its next item on; `done` holds those before, latest first. -/
def itemsAux : Nat → List Token → List Json → Option (Json × List Token)
  | 0, _, _ => none
  | n + 1, ts, done => do
    let (j, rest) ← valueAux n ts
    match rest with
    | .comma :: rest => itemsAux n rest (j :: done)
    | .closeList :: rest => return (.list (j :: done).reverse, rest)
    | _ => none

/-- The members of an object from its next member on. A key is a string. An object with a key that
has no value has none itself; `sound` tells whether all keys so far have one. -/
def membersAux : Nat → List Token → Bool → List (String × Json) → Option (Json × List Token)
  | 0, _, _, _ => none
  | n + 1, ts, sound, done => do
    let (key, ts) ← match ts with
      | .text key :: .colon :: rest => some (key, rest)
      | _ => none
    let (j, rest) ← valueAux n ts
    let sound := sound && key.isSome
    let done := (key.getD "", j) :: done
    match rest with
    | .comma :: rest => membersAux n rest sound done
    | .closeObject :: rest => return (if sound then .object done.reverse else .void, rest)
    | _ => none

end

/-- The value that a text spells, if it spells exactly one. -/
def read? (s : String) : Option Json := do
  let ts ← tokens? s
  match valueAux (2 * ts.length + 1) ts with
  | some (j, []) => return j
  | _ => none

end Json

end Readback
