import Readback.Json.Basic
import Readback.Number.Decimal

/-! # Writing JSON text

`Json.render` writes a value without blanks. Control characters, quotes and backslashes in texts are
escaped and all other characters stand as they are. A double has its shortest text, with the even
one of two equally near decimals. -/

namespace Readback

namespace Json

/-- A character inside a string. -/
def renderChar (c : Char) : List Char :=
  if c = '"' then ['\\', '"']
  else if c = '\\' then ['\\', '\\']
  else if c.toNat < 0x20 then
    ['\\', 'u', '0', '0', Nat.digitChar (c.toNat / 16), Nat.digitChar (c.toNat % 16)]
  else [c]

/-- A text in quotes. -/
def renderText (s : String) : String :=
  String.ofList ('"' :: s.toList.flatMap renderChar ++ ['"'])

mutual

/-- The text of a value. -/
def render : Json → String
  | .null => "null"
  | .bool true => "true"
  | .bool false => "false"
  | .int i => toString i
  | .float x => x.text .even
  | .text s => renderText s
  | .list items => "[" ++ ",".intercalate (renderItems items) ++ "]"
  | .object members => "\x7b" ++ ",".intercalate (renderMembers members) ++ "\x7d"
  | .void => "null"

/-- The texts of the items of a list. -/
def renderItems : List Json → List String
  | [] => []
  | j :: rest => j.render :: renderItems rest

/-- The texts of the members of an object. -/
def renderMembers : List (String × Json) → List String
  | [] => []
  | (k, j) :: rest => (renderText k ++ ":" ++ j.render) :: renderMembers rest

end

end Json

end Readback
