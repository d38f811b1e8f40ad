import Readback.Number.Binary64

/-! # JSON values

The tree that the interchange forms of graphs and programs are written in, and the readers for its
parts. Integers and doubles are kept apart. Members of an object stand in the order of the text and
may repeat a key; each reader says what it does with a repetition.

`void` stands for a literal that is well formed and has no value: a string with an unpaired
surrogate escape, a number beyond the doubles. It can be skipped and never read. -/

namespace Readback

/-- A JSON value. -/
inductive Json where
  | null
  | bool (b : Bool)
  | int (i : Int)
  | float (x : Binary64)
  | text (s : String)
  | list (items : List Json)
  | object (members : List (String × Json))
  | void
deriving Inhabited

namespace Json

/-! ### Readers -/

/-- The value of the last member with the given key. -/
def member? (key : String) : Json → Option Json
  | .object members => (members.reverse.find? fun m => m.1 == key).map Prod.snd
  | _ => none

/-- A truth value. -/
def bool? : Json → Option Bool
  | .bool b => some b
  | _ => none

/-- A text. -/
def text? : Json → Option String
  | .text s => some s
  | _ => none

/-- An integer. -/
def int? : Json → Option Int
  | .int i => some i
  | _ => none

/-- A natural number below `bound`. -/
def natBelow? (bound : Nat) : Json → Option Nat
  | .int (.ofNat n) => if n < bound then some n else none
  | _ => none

/-- A 32-bit index. -/
def index? : Json → Option Nat := natBelow? (Nat.pow 2 32)

/-- A 64-bit size. -/
def size? : Json → Option Nat := natBelow? (Nat.pow 2 64)

/-- A finite double; an integer is read as the nearest one. -/
def float? : Json → Option Binary64
  | .int i => some (Binary64.ofInt i)
  | .float x => some x
  | _ => none

/-- A list whose items are all read by `read`. -/
def listOf? {α : Type} (read : Json → Option α) : Json → Option (List α)
  | .list items => items.mapM read
  | _ => none

/-- The members of an object. -/
def members? : Json → Option (List (String × Json))
  | .object members => some members
  | _ => none

/-- The values of the named fields of a record. An object may hold further members and may leave
fields out, and no field may come twice; a list gives all fields in order. -/
def fields? (names : List String) : Json → Option (List (Option Json))
  | .object members =>
    if names.all fun n => (members.filter fun m => m.1 == n).length ≤ 1 then
      some (names.map fun n => (members.find? fun m => m.1 == n).map Prod.snd)
    else none
  | .list items => if items.length = names.length then some (items.map some) else none
  | _ => none

/-- The values of the named fields of a record that has to be an object. -/
def objectFields? (names : List String) (j : Json) : Option (List (Option Json)) := do
  let _ ← j.members?
  j.fields? names

/-- A field that must be there. -/
def required {α : Type} (read : Json → Option α) (field : Option Json) : Option α :=
  field.bind read

/-- A field that may be left out or null. -/
def optional {α : Type} (read : Json → Option α) : Option Json → Option (Option α)
  | none => some none
  | some .null => some none
  | some j => (read j).map some

/-- The tag of a choice and what is attached to it: a bare text, or an object of one member. -/
def choice? : Json → Option (String × Option Json)
  | .text tag => some (tag, none)
  | .object [(tag, content)] => some (tag, some content)
  | _ => none

/-- The content of a choice that carries none. -/
def bare? : Option Json → Option Unit
  | none => some ()
  | some .null => some ()
  | _ => none

/-- A choice that carries nothing, known by its tag. -/
def tag? {α : Type} (ofTag? : String → Option α) (j : Json) : Option α := do
  let (tag, content) ← j.choice?
  bare? content
  ofTag? tag

/-! ### Writers -/

/-- A value or null. -/
def ofOption {α : Type} (write : α → Json) : Option α → Json
  | none => .null
  | some a => write a

/-- A natural number. -/
def ofNat (n : Nat) : Json := .int n

/-- A natural number or null. -/
def ofNat? : Option Nat → Json := ofOption ofNat

/-- A text or null. -/
def ofText? {α : Type} (write : α → String) : Option α → Json := ofOption fun a => .text (write a)

/-- A list of truth values. -/
def ofBools (l : List Bool) : Json := .list (l.map .bool)

/-- A list of natural numbers. -/
def ofNats (l : List Nat) : Json := .list (l.map ofNat)

/-- A list of texts. -/
def ofTexts (l : List String) : Json := .list (l.map .text)

/-- A double. JSON has no numbers for infinities and NaNs, which become null. -/
def ofFloat (x : Binary64) : Json := if x.isFinite then .float x else .null

/-- A list that starts with the sort of what it describes. -/
def entry (sort : String) (parts : List Json) : Json := .list (.text sort :: parts)

/-- A choice with an attached value. -/
def tagged (tag : String) (content : Json) : Json := .object [(tag, content)]

/-! ### Integers of any size

An integer is written as its sign (-1, 0 or 1) and the 32-bit words of its magnitude, least
significant first. -/

/-- The 32-bit words of a number, least significant first and without a leading zero word. -/
def words (n : Nat) : List Nat :=
  if n = 0 then [] else n % Nat.pow 2 32 :: words (n / Nat.pow 2 32)
termination_by n
decreasing_by exact Nat.div_lt_self (Nat.pos_of_ne_zero ‹_›) (by decide)

/-- The number with the given words. -/
def ofWords (ws : List Nat) : Nat := ws.foldr (fun w n => w + Nat.pow 2 32 * n) 0

/-- The sign and words of an integer. -/
def ofInteger (i : Int) : Json := .list [.int i.sign, ofNats (words i.natAbs)]

/-- Reads an integer back from its sign and words. A zero sign gives zero whatever the words. -/
def integer? : Json → Option Int
  | .list [.int s, ws] =>
    if -1 ≤ s ∧ s ≤ 1 then (ws.listOf? index?).map fun ws => s * ofWords ws else none
  | _ => none

/-! ### Sorted members -/

mutual

/-- The value with the members of every object in ascending order of their keys; of members with
the same key the last one stays. -/
def sorted : Json → Json
  | .list items => .list (sortedItems items)
  | .object members => .object (sortedMembers members)
  | j => j

/-- `sorted` on every item. -/
def sortedItems : List Json → List Json
  | [] => []
  | j :: rest => j.sorted :: sortedItems rest

/-- The members in key order, each value `sorted`. -/
def sortedMembers : List (String × Json) → List (String × Json)
  | [] => []
  | (k, v) :: rest => enter k v.sorted (sortedMembers rest)
where
  /-- Enters a member before those with greater keys, unless its key is already there. -/
  enter (k : String) (v : Json) : List (String × Json) → List (String × Json)
    | [] => [(k, v)]
    | (k', v') :: rest =>
      if k = k' then (k', v') :: rest
      else if k < k' then (k, v) :: (k', v') :: rest
      else (k', v') :: enter k v rest

end

end Json

end Readback
