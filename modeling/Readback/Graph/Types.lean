import Readback.Data.Interned
import Readback.Quals

/-! # Types of the operation graph

A graph keeps its types in an interned table and refers to them by position. A `Shape` is one level
of a type; `ShapeTree` is a type unfolded to its leaves, on which the text of a type is defined by
recursion. Ids need not be in the table: an unknown id unfolds to `missing`. -/

namespace Readback

/-- The position of a type in a table. -/
abbrev TypeId := Nat

/-- The types that carry no signedness. -/
inductive PlainShape where
  | void
  | bool
  | half
  | bfloat16
  | float
  | double
  | longDouble
  | float128
deriving DecidableEq, Inhabited

/-- The integer types other than `bool`. -/
inductive IntegerShape where
  | char
  | short
  | int
  | long
  | longLong
  | int128
deriving DecidableEq, Inhabited

/-- What a type that is known by name only names. -/
inductive NamedShape where
  | record
  | enum
  | typedef
deriving DecidableEq, Inhabited

/-- One level of a type, with the ids of its parts. -/
inductive Shape where
  | plain (kind : PlainShape) (quals : Option Cv)
  | integer (kind : IntegerShape) (quals : Option Ucv)
  | pointer (element : TypeId) (quals : Option Quals)
  | array (element : TypeId) (size : Option Nat) (quals : Option Quals)
  | lvalue (element : TypeId)
  | function (inputs results : List TypeId)
  | named (kind : NamedShape) (name : String)
deriving DecidableEq, Inhabited

namespace Shape

/-- The integer types, `bool` among them. -/
def isInteger : Shape → Bool
  | .plain .bool _ => true
  | .integer _ _ => true
  | _ => false

/-- The floating types. -/
def isFloat : Shape → Bool
  | .plain .void _ => false
  | .plain .bool _ => false
  | .plain _ _ => true
  | _ => false

/-- The integer types marked as unsigned. -/
def isUnsigned : Shape → Bool
  | .integer _ (some q) => q.isUnsigned
  | _ => false

/-- The types of assignable locations. -/
def isLvalue : Shape → Bool
  | .lvalue _ => true
  | _ => false

/-- A pointer without qualifiers. -/
def pointerTo (element : TypeId) : Shape := .pointer element none

/-- An array of known size without qualifiers. -/
def arrayOf (element : TypeId) (size : Nat) : Shape := .array element (some size) none

/-- Plain `char`. -/
def char : Shape := .integer .char none

end Shape

/-- The names of the plain types in listings. -/
def PlainShape.name : PlainShape → String
  | .void => "void"
  | .bool => "bool"
  | .half => "half"
  | .bfloat16 => "bfloat16"
  | .float => "float"
  | .double => "double"
  | .longDouble => "longdouble"
  | .float128 => "float128"

/-- The names of the integer types in listings. -/
def IntegerShape.name : IntegerShape → String
  | .char => "char"
  | .short => "short"
  | .int => "int"
  | .long => "long"
  | .longLong => "longlong"
  | .int128 => "int128"

/-- The words for named types in listings. -/
def NamedShape.name : NamedShape → String
  | .record => "record"
  | .enum => "enum"
  | .typedef => "typedef"

/-! ### Unfolded types -/

/-- A type unfolded to its leaves. -/
inductive ShapeTree where
  | missing (id : TypeId)
  | plain (kind : PlainShape) (quals : Option Cv)
  | integer (kind : IntegerShape) (quals : Option Ucv)
  | pointer (element : ShapeTree) (quals : Option Quals)
  | array (element : ShapeTree) (size : Option Nat) (quals : Option Quals)
  | lvalue (element : ShapeTree)
  | function (inputs results : List ShapeTree)
  | named (kind : NamedShape) (name : String)
deriving Inhabited

namespace ShapeTree

/-- A type name with its flags in angle brackets; without flags there are no brackets. -/
def flagged (name : String) (flags : List String) : String :=
  if flags.isEmpty then "!hl." ++ name
  else "!hl." ++ name ++ "<" ++ ", ".intercalate flags ++ ">"

/-- The qualifiers of a derived type, each after a comma. -/
def trailing (quals : Option Quals) : String :=
  match quals with
  | some q => String.join (q.words.map (", " ++ ·))
  | none => ""

mutual

/-- The text of a type in listings. -/
def text : ShapeTree → String
  | .missing id => "!invalid<ty" ++ toString id ++ ">"
  | .plain kind quals => flagged kind.name (quals.elim [] Cv.words)
  | .integer kind quals => flagged kind.name (quals.elim [] Ucv.words)
  | .pointer element quals => "!hl.ptr<" ++ element.text ++ trailing quals ++ ">"
  | .array element size quals =>
    "!hl.array<" ++ size.elim "?" toString ++ ", " ++ element.text ++ trailing quals ++ ">"
  | .lvalue element => "!hl.lvalue<" ++ element.text ++ ">"
  | .function inputs results =>
    let results := texts results
    let answer := ", ".intercalate results
    "(" ++ ", ".intercalate (texts inputs) ++ ") -> "
      ++ if results.length = 1 then answer else "(" ++ answer ++ ")"
  | .named kind name => "!hl." ++ kind.name ++ "<\"" ++ name ++ "\">"

/-- The texts of several types. -/
def texts : List ShapeTree → List String
  | [] => []
  | t :: rest => t.text :: texts rest

end

end ShapeTree

/-- The types of a graph. -/
abbrev TypeTable := Interned Shape

namespace TypeTable

/-- Unfolds a type. The first argument bounds the depth. -/
def treeAux (t : TypeTable) : Nat → TypeId → ShapeTree
  | 0, id => .missing id
  | n + 1, id =>
    match t.get? id with
    | none => .missing id
    | some (.plain kind quals) => .plain kind quals
    | some (.integer kind quals) => .integer kind quals
    | some (.pointer element quals) => .pointer (t.treeAux n element) quals
    | some (.array element size quals) => .array (t.treeAux n element) size quals
    | some (.lvalue element) => .lvalue (t.treeAux n element)
    | some (.function inputs results) =>
      .function (inputs.map (t.treeAux n)) (results.map (t.treeAux n))
    | some (.named kind name) => .named kind name

/-- The type with the given id, unfolded. A type that does not contain itself is no deeper than the
table is long. -/
def tree (t : TypeTable) (id : TypeId) : ShapeTree := t.treeAux (t.size + 1) id

/-- The text of a type in listings. -/
def text (t : TypeTable) (id : TypeId) : String := (t.tree id).text

/-- The type of the value held at a location; other types stay as they are. -/
def stripLvalue (t : TypeTable) (id : TypeId) : TypeId :=
  match t.get? id with
  | some (.lvalue element) => element
  | _ => id

/-- The inputs and results of a function type. -/
def signature? (t : TypeTable) (id : TypeId) : Option (List TypeId × List TypeId) :=
  match t.get? id with
  | some (.function inputs results) => some (inputs, results)
  | _ => none

/-- The location type for a type; a location type is its own. -/
def asLvalue (t : TypeTable) (id : TypeId) : TypeId × TypeTable :=
  match t.get? id with
  | some (.lvalue _) => (id, t)
  | _ => t.intern (.lvalue id)

end TypeTable

end Readback
