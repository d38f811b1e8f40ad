import Readback.Layout.Page
import Readback.Number.Decimal
import Readback.Program.Term
import Readback.Text.Quoted

/-! # Expressions as text

An expression is written as a sequence of pieces: tokens, each with its spelling, and blanks between
them. The text is the pieces one after the other, literals painted if colours are on. -/

namespace Readback

/-- A token or a blank. -/
inductive Piece where
  | literal (text : String)
  | ident (text : String)
  | symbol (text : String)
  | castTo (type : String)
  | blank
deriving DecidableEq, Inhabited

namespace Piece

/-- The text of a piece. -/
def text (useColors : Bool) : Piece → String
  | .literal text => Readback.literal useColors text
  | .ident text => text
  | .symbol text => text
  | .castTo type => "(" ++ type ++ ")"
  | .blank => " "

/-- The text of a sequence of pieces. -/
def textOf (useColors : Bool) (pieces : List Piece) : String :=
  String.join (pieces.map (text useColors))

@[simp] theorem textOf_nil (useColors : Bool) : textOf useColors [] = "" := rfl

@[simp] theorem textOf_cons (useColors : Bool) (piece : Piece) (rest : List Piece) :
    textOf useColors (piece :: rest) = piece.text useColors ++ textOf useColors rest := by
  simp [textOf, String.join_cons]

@[simp] theorem textOf_append (useColors : Bool) (xs ys : List Piece) :
    textOf useColors (xs ++ ys) = textOf useColors xs ++ textOf useColors ys := by
  induction xs with
  | nil => simp [textOf]
  | cons x xs ih => rw [List.cons_append, textOf_cons, textOf_cons, ih, String.append_assoc]

/-- The first character of the text of a sequence of pieces. -/
def firstChar? (useColors : Bool) (pieces : List Piece) : Option Char :=
  pieces.findSome? fun piece => (piece.text useColors).toList.head?

theorem firstChar?_cons {useColors : Bool} {piece : Piece} {c : Char}
    (h : (piece.text useColors).toList.head? = some c) (rest : List Piece) :
    firstChar? useColors (piece :: rest) = some c := by
  rw [firstChar?, List.findSome?_cons, h]

theorem firstChar?_append (useColors : Bool) (xs ys : List Piece) :
    firstChar? useColors (xs ++ ys) = (firstChar? useColors xs).or (firstChar? useColors ys) :=
  List.findSome?_append

theorem firstChar?_eq_head? (useColors : Bool) (pieces : List Piece) :
    firstChar? useColors pieces = (textOf useColors pieces).toList.head? := by
  simp only [firstChar?, textOf, String.toList_join]
  induction pieces with
  | nil => rfl
  | cons piece rest ih =>
    rw [List.findSome?_cons, List.map_cons, List.flatMap_cons, List.head?_append, ih]
    cases (piece.text useColors).toList.head? <;> rfl

end Piece

/-! ### Literals -/

/-- The suffix of an integer literal of a type. -/
def integerSuffix : Option Builtin → String
  | some .unsignedInt => "U"
  | some .long => "L"
  | some .unsignedLong => "UL"
  | some .longLong => "LL"
  | some .unsignedLongLong => "ULL"
  | _ => ""

/-- The suffix of a floating literal of a type. -/
def floatingSuffix : Option Builtin → String
  | some .float => "f"
  | some .longDouble => "L"
  | _ => ""

/-- A double as C writes it. Values that are not finite are calls of builtin functions. -/
def floatingText (x : Binary64) : String :=
  if x.isNaN then "__builtin_nan(\"\")"
  else if x.isFinite then x.text .up
  else if x.isNegative then "-__builtin_inf()"
  else "__builtin_inf()"

/-! ### Terms -/

/-- Whether an operator would run into the character after it: `- -x` must not become `--x`. -/
def runsInto (spelling : String) (next : Option Char) : Bool :=
  match spelling.toList.getLast?, next with
  | some a, some b => (a == '-' || a == '+') && a == b
  | _, _ => false

/-- Sequences of pieces with a comma and a blank between each two. -/
def commaSeparated : List (List Piece) → List Piece
  | [] => []
  | [ps] => ps
  | ps :: rest => ps ++ [.symbol ",", .blank] ++ commaSeparated rest

namespace Term

mutual

/-- The pieces of a term. Implicit casts are left out unless they are to be shown, and then an
operand that binds looser than a cast goes into parentheses. -/
def pieces (p : Program) (showCasts useColors : Bool) : Term → List Piece
  | .integer value kind => [.literal (toString value ++ integerSuffix kind)]
  | .floating value kind => [.literal (floatingText value ++ floatingSuffix kind)]
  | .text value => [.literal (literalQuote value)]
  | .ref decl => [.ident (p.decl decl).name]
  | .paren inner => .symbol "(" :: pieces p showCasts useColors inner ++ [.symbol ")"]
  | .unary op operand =>
    let inner := pieces p showCasts useColors operand
    if op.isSuffix then inner ++ [.symbol op.spelling]
    else if runsInto op.spelling (Piece.firstChar? useColors inner) then
      .symbol op.spelling :: .blank :: inner
    else .symbol op.spelling :: inner
  | .binary op lhs rhs =>
    let l := pieces p showCasts useColors lhs
    let r := pieces p showCasts useColors rhs
    if op = .comma then l ++ .symbol "," :: .blank :: r
    else l ++ .blank :: .symbol op.spelling :: .blank :: r
  | .cast style type operand =>
    let inner := pieces p showCasts useColors operand
    match style with
    | .explicit => .castTo (p.typeText type) :: inner
    | .implicit =>
      if !showCasts then inner
      else if operand.precedence < .unary then
        .castTo (p.typeText type) :: .symbol "(" :: inner ++ [.symbol ")"]
      else .castTo (p.typeText type) :: inner
  | .initList elements =>
    .symbol "\x7b" :: commaSeparated (piecesOf p showCasts useColors elements) ++ [.symbol "\x7d"]
  | .call callee args =>
    pieces p showCasts useColors callee
      ++ .symbol "(" :: commaSeparated (piecesOf p showCasts useColors args) ++ [.symbol ")"]

/-- The pieces of several terms. -/
def piecesOf (p : Program) (showCasts useColors : Bool) : List Term → List (List Piece)
  | [] => []
  | t :: rest => pieces p showCasts useColors t :: piecesOf p showCasts useColors rest

end

end Term

/-- The text of an expression. -/
def Program.exprText (p : Program) (showCasts useColors : Bool) (e : ExprId) : String :=
  Piece.textOf useColors ((p.term e).pieces p showCasts useColors)

end Readback
