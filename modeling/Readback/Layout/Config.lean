import Readback.Json.Reader

/-! # Layout settings

How C text is laid out: colours, indentation, whether implicit casts are shown, and whether
declarations at file level are separated by blank lines. -/

namespace Readback

/-- What one level of indentation is made of. -/
inductive Indent where
  | spaces (count : Nat)
  | tabs
deriving DecidableEq, Inhabited

namespace Indent

/-- The text of one level. -/
def unit : Indent → String
  | .spaces count => "".pushn ' ' count
  | .tabs => "\t"

/-- Writes an indentation. -/
def toJson : Indent → Json
  | .spaces count => Json.tagged "Spaces" (Json.ofNat count)
  | .tabs => .text "Tabs"

/-- Reads an indentation. -/
def ofJson? (j : Json) : Option Indent := do
  let (tag, content) ← j.choice?
  match tag with
  | "Spaces" => (content.bind Json.size?).map .spaces
  | "Tabs" => (Json.bare? content).map fun _ => .tabs
  | _ => none

end Indent

/-- The settings of a layout. -/
structure Config where
  useColors : Bool
  indent : Indent
  showImplicitCasts : Bool
  blankLineBetweenDecls : Bool
deriving DecidableEq

namespace Config

/-- Four blanks a level and blank lines between declarations; no colours, no implicit casts. -/
def standard : Config := ⟨false, .spaces 4, false, true⟩

instance : Inhabited Config := ⟨standard⟩

/-- The names of the settings. -/
def fieldNames : List String :=
  ["use_colors", "indent_style", "show_implicit_casts", "blank_line_between_decls"]

/-- Writes settings. -/
def toJson (c : Config) : Json :=
  .object [("use_colors", .bool c.useColors), ("indent_style", c.indent.toJson),
    ("show_implicit_casts", .bool c.showImplicitCasts),
    ("blank_line_between_decls", .bool c.blankLineBetweenDecls)]

/-- A setting that keeps its standard value if it is left out. -/
def setting {α : Type} (standard : α) (read : Json → Option α) : Option Json → Option α
  | none => some standard
  | some j => read j

/-- The settings that are given: members of an object, or a list of at most as many values as there
are settings. -/
def given? : Json → Option (List (Option Json))
  | .list items =>
    if items.length ≤ fieldNames.length then
      some (items.map some ++ List.replicate (fieldNames.length - items.length) none)
    else none
  | j => j.fields? fieldNames

/-- Reads settings. Those left out keep their standard values. -/
def ofJson? (j : Json) : Option Config := do
  match ← given? j with
  | [colors, indent, casts, blank] =>
    return ⟨← setting standard.useColors Json.bool? colors,
      ← setting standard.indent Indent.ofJson? indent,
      ← setting standard.showImplicitCasts Json.bool? casts,
      ← setting standard.blankLineBetweenDecls Json.bool? blank⟩
  | _ => none

/-- Reads settings from JSON text. -/
def read? (s : String) : Option Config := (Json.read? s).bind ofJson?

end Config

end Readback
