import Readback.Layout.Config
import Readback.Program.Basic

/-! # Pages

A page is the text written so far, as indented lines, together with the place where writing goes on.
Writing steps may fail; the lines written before a failure stay on the page. -/

namespace Readback

/-- A line and how many levels it is indented. -/
structure Line where
  level : Nat
  text : String
deriving DecidableEq, Inhabited

/-- A page under construction. -/
structure Page where
  /-- The text of one level of indentation. -/
  unit : String
  useColors : Bool
  level : Nat
  lines : Array Line
deriving DecidableEq, Inhabited

/-- Why writing fails. -/
inductive LayoutError where
  | notStandalone (decl : DeclId) (name : String)
  | notAFunction (name : String)
  | notFunctionTyped (name : String)
  | notAVariable (name : String)
  | notAField (decl : DeclId)
  | forInit
  | selfContained
  | custom (message : String)
deriving DecidableEq, Inhabited

/-- The message of a layout error. -/
def LayoutError.message : LayoutError → String
  | .notStandalone decl name => DeclId.text decl ++ " '" ++ name ++ "' cannot be emitted on its own"
  | .notAFunction name => "'" ++ name ++ "' is not a function"
  | .notFunctionTyped name => "'" ++ name ++ "' does not have a function type"
  | .notAVariable name => "'" ++ name ++ "' is not a variable"
  | .notAField decl => "record member " ++ DeclId.text decl ++ " is"
  | .forInit => "unsupported for-loop initializer"
  | .selfContained => "a declaration contains itself"
  | .custom message => message

namespace Page

/-- An empty page. -/
def ofConfig (c : Config) : Page := ⟨c.indent.unit, c.useColors, 0, #[]⟩

/-- A text repeated. -/
def repeated (s : String) (n : Nat) : String := String.join (List.replicate n s)

/-- A line with its indentation and line end. -/
def renderLine (unit : String) (l : Line) : String := repeated unit l.level ++ l.text ++ "\n"

/-- The text of a page from the given line on. -/
def textFrom (p : Page) (start : Nat) : String :=
  String.join ((p.lines.toList.drop start).map (renderLine p.unit))

/-- The text of a page. -/
def text (p : Page) : String := p.textFrom 0

/-- The same page one level further in. -/
def deeper (p : Page) : Page := { p with level := p.level + 1 }

/-- The same page one level further out, as far as there is one. -/
def shallower (p : Page) : Page := { p with level := p.level - 1 }

/-- The indentation at the current place. -/
def margin (p : Page) : String := repeated p.unit p.level

end Page

/-! ### Colours -/

/-- The code that ends a colour. -/
def plainCode : List Char := ['\x1b', '[', '0', 'm']

/-- Puts the code of a colour again after each code in the text that ends it. -/
def repaint (code : List Char) : List Char → List Char
  | '\x1b' :: '[' :: '0' :: 'm' :: rest => plainCode ++ code ++ repaint code rest
  | c :: rest => c :: repaint code rest
  | [] => []

/-- A text in a colour, all of it, even if a colour ends inside. -/
def painted (color text : String) : String :=
  let code := ['\x1b', '['] ++ color.toList ++ ['m']
  String.ofList (code ++ repaint code text.toList ++ plainCode)

/-- A keyword, bold blue if colours are on. -/
def keyword (useColors : Bool) (text : String) : String :=
  if useColors then painted "1;34" text else text

/-- A literal, green if colours are on. -/
def literal (useColors : Bool) (text : String) : String :=
  if useColors then painted "32" text else text

/-! ### Writing steps -/

/-- Writing steps on a page. -/
abbrev Write := EStateM LayoutError Page

namespace Write

/-- One level further in. -/
def indent : Write Unit := modify Page.deeper

/-- One level further out, as far as there is one. -/
def dedent : Write Unit := modify Page.shallower

/-- A line at the current level. -/
def line (text : String) : Write Unit :=
  modify fun p => { p with lines := p.lines.push ⟨p.level, text⟩ }

/-- An empty line without indentation. -/
def blankLine : Write Unit := modify fun p => { p with lines := p.lines.push ⟨0, ""⟩ }

/-- A keyword in the colours of the page. -/
def keyword (text : String) : Write String := return Readback.keyword (← get).useColors text

/-- A literal in the colours of the page. -/
def literal (text : String) : Write String := return Readback.literal (← get).useColors text

/-- A header with an opening brace, the body one level further in, and a closing brace with a
trailer. If the body fails, the level is left as the body left it. -/
def block (header trailer : String) (body : Write Unit) : Write Unit := do
  line (header ++ " \x7b")
  indent
  body
  dedent
  line ("\x7d" ++ trailer)

/-- Runs steps one level further in. The level goes back by one even if they fail. -/
def nested (body : Write Unit) : Write Unit := fun p =>
  match body p.deeper with
  | .ok _ q => .ok () q.shallower
  | .error e q => .error e q.shallower

/-- Runs steps one level further in on a copy of the place: afterwards level and colours are as they
were before. -/
def inset (body : Write Unit) : Write Unit := fun p =>
  let restore := fun (q : Page) => { q with level := p.level, useColors := p.useColors }
  match body p.deeper with
  | .ok _ q => .ok () (restore q)
  | .error e q => .error e (restore q)

end Write

end Readback
