import Readback.Layout.Unit
import Readback.Lift.Run

/-! # From graphs to C text

The two stages in one: lifting a graph to a program, and laying the program out as text. -/

namespace Readback

/-- Why a graph has no C text. -/
inductive DecompileError where
  | lift (error : LiftError)
  | layout (error : LayoutError)
deriving DecidableEq, Inhabited

/-- The causes of a failed lift, outermost first: the failure itself and the fault below it. -/
def LiftError.causes : LiftError → List String
  | .typing fault => [(LiftError.typing fault).message, fault.message]
  | error => [error.message]

/-- The message of an error, with all its causes. -/
def DecompileError.message : DecompileError → String
  | .lift error => ": ".intercalate ("failed to lift module" :: error.causes)
  | .layout error => error.message

/-- The program that a graph lifts to. -/
def Graph.decompile (g : Graph) (c : LiftConfig) : Except DecompileError LiftState :=
  match g.lift Naming.standard c with
  | (.ok _, s) => .ok s
  | (.error e, _) => .error (.lift e)

/-- The C text of a graph. -/
def Graph.decompileText (g : Graph) (lift : LiftConfig) (layout : Config) :
    Except DecompileError String := do
  let s ← g.decompile lift
  match s.program.text layout with
  | .ok text => .ok text
  | .error e => .error (.layout e)

end Readback
