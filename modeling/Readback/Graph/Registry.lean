import Readback.Data.Dict
import Readback.Graph.Kind

/-! # Registered operations

A registry gives operation names an identity: a 64-bit number that depends on the name alone, so
that the order of registration does not matter. -/

namespace Readback

/-- The identity of a registered operation. -/
abbrev OpIdentity := UInt64

/-- The identity of a name: the FNV-1a hash of its bytes. -/
def OpIdentity.ofName (name : String) : OpIdentity :=
  name.toUTF8.data.toList.foldl (fun h b => (h ^^^ b.toUInt64) * 0x100000001b3) 0xcbf29ce484222325

/-- Sixteen hexadecimal digits after a number sign. -/
def OpIdentity.text (i : OpIdentity) : String :=
  let digits := Nat.toDigits 16 i.toNat
  String.ofList ('#' :: List.replicate (16 - digits.length) '0' ++ digits)

/-- The registered names with their identities. -/
structure Registry where
  operations : Dict String OpIdentity
deriving DecidableEq, Inhabited

namespace Registry

/-- The registry without names. -/
def empty : Registry := ⟨.empty⟩

/-- The number of registered names. -/
def size (r : Registry) : Nat := r.operations.size

/-- The identity under which a name is registered. -/
def lookup? (r : Registry) (name : String) : Option OpIdentity := r.operations.get? name

/-- Registers a name under its own identity, unless it already has one. -/
def register (r : Registry) (name : String) : Registry :=
  if r.operations.contains name then r
  else ⟨r.operations.insert name (OpIdentity.ofName name)⟩

/-- The registry of the given names. -/
def ofNames (names : List String) : Registry := names.foldl register empty

/-- The name of the structural scope operation, which all dialects share. -/
def scopeName : String := "core.scope"

/-- The registry of the high-level dialect and the structural operations. -/
def standard : Registry := ofNames (Kind.all.map Kind.name ++ [scopeName])

end Registry

/-- The kinds by the identity of their names. -/
def Kind.identities : List (OpIdentity × Kind) :=
  Kind.all.map fun k => (OpIdentity.ofName k.name, k)

/-- The kind whose name has the given identity. -/
def Kind.ofIdentity? (i : OpIdentity) : Option Kind :=
  (Kind.identities.find? fun p => p.1 == i).map Prod.snd

end Readback
