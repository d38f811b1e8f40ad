import Readback.Data.Interned
import Readback.Quals
import Readback.Target

/-! # Types of C programs

A program keeps its types in an interned table. A `TypeNode` is one level of a type, a `QualType` a
reference to a node with the qualifiers at that level, and a `CType` a type unfolded to its leaves.
-/

namespace Readback

/-- The position of a type node in a table. -/
abbrev TypeRef := Nat

/-- The position of a declaration. -/
abbrev DeclId := Nat

/-- A type node with qualifiers. -/
structure QualType where
  ref : TypeRef
  quals : Quals
deriving DecidableEq, Inhabited

namespace QualType

/-- A node without qualifiers. -/
def plain (ref : TypeRef) : QualType := ⟨ref, .none⟩

/-- With further qualifiers. -/
def withQuals (t : QualType) (q : Quals) : QualType := ⟨t.ref, t.quals.union q⟩

/-- With `const`. -/
def withConst (t : QualType) : QualType := t.withQuals .const

/-- Without qualifiers at the outermost level. -/
def unqualified (t : QualType) : QualType := plain t.ref

/-- Whether the outermost level is `const`. -/
def isConst (t : QualType) : Bool := t.quals.isConst

end QualType

/-- One level of a type. An array without a size is incomplete. -/
inductive TypeNode where
  | builtin (kind : Builtin)
  | pointer (pointee : QualType)
  | array (element : QualType) (size : Option Nat)
  | function (result : QualType) (params : List QualType) (isVariadic : Bool)
  | record (decl : DeclId)
deriving DecidableEq, Inhabited

/-- The type nodes of a program. -/
abbrev TypeArena := Interned TypeNode

/-- A type unfolded to its leaves, with the qualifiers at each level. -/
inductive CType where
  | builtin (quals : Quals) (kind : Builtin)
  | pointer (quals : Quals) (pointee : CType)
  | array (quals : Quals) (element : CType) (size : Option Nat)
  | function (quals : Quals) (result : CType) (params : List CType) (isVariadic : Bool)
  | record (quals : Quals) (decl : DeclId)
deriving Inhabited

namespace TypeArena

/-- The node of a type; an unknown reference counts as `void`. -/
def node (a : TypeArena) (t : QualType) : TypeNode := (a.get? t.ref).getD (.builtin .void)

/-- Unfolds a type. The first argument bounds the depth. -/
def treeAux (a : TypeArena) : Nat → QualType → CType
  | 0, t => .builtin t.quals .void
  | n + 1, t =>
    match a.node t with
    | .builtin kind => .builtin t.quals kind
    | .pointer pointee => .pointer t.quals (a.treeAux n pointee)
    | .array element size => .array t.quals (a.treeAux n element) size
    | .function result params isVariadic =>
      .function t.quals (a.treeAux n result) (params.map (a.treeAux n)) isVariadic
    | .record decl => .record t.quals decl

/-- The type, unfolded. The parts of a node stand before it in the table, so its position bounds its
depth. -/
def tree (a : TypeArena) (t : QualType) : CType := a.treeAux (t.ref + 1) t

end TypeArena

/-! ### Declarators -/

namespace CType

/-- Whether a pointer to the type needs parentheses around its declarator. -/
def isArrayOrFunction : CType → Bool
  | .array _ _ _ => true
  | .function _ _ _ _ => true
  | _ => false

/-- Qualifiers, a base type and an inner declarator, with a blank between parts that are there. -/
def joinWords (quals base inner : String) : String :=
  (if quals.isEmpty then "" else quals ++ " ") ++ base ++
    (if inner.isEmpty then "" else " " ++ inner)

mutual

/-- The declarator of a type around `inner`, which is a name, a declarator or empty. The qualifiers
`outer` are added at the outermost level; the qualifiers of an array are those of its elements.
`tagOf` gives the names of records. -/
def declarator (tagOf : DeclId → String) : CType → Quals → String → String
  | .builtin quals kind, outer, inner => joinWords (quals.union outer).spelling kind.name inner
  | .record quals decl, outer, inner =>
    joinWords (quals.union outer).spelling ("struct " ++ tagOf decl) inner
  | .pointer quals pointee, outer, inner =>
    let words := (quals.union outer).spelling
    let gap := if words.isEmpty || inner.isEmpty then "" else " "
    let text := "*" ++ words ++ gap ++ inner
    declarator tagOf pointee .none (if pointee.isArrayOrFunction then "(" ++ text ++ ")" else text)
  | .array quals element size, outer, inner =>
    declarator tagOf element (quals.union outer)
      (inner ++ "[" ++ size.elim "" toString ++ "]")
  | .function _ result params isVariadic, _, inner =>
    let list := paramTexts tagOf params ++ if isVariadic then ["..."] else []
    let list := if list.isEmpty then ["void"] else list
    declarator tagOf result .none (inner ++ "(" ++ ", ".intercalate list ++ ")")

/-- The types of parameters, without names. -/
def paramTexts (tagOf : DeclId → String) : List CType → List String
  | [] => []
  | p :: rest => declarator tagOf p .none "" :: paramTexts tagOf rest

end

end CType

end Readback
