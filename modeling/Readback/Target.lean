import Readback.Builtin

/-! # Target platforms

What typing and printing have to know about a platform: the widths of its integer types and whether
plain `char` is unsigned. `Target.ofTriple` reads both off a target triple. -/

namespace Readback

/-- A target platform. -/
structure Target where
  triple : String
  charIsUnsigned : Bool
  shortWidth : Nat
  intWidth : Nat
  longWidth : Nat
  longLongWidth : Nat
  pointerWidth : Nat
deriving DecidableEq, Inhabited

/-- Whether `word` stands somewhere in the text. -/
def occursIn (word : List Char) : List Char → Bool
  | [] => word.isEmpty
  | c :: cs => word.isPrefixOf (c :: cs) || occursIn word cs

namespace Target

/-- The architectures with 64-bit pointers. -/
def wideArchitectures : List String :=
  ["x86_64", "amd64", "aarch64", "arm64", "powerpc64", "powerpc64le", "ppc64", "ppc64le",
    "riscv64", "riscv64gc", "s390x", "mips64", "mips64el", "sparc64", "loongarch64", "wasm64"]

/-- The beginnings of the names of architectures on which plain `char` is unsigned. -/
def unsignedCharFamilies : List String :=
  ["arm", "aarch64", "thumb", "powerpc", "ppc", "riscv"]

/-- Whether one of the words stands somewhere in the text. -/
def mentions (text : List Char) (words : List String) : Bool :=
  words.any fun w => occursIn w.toList text

/-- The platform that a triple names. Unknown architectures count as 32-bit with signed `char`;
Windows keeps `long` at 32 bits, and Windows and Apple systems have signed `char` everywhere. -/
def ofTriple (triple : String) : Target :=
  let text := triple.toList.map Char.toLower
  let arch := text.takeWhile (· != '-')
  let windows := mentions text ["windows", "win32", "mingw"]
  let apple := mentions text ["apple", "darwin", "macos"]
  let wide := wideArchitectures.any fun a => a.toList == arch
  let unsignedChar :=
    unsignedCharFamilies.any (fun f => f.toList.isPrefixOf arch) || arch == "s390x".toList
  { triple
    charIsUnsigned := unsignedChar && !windows && !apple
    shortWidth := 16
    intWidth := 32
    longWidth := if windows || !wide then 32 else 64
    longLongWidth := 64
    pointerWidth := if wide then 64 else 32 }

/-- The platform assumed when none is named. -/
def host : Target := ofTriple "x86_64-unknown-linux-gnu"

/-- The width of an integer type in bits. -/
def integerWidth? (t : Target) : Builtin → Option Nat
  | .bool => some 1
  | .char | .signedChar | .unsignedChar => some 8
  | .short | .unsignedShort => some t.shortWidth
  | .int | .unsignedInt => some t.intWidth
  | .long | .unsignedLong => some t.longWidth
  | .longLong | .unsignedLongLong => some t.longLongWidth
  | .int128 | .unsignedInt128 => some 128
  | _ => none

/-- The type of the difference of two pointers. -/
def pointerDifference (t : Target) : Builtin :=
  if t.pointerWidth ≤ t.longWidth then .long else .longLong

end Target

end Readback
