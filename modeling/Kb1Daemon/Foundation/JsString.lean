import Mathlib.Data.List.Basic

/-! # Strings as sequences of UTF-16 code units

The daemon's strings are sequences of 16-bit code units: lengths, offsets and
slices count units, and a lone surrogate is a value like any other.
-/

/-- One UTF-16 code unit. -/
abbrev CodeUnit := UInt16

/-- A string of the daemon: its UTF-16 code units. -/
abbrev JsString := List CodeUnit

namespace JsString

/-- Equality of strings is decided unit by unit. -/
instance lawfulBEq : LawfulBEq JsString :=
  inferInstanceAs (LawfulBEq (List CodeUnit))

/-- The line feed. -/
def lineFeed : CodeUnit := 10

/-- The carriage return. -/
def carriageReturn : CodeUnit := 13

/-- The code units `String.prototype.trim` strips: white space and line
terminators. -/
def isWhitespace (unit : CodeUnit) : Bool :=
  unit ∈ ([9, 10, 11, 12, 13, 32, 0xA0, 0x1680, 0x2028, 0x2029, 0x202F, 0x205F, 0x3000,
    0xFEFF] : List CodeUnit) || (0x2000 ≤ unit && unit ≤ 0x200A)

/-- `String.prototype.trim`. -/
def trim (value : JsString) : JsString :=
  ((value.dropWhile isWhitespace).reverse.dropWhile isWhitespace).reverse

end JsString

namespace Kb1Daemon

/-- The code units of a text of this source. -/
def units (text : String) : JsString := text.toList.map fun char => UInt16.ofNat char.toNat

end Kb1Daemon
