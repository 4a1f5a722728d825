import AtomTimeline.Decimal.RealText
import AtomTimeline.Text.Quoted

/-!
What can be wrong with a JSON text that is read for values of known types, and where.

* A fault is found at the first place where reading cannot go on. It comes with the bytes not yet
  read there, and `JsonError.locate` counts lines and columns back from them.
-/

namespace AtomTimeline

/-- What a text may end in the middle of. -/
inductive OpenPart where
  | list
  | object
  | string
  | value
  deriving DecidableEq, Repr

/-- The name of a part. -/
def OpenPart.name : OpenPart → String
  | list => "a list"
  | object => "an object"
  | string => "a string"
  | value => "a value"

/-- A value in the place of one of another type. -/
inductive FoundValue where
  | null
  | boolean (v : Bool)
  | integer (v : Int)
  | real (bits : UInt64)
  | text (s : String)
  | list
  | object
  deriving DecidableEq, Repr

/-- A value as messages name it. -/
def FoundValue.description : FoundValue → String
  | null => "null"
  | boolean v => s!"boolean `{v}`"
  | integer v => s!"integer `{v}`"
  | real bits => "floating point `" ++ RealStyle.json.text bits ++ "`"
  | text s => "string " ++ quoted s
  | list => "sequence"
  | object => "map"

/-- What is wrong with a JSON text. -/
inductive JsonFault where
  | endOfText (within : OpenPart)
  | expectedColon
  | expectedListEnd
  | expectedObjectEnd
  /-- A word other than `null`, `true` and `false`. -/
  | expectedWord
  | expectedValue
  | invalidEscape
  | invalidNumber
  | numberOutOfRange
  | controlCharacter
  | keyNotString
  /-- Half of a pair of escapes, where the other half is missing or stands first. -/
  | loneSurrogate
  /-- Something else than an escape behind the first half of a pair. -/
  | escapeEnds
  | trailingComma
  | trailingText
  | wrongType (found : FoundValue) (expected : String)
  | unknownKey (key : String) (known : List String)
  | duplicateKey (key : String)
  deriving DecidableEq, Repr

/-- Kinds of faults. -/
inductive JsonFaultKind where
  /-- The text ends too early. -/
  | ending
  /-- The text is not JSON. -/
  | form
  /-- The text is JSON and not what was asked for. -/
  | content
  deriving DecidableEq, Repr

namespace JsonFault

/-- The kind of a fault. -/
def kind : JsonFault → JsonFaultKind
  | endOfText _ => .ending
  | wrongType _ _ | unknownKey _ _ | duplicateKey _ => .content
  | _ => .form

/-- A key as messages show it. -/
def ticked (key : String) : String := "`" ++ key ++ "`"

/-- The text of a fault. -/
def message : JsonFault → String
  | endOfText within => "EOF while parsing " ++ within.name
  | expectedColon => "expected `:`"
  | expectedListEnd => "expected `,` or `]`"
  | expectedObjectEnd => "expected `,` or `\x7d`"
  | expectedWord => "expected ident"
  | expectedValue => "expected value"
  | invalidEscape => "invalid escape"
  | invalidNumber => "invalid number"
  | numberOutOfRange => "number out of range"
  | controlCharacter => "control character (\\u0000-\\u001F) found while parsing a string"
  | keyNotString => "key must be a string"
  | loneSurrogate => "lone leading surrogate in hex escape"
  | escapeEnds => "unexpected end of hex escape"
  | trailingComma => "trailing comma"
  | trailingText => "trailing characters"
  | wrongType found expected => "invalid type: " ++ found.description ++ ", expected " ++ expected
  | unknownKey key known =>
    "unknown field " ++ ticked key ++ ", expected one of " ++
      String.intercalate ", " (known.map ticked)
  | duplicateKey key => "duplicate field " ++ ticked key

end JsonFault

/-! ### Places -/

/-- A fault and where it shows. -/
structure JsonError where
  fault : JsonFault
  /-- Lines are counted from 1. -/
  line : Nat
  /-- The bytes of the line that were read. -/
  column : Nat
  deriving DecidableEq, Repr

/-- The byte that ends a line. -/
def lineEnd : UInt8 := 0x0A

/-- The error of a fault that shows where `unread` of a text is left. -/
def JsonError.locate (text : Bytes) (fault : JsonFault) (unread : Bytes) : JsonError :=
  let done := text.take (text.length - unread.length)
  { fault
    line := 1 + done.count lineEnd
    column := (done.reverse.takeWhile (· ≠ lineEnd)).length }

/-- The text of an error. -/
def JsonError.message (e : JsonError) : String :=
  e.fault.message ++ s!" at line {e.line} column {e.column}"

end AtomTimeline
