import AtomTimeline.Decimal.RealText

/-!
JSON values and their texts.

* `JsonValue.pretty` writes a value over several lines, each level of nesting indented by two
  spaces.
-/

namespace AtomTimeline

/-- A JSON value. A real is held by the bits of its double-precision form. -/
inductive JsonValue where
  | null
  | bool (v : Bool)
  | int (v : Int)
  | real (bits : UInt64)
  | string (s : String)
  | list (items : List JsonValue)
  /-- Members are written in the order they are held. -/
  | object (members : List (String × JsonValue))

namespace JsonValue

/-- The lower of the two hexadecimal digits with which a control character is written. -/
def controlDigits (n : Nat) : String :=
  String.ofList [if n < 16 then '0' else '1', (n % 16).digitChar]

/-- A character within a string. -/
def escapedChar (c : Char) : String :=
  if c = '"' then "\\\""
  else if c = '\\' then "\\\\"
  else if c = '\x08' then "\\b"
  else if c = '\x0c' then "\\f"
  else if c = '\n' then "\\n"
  else if c = '\r' then "\\r"
  else if c = '\t' then "\\t"
  else if c.toNat < 0x20 then "\\u00" ++ controlDigits c.toNat
  else c.toString

/-- The text of a string. -/
def stringText (s : String) : String :=
  "\"" ++ String.join (s.toList.map escapedChar) ++ "\""

/-- The end of a line and the indentation of the next one. -/
def newLine (depth : Nat) : String := "\n" ++ String.ofList (List.replicate (2 * depth) ' ')

/-- The parts of a list or an object, each on a line of its own, between brackets. -/
def block (opening closing : String) (depth : Nat) : List String → String
  | [] => opening ++ closing
  | parts =>
    opening ++ newLine (depth + 1) ++ String.intercalate ("," ++ newLine (depth + 1)) parts ++
      newLine depth ++ closing

mutual

/-- The text of a value nested in `depth` others. -/
def prettyAt (depth : Nat) : JsonValue → String
  | null => "null"
  | bool v => if v then "true" else "false"
  | int v => toString v
  | real bits => RealStyle.json.text bits
  | string s => stringText s
  | list items => block "[" "]" depth (prettyItems (depth + 1) items)
  | object members => block "\x7b" "\x7d" depth (prettyMembers (depth + 1) members)

/-- The texts of the items of a list. -/
def prettyItems (depth : Nat) : List JsonValue → List String
  | [] => []
  | item :: items => prettyAt depth item :: prettyItems depth items

/-- The texts of the members of an object. -/
def prettyMembers (depth : Nat) : List (String × JsonValue) → List String
  | [] => []
  | (key, value) :: members =>
    (stringText key ++ ": " ++ prettyAt depth value) :: prettyMembers depth members

end

/-- The text of a value. -/
def pretty (v : JsonValue) : String := v.prettyAt 0

end JsonValue

end AtomTimeline
