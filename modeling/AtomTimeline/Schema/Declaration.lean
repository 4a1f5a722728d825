import AtomTimeline.Wire.Field

/-!
Declarations of message and enum types, as files declare them: nested in one another, with relative
type names.

* `FileSet.definitions` lists everything a set of files declares under its full name, what is
  nested in a message before the message itself.
-/

namespace AtomTimeline

/-- The declared type of a field. -/
inductive FieldType where
  | double
  | float
  | int64
  | uint64
  | int32
  | fixed64
  | fixed32
  | bool
  | string
  | group
  | message
  | bytes
  | uint32
  | enum
  | sfixed32
  | sfixed64
  | sint32
  | sint64
  deriving DecidableEq, Repr

namespace FieldType

/-- Every type, in the order of their numbers, which start at 1. -/
def all : List FieldType :=
  [double, float, int64, uint64, int32, fixed64, fixed32, bool, string, group, message, bytes,
    uint32, enum, sfixed32, sfixed64, sint32, sint64]

/-- The type of a number. -/
def ofCode? : Nat → Option FieldType
  | 0 => none
  | code + 1 => all[code]?

/-- The name of a type. -/
def name : FieldType → String
  | double => "Double"
  | float => "Float"
  | int64 => "Int64"
  | uint64 => "UInt64"
  | int32 => "Int32"
  | fixed64 => "Fixed64"
  | fixed32 => "Fixed32"
  | bool => "Bool"
  | string => "String"
  | group => "Group"
  | message => "Message"
  | bytes => "Bytes"
  | uint32 => "UInt32"
  | enum => "Enum"
  | sfixed32 => "SFixed32"
  | sfixed64 => "SFixed64"
  | sint32 => "SInt32"
  | sint64 => "SInt64"

/-- The wire type a single value of the type lies in. Groups have none that is read. -/
def wireType? : FieldType → Option WireType
  | double | fixed64 | sfixed64 => some .fixed64
  | float | fixed32 | sfixed32 => some .fixed32
  | string | bytes | message => some .lengthDelimited
  | group => none
  | _ => some .varint

/-- Repeated values of the type may lie packed in one run. -/
def packable : FieldType → Bool
  | string | bytes | message | group => false
  | _ => true

end FieldType

/-- How often a field may occur. -/
inductive Label where
  | optional
  | required
  | repeated
  deriving DecidableEq, Repr

/-- The label of a number. -/
def Label.ofCode? : Nat → Option Label
  | 1 => some .optional
  | 2 => some .required
  | 3 => some .repeated
  | _ => none

/-- A field as declared. -/
structure FieldDecl where
  name : String
  number : Int
  type : FieldType
  /-- The message or enum type, full or relative; empty for any other type. -/
  typeName : String
  label : Label
  deriving DecidableEq, Repr

/-- An enum type as declared. -/
structure EnumDecl where
  name : String
  values : List (String × Int)
  deriving DecidableEq, Repr

/-- A message type as declared. -/
inductive MessageDecl where
  | mk (name : String) (fields : List FieldDecl) (nested : List MessageDecl)
      (enums : List EnumDecl)

/-- A file of declarations. -/
structure FileDecl where
  package : String
  messages : List MessageDecl
  enums : List EnumDecl

/-- A set of files. -/
abbrev FileSet := List FileDecl

/-- A declared type under its full name, which starts with a dot. -/
inductive Definition where
  | message (fullName : String) (fields : List FieldDecl)
  | enum (fullName : String) (values : List (String × Int))
  deriving DecidableEq, Repr

/-- The name of a type within a scope. -/
def qualify (scope name : String) : String := scope ++ "." ++ name

/-- An enum declared in a scope. -/
def EnumDecl.definition (scope : String) (e : EnumDecl) : Definition :=
  .enum (qualify scope e.name) e.values

mutual

/-- All that a message declared in a scope defines. -/
def MessageDecl.definitions (scope : String) : MessageDecl → List Definition
  | .mk name fields nested enums =>
    let fullName := qualify scope name
    definitionsOfAll fullName nested ++ enums.map (EnumDecl.definition fullName) ++
      [.message fullName fields]

/-- All that messages declared in a scope define. -/
def definitionsOfAll (scope : String) : List MessageDecl → List Definition
  | [] => []
  | m :: ms => m.definitions scope ++ definitionsOfAll scope ms

end

/-- The scope of a file: its package behind a dot, if it has one. -/
def FileDecl.scope (file : FileDecl) : String :=
  if file.package.isEmpty then "" else "." ++ file.package

/-- All that a file defines: its messages, then its enums. -/
def FileDecl.definitions (file : FileDecl) : List Definition :=
  definitionsOfAll file.scope file.messages ++ file.enums.map (EnumDecl.definition file.scope)

/-- All that a set of files defines, file by file. -/
def FileSet.definitions (set : FileSet) : List Definition := set.flatMap FileDecl.definitions

end AtomTimeline
