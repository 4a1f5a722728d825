import Mathlib.Tactic
import AtomTimeline.Args.Parse
import AtomTimeline.Proofs.Wire.SignedIntegers

/-!
Values of declared message types, apart from how they lie on the wire.

* `MessageValue` is a message of declared fields in any order; `MessageValue.Conforms` says that it
  is one of a type of the pool, with messages nested no deeper than allowed.
* `MessageValue.encode` writes it, every value of a repeated field on its own.
* `MessageValue.leaves` are its values that are no messages themselves, in order, under the names
  and positions on the way to them (`Key.ofPath`).
-/

namespace AtomTimeline

/-! ### Values that are no messages -/

/-- A value of a field that is no message. A real is given by its bits. -/
inductive ScalarValue where
  | double (bits : UInt64)
  | float (bits : UInt32)
  | int64 (v : Int64)
  | uint64 (v : UInt64)
  | int32 (v : Int32)
  | fixed64 (v : UInt64)
  | fixed32 (v : UInt32)
  | bool (v : Bool)
  | string (s : String)
  | bytes (b : Bytes)
  | uint32 (v : UInt32)
  | enum (number : Int32)
  | sfixed32 (v : Int32)
  | sfixed64 (v : Int64)
  | sint32 (v : Int32)
  | sint64 (v : Int64)
  deriving DecidableEq, Repr

namespace ScalarValue

/-- The declared type of fields with such a value. -/
def type : ScalarValue → FieldType
  | double _ => .double
  | float _ => .float
  | int64 _ => .int64
  | uint64 _ => .uint64
  | int32 _ => .int32
  | fixed64 _ => .fixed64
  | fixed32 _ => .fixed32
  | bool _ => .bool
  | string _ => .string
  | bytes _ => .bytes
  | uint32 _ => .uint32
  | enum _ => .enum
  | sfixed32 _ => .sfixed32
  | sfixed64 _ => .sfixed64
  | sint32 _ => .sint32
  | sint64 _ => .sint64

/-- The value as it is written: signed integers in 64 bits, those of zig-zag types by their
place. -/
def wire : ScalarValue → FieldValue
  | double bits => .fixed64 bits
  | float bits => .fixed32 bits
  | int64 v => .varint v.toUInt64
  | uint64 v => .varint v
  | int32 v => .varint v.toInt64.toUInt64
  | fixed64 v => .fixed64 v
  | fixed32 v => .fixed32 v
  | bool v => .varint (if v then 1 else 0)
  | string s => .lengthDelimited (Utf8.encode s)
  | bytes b => .lengthDelimited b
  | uint32 v => .varint v.toUInt64
  | enum number => .varint number.toInt64.toUInt64
  | sfixed32 v => .fixed32 v.toUInt32
  | sfixed64 v => .fixed64 v.toUInt64
  | sint32 v => .varint (UInt64.ofNat (Zigzag.ofInt v.toInt))
  | sint64 v => .varint (UInt64.ofNat (Zigzag.ofInt v.toInt))

/-- The name that a pool declares for a number of an enum, if any. -/
def enumName? (pool : Pool) (typeName : String) (number : Int32) : Option String :=
  (pool.findEnum? typeName).bind fun e => e.valueName? number.toInt

/-- The value itself, as an argument has it: an enum by its declared name if there is one, a
single-precision real widened. -/
def original (pool : Pool) (typeName : String) : ScalarValue → ReadValue
  | double bits => .real bits
  | float bits => .real (widenReal bits)
  | int64 v => .int v
  | uint64 v => .uint v
  | int32 v => .int v.toInt64
  | fixed64 v => .uint v
  | fixed32 v => .uint v.toUInt64
  | bool v => .bool v
  | string s => .string s
  | bytes b => .bytes b
  | uint32 v => .uint v.toUInt64
  | enum number =>
    match enumName? pool typeName number with
    | some name => .string name
    | none => .int number.toInt64
  | sfixed32 v => .int v.toInt64
  | sfixed64 v => .int v
  | sint32 v => .int v.toInt64
  | sint64 v => .int v

end ScalarValue

/-! ### Messages -/

/-- A message: values of fields one after the other, each of them no message or a message itself. -/
inductive MessageValue where
  | empty
  | scalar (field : FieldDescriptor) (v : ScalarValue) (rest : MessageValue)
  | message (field : FieldDescriptor) (inner rest : MessageValue)

namespace MessageValue

/-- The message is one of the type, every field being declared there, and messages are nested in it
at most `levels` deep. -/
inductive Conforms (pool : Pool) : MessageDescriptor → (levels : ℕ) → MessageValue → Prop where
  | empty {m : MessageDescriptor} {levels : ℕ} : Conforms pool m levels .empty
  | scalar {m : MessageDescriptor} {levels : ℕ} {field : FieldDescriptor} {v : ScalarValue}
      {rest : MessageValue} : field ∈ m.fields → field.type = v.type →
      Conforms pool m levels rest → Conforms pool m levels (.scalar field v rest)
  | message {m n : MessageDescriptor} {levels : ℕ} {field : FieldDescriptor}
      {inner rest : MessageValue} : field ∈ m.fields → field.type = .message →
      pool.findMessage? field.typeName = some n → Conforms pool n levels inner →
      Conforms pool m (levels + 1) rest → Conforms pool m (levels + 1) (.message field inner rest)

/-- The fields of the message on the wire. -/
def fields : MessageValue → List Field
  | empty => []
  | scalar field v rest => ⟨field.number, v.wire⟩ :: rest.fields
  | message field inner rest =>
    ⟨field.number, .lengthDelimited (writeFields inner.fields)⟩ :: rest.fields

/-- The message written. -/
def encode (v : MessageValue) : Bytes := writeFields v.fields

end MessageValue

/-! ### Leaves -/

/-- A step on the way to a value: a field, and the position in it if it is repeated. -/
structure KeyStep where
  name : String
  position : Option ℕ
  deriving DecidableEq, Repr

/-- The step as it is written in full. -/
def KeyStep.indexed (step : KeyStep) : String :=
  match step.position with
  | none => step.name
  | some n => step.name ++ "[" ++ toString n ++ "]"

/-- The key of what is at the end of a way: the names joined by dots, without and with positions. -/
def Key.ofPath (path : List KeyStep) : Key where
  flat := ".".intercalate (path.map KeyStep.name)
  full := ".".intercalate (path.map KeyStep.indexed)

/-- The step to a value of a field, behind values of fields with the given numbers. -/
def FieldDescriptor.step (field : FieldDescriptor) (earlier : List UInt32) : KeyStep :=
  ⟨field.name, if field.repeated then some (earlier.count field.number) else none⟩

/-- The values in a message that are no messages, in order. They are at the end of the given way,
behind values of fields with the given numbers. -/
def MessageValue.leaves (pool : Pool) (path : List KeyStep) :
    (earlier : List UInt32) → MessageValue → List Arg
  | _, empty => []
  | earlier, scalar field v rest =>
    ⟨Key.ofPath (path ++ [field.step earlier]), v.original pool field.typeName⟩ ::
      rest.leaves pool path (earlier ++ [field.number])
  | earlier, message field inner rest =>
    inner.leaves pool (path ++ [field.step earlier]) [] ++
      rest.leaves pool path (earlier ++ [field.number])

end AtomTimeline
