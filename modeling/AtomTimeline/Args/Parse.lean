import AtomTimeline.Args.Key
import AtomTimeline.Schema.AtomSchema
import AtomTimeline.Wire.Reader

/-!
Arguments of a message whose type is known: one for every value in it that is no message itself.

* `Pool.parseMessage` reads a message in three steps: the declared fields of its scan are cut into
  `Element`s (`elements`), one for each value, so that a packed run and the same values one by one
  give the same elements; elements of repeated fields get their positions (`number`); then each
  element gives its arguments, a nested message by reading it in turn.
* The first fault in the order of the bytes ends the reading; the arguments before it stay.
-/

namespace AtomTimeline

/-- Why the arguments of a message cannot be read to its end. -/
inductive ArgsError where
  | unknownMessage (typeName : String)
  /-- A message, or a packed run of the field named, that cannot be read to its end. -/
  | malformed (name : String)
  | wireTypeMismatch (field : String) (wireType : WireType)
  | tooDeep (field : String)
  deriving DecidableEq, Repr

/-- The text of an error. -/
def ArgsError.message : ArgsError → String
  | unknownMessage typeName => "unknown message type " ++ typeName
  | malformed name => "malformed " ++ name ++ " payload"
  | wireTypeMismatch field wireType =>
    "field " ++ field ++ " has wire type " ++ wireType.name ++
      " which does not match its declared type"
  | tooDeep field => "message nesting too deep at " ++ field

/-- Arguments read, and the error that ended the reading, if any. -/
structure ArgsResult where
  args : List Arg
  error : Option ArgsError
  deriving DecidableEq, Repr

namespace ArgsResult

/-- Arguments, and no error. -/
def ofArgs (args : List Arg) : ArgsResult := ⟨args, none⟩

/-- An error, and no arguments. -/
def ofError (e : ArgsError) : ArgsResult := ⟨[], some e⟩

/-- What was read first, and unless that ended in an error what is read after it. -/
def andThen (first : ArgsResult) (second : Unit → ArgsResult) : ArgsResult :=
  match first.error with
  | some _ => first
  | none =>
    let rest := second ()
    ⟨first.args ++ rest.args, rest.error⟩

end ArgsResult

/-! ### Elements -/

/-- One value of a declared field. -/
structure Element where
  field : FieldDescriptor
  value : FieldValue
  deriving DecidableEq, Repr

/-- Cuts a run into numbers of a given width; nothing if something is left over. Each unit of fuel
cuts off one. -/
def splitFixed? (width : Nat) : (fuel : Nat) → Bytes → Option (List Nat)
  | 0, b => if b = [] then some [] else none
  | fuel + 1, b =>
    if b = [] then some []
    else
      match Bytes.splitFront? width b with
      | some (raw, rest) => (splitFixed? width fuel rest).map (Bytes.toNatLE raw :: ·)
      | none => none

/-- The values in a packed run of a type, if it can be cut into them. -/
def unpack? (type : FieldType) (run : Bytes) : Option (List FieldValue) :=
  match type.wireType? with
  | some .fixed32 =>
    (splitFixed? 4 run.length run).map (List.map fun n => .fixed32 (UInt32.ofNat n))
  | some .fixed64 =>
    (splitFixed? 8 run.length run).map (List.map fun n => .fixed64 (UInt64.ofNat n))
  | _ =>
    match Varint.split run with
    | .ok vs => some (vs.map .varint)
    | .error _ => none

/-- The elements of a field on the wire: those of a packed run, or the one value it holds. -/
def FieldDescriptor.elements (f : FieldDescriptor) (value : FieldValue) :
    Except ArgsError (List Element) :=
  match value with
  | .lengthDelimited run =>
    if f.repeated && f.type.packable then
      match unpack? f.type run with
      | some values => .ok (values.map (⟨f, ·⟩))
      | none => .error (.malformed f.name)
    else .ok [⟨f, value⟩]
  | _ => .ok [⟨f, value⟩]

/-- The elements of a scanned field; none if the message does not declare it. -/
def MessageDescriptor.elementsOf (m : MessageDescriptor) (f : Field) :
    Except ArgsError (List Element) :=
  match m.field? f.id with
  | none => .ok []
  | some d => d.elements f.value

/-- The elements of scanned fields in order, up to a run that cannot be cut. -/
def MessageDescriptor.elements (m : MessageDescriptor) :
    List Field → List Element × Option ArgsError
  | [] => ([], none)
  | f :: fs =>
    match m.elementsOf f with
    | .error e => ([], some e)
    | .ok front =>
      let (others, e) := m.elements fs
      (front ++ others, e)

/-! ### Positions -/

/-- How many elements of each field were met. -/
abbrev Positions := List (UInt32 × Nat)

namespace Positions

/-- The number of elements met of a field. -/
def get (p : Positions) (number : UInt32) : Nat := (p.lookup number).getD 0

/-- One more element met of a field. -/
def bump (number : UInt32) : Positions → Positions
  | [] => [(number, 1)]
  | (n, k) :: rest => if n = number then (n, k + 1) :: rest else (n, k) :: bump number rest

end Positions

/-- The key of an element of the message with key `under`, given the elements before it. -/
def Element.key (under : Key) (met : Positions) (e : Element) : Key :=
  let key := under.child e.field.name
  if e.field.repeated then key.atPosition (met.get e.field.number) else key

/-- Elements with their keys. -/
def number (under : Key) : Positions → List Element → List (Key × Element)
  | _, [] => []
  | met, e :: es => (e.key under met, e) :: number under (met.bump e.field.number) es

/-! ### Values -/

/-- The sign-extended low 32 bits of a word. -/
def low32 (v : UInt64) : Int64 := v.toUInt32.toInt32.toInt64

/-- The value of an enum: its name, or the number where no name is known. -/
def Pool.enumValue (pool : Pool) (typeName : String) (v : UInt64) : ReadValue :=
  match (pool.findEnum? typeName).bind fun e => e.valueName? (low32 v).toInt with
  | some name => .string name
  | none => .int (low32 v)

/-- The double-precision bits of a single-precision real, which has an exact one. -/
def widenReal (bits : UInt32) : UInt64 :=
  let n := bits.toNat
  let sign := n >>> 31
  let exponent := n >>> 23 % 0x100
  let fraction := n % 0x800000
  let widened :=
    if exponent = 0xFF then (0x7FF <<< 52) + (fraction <<< 29)
    else if exponent = 0 then
      if fraction = 0 then 0
      else
        let top := fraction.log2
        ((top + 874) <<< 52) + ((fraction - (1 <<< top)) <<< (52 - top))
    else ((exponent + 896) <<< 52) + (fraction <<< 29)
  UInt64.ofNat ((sign <<< 63) + widened)

/-- The value of a field that is no message, if it lies in the wire type of its declared type. -/
def Pool.scalar? (pool : Pool) (f : FieldDescriptor) (value : FieldValue) : Option ReadValue :=
  match f.type, value with
  | .int32, .varint v => some (.int (low32 v))
  | .int64, .varint v => some (.int v.toInt64)
  | .sint32, .varint v => some (.int (Zigzag.read32 v))
  | .sint64, .varint v => some (.int (Zigzag.read64 v))
  | .uint32, .varint v => some (.uint v.toUInt32.toUInt64)
  | .uint64, .varint v => some (.uint v)
  | .bool, .varint v => some (.bool (v ≠ 0))
  | .enum, .varint v => some (pool.enumValue f.typeName v)
  | .fixed32, .fixed32 v => some (.uint v.toUInt64)
  | .sfixed32, .fixed32 v => some (.int v.toInt32.toInt64)
  | .float, .fixed32 v => some (.real (widenReal v))
  | .fixed64, .fixed64 v => some (.uint v)
  | .sfixed64, .fixed64 v => some (.int v.toInt64)
  | .double, .fixed64 v => some (.real v)
  | .string, .lengthDelimited b => some (.string (Utf8.lossyText b))
  | .bytes, .lengthDelimited b => some (.bytes b)
  | _, _ => none

/-! ### Messages -/

/-- How a message within another is read: its bytes, its type and its key. -/
abbrev NestedReader := Bytes → String → Key → ArgsResult

/-- The arguments of one element. -/
def Pool.parseElement (pool : Pool) (nested : NestedReader) (key : Key) (e : Element) :
    ArgsResult :=
  let mismatch := ArgsResult.ofError (.wireTypeMismatch e.field.name e.value.wireType)
  match e.field.type with
  | .message =>
    match e.value with
    | .lengthDelimited b => nested b e.field.typeName key
    | _ => mismatch
  | _ =>
    match pool.scalar? e.field e.value with
    | some v => .ofArgs [⟨key, v⟩]
    | none => mismatch

/-- The arguments of elements in order, and after them the error that ended the elements. -/
def Pool.parseElements (pool : Pool) (nested : NestedReader) (after : Option ArgsError) :
    List (Key × Element) → ArgsResult
  | [] => ⟨[], after⟩
  | (key, e) :: es =>
    (pool.parseElement nested key e).andThen fun _ => pool.parseElements nested after es

/-- The arguments of a message of a known type. -/
def Pool.parseFields (pool : Pool) (nested : NestedReader) (m : MessageDescriptor)
    (typeName : String) (under : Key) (b : Bytes) : ArgsResult :=
  let found := scan b
  let (elements, badRun) := m.elements found.fields
  let fault := badRun.or (if found.malformed then some (.malformed typeName) else none)
  pool.parseElements nested fault (number under [] elements)

/-- The arguments of a message with `levels` levels of messages left to it. -/
def Pool.parseMessageAt (pool : Pool) : (levels : Nat) → NestedReader
  | 0, _, _, under => .ofError (.tooDeep under.full)
  | levels + 1, b, typeName, under =>
    match pool.findMessage? typeName with
    | none => .ofError (.unknownMessage typeName)
    | some m => pool.parseFields (pool.parseMessageAt levels) m typeName under b

/-- The deepest a message may be nested below the one that is read. -/
def maxNesting : Nat := 64

/-- The arguments of a message of the named type. -/
def Pool.parseMessage (pool : Pool) (b : Bytes) (typeName : String) : ArgsResult :=
  pool.parseMessageAt (maxNesting + 1) b typeName .root

/-- The arguments of an atom payload. -/
def AtomSchema.parseAtom (schema : AtomSchema) (payload : Bytes) : ArgsResult :=
  schema.pool.parseMessage payload schema.atomMessageName

end AtomTimeline
