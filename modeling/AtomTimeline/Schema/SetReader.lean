import AtomTimeline.Schema.Declaration
import AtomTimeline.Text.Utf8

/-!
Reading a serialized set of files of declarations.

* `Part.kind?` is the table of the fields that each part of a set has. A field that it does not
  list, or that lies in another wire type than its own, is skipped.
* `FileSet.read` reads a set. A part may not be declared longer than the part around it; where the
  input itself ends between two fields, every open part ends there. A group has no length, and has
  to be ended.
-/

namespace AtomTimeline

/-- Why bytes are no set of files. -/
inductive SetFault where
  /-- A value that does not end within the bytes there are. -/
  | truncated
  /-- A byte string declared to go on behind the part it lies in, or too long to be read at once
  and cut off. -/
  | truncatedString
  /-- A field number or wire type there is none of. -/
  | incorrectTag
  /-- A varint of more bytes or bits than its place allows. -/
  | incorrectVarint
  /-- The end of a group that was not begun. -/
  | unexpectedGroupEnd
  /-- A value outside the range of its type. -/
  | outOfRange (v : Int)
  /-- A text that is not well-formed. -/
  | badText
  /-- A part declared to end behind the last position there can be. -/
  | lengthOverflow
  /-- A part declared longer than the part around it. -/
  | lengthBeyondParent
  /-- Parts or groups nested in too many others. -/
  | tooDeep
  /-- The name of an option without a field that it must have. -/
  | incompleteName
  deriving DecidableEq, Repr

/-- The text of a fault. -/
def SetFault.message : SetFault → String
  | truncated => "Unexpected EOF"
  | truncatedString => "Truncated message"
  | incorrectTag => "Incorrect tag"
  | incorrectVarint => "Incorrect varint"
  | unexpectedGroupEnd => "Unexpected wire type"
  | outOfRange v => s!"Value too large for i32: {v}"
  | badText => "Invalid UTF-8 sequence"
  | lengthOverflow => "Limit overflow"
  | lengthBeyondParent => "New limit must not be greater than current limit"
  | tooDeep => "Over recursion limit"
  | incompleteName => "Message `NamePart` is missing required fields"

/-! ### The parts of a set -/

/-- The kinds of parts a set is made of. -/
inductive Part where
  | fileSet
  | file
  | message
  | extensionRange
  | range
  | field
  | oneof
  | enum
  | enumValue
  | service
  | method
  | fileOptions
  | messageOptions
  | fieldOptions
  | enumOptions
  | enumValueOptions
  | serviceOptions
  | methodOptions
  | plainOptions
  | uninterpretedOption
  | namePart
  | sourceInfo
  | location
  deriving DecidableEq, Repr

/-- The kinds of values a field of a part holds. -/
inductive PartFieldKind where
  | text
  | bytes
  /-- A signed 32-bit number, or the number of an enum value. -/
  | int32
  /-- Signed 32-bit numbers, each on its own or packed. -/
  | int32s
  | word
  | double
  | part (p : Part)
  deriving DecidableEq, Repr

/-- The number of the field that holds options no one has interpreted yet. -/
def uninterpretedOptionField : Nat := 999

namespace Part

/-- The field that holds uninterpreted options, in parts that have no other field. -/
def optionField? (number : Nat) : Option PartFieldKind :=
  if number = uninterpretedOptionField then some (.part uninterpretedOption) else none

/-- What a field of a part holds. -/
def kind? (p : Part) (number : Nat) : Option PartFieldKind :=
  match p with
  | fileSet => if number = 1 then some (.part file) else none
  | file =>
    match number with
    | 1 | 2 | 3 | 12 => some .text
    | 10 | 11 => some .int32s
    | 4 => some (.part message)
    | 5 => some (.part enum)
    | 6 => some (.part service)
    | 7 => some (.part field)
    | 8 => some (.part fileOptions)
    | 9 => some (.part sourceInfo)
    | _ => none
  | message =>
    match number with
    | 1 | 10 => some .text
    | 2 | 6 => some (.part field)
    | 3 => some (.part message)
    | 4 => some (.part enum)
    | 5 => some (.part extensionRange)
    | 7 => some (.part messageOptions)
    | 8 => some (.part oneof)
    | 9 => some (.part range)
    | _ => none
  | extensionRange =>
    match number with
    | 1 | 2 => some .int32
    | 3 => some (.part plainOptions)
    | _ => none
  | range =>
    match number with
    | 1 | 2 => some .int32
    | _ => none
  | field =>
    match number with
    | 1 | 2 | 6 | 7 | 10 => some .text
    | 3 | 4 | 5 | 9 => some .int32
    | 8 => some (.part fieldOptions)
    | 17 => some .word
    | _ => none
  | oneof =>
    match number with
    | 1 => some .text
    | 2 => some (.part plainOptions)
    | _ => none
  | enum =>
    match number with
    | 1 | 5 => some .text
    | 2 => some (.part enumValue)
    | 3 => some (.part enumOptions)
    | 4 => some (.part range)
    | _ => none
  | enumValue =>
    match number with
    | 1 => some .text
    | 2 => some .int32
    | 3 => some (.part enumValueOptions)
    | _ => none
  | service =>
    match number with
    | 1 => some .text
    | 2 => some (.part method)
    | 3 => some (.part serviceOptions)
    | _ => none
  | method =>
    match number with
    | 1 | 2 | 3 => some .text
    | 4 => some (.part methodOptions)
    | 5 | 6 => some .word
    | _ => none
  | fileOptions =>
    match number with
    | 1 | 8 | 11 | 36 | 37 | 39 | 40 | 41 | 44 | 45 => some .text
    | 9 => some .int32
    | 10 | 16 | 17 | 18 | 20 | 23 | 27 | 31 | 42 => some .word
    | _ => optionField? number
  | messageOptions =>
    match number with
    | 1 | 2 | 3 | 7 => some .word
    | _ => optionField? number
  | fieldOptions =>
    match number with
    | 1 | 6 => some .int32
    | 2 | 3 | 5 | 10 | 15 => some .word
    | _ => optionField? number
  | enumOptions =>
    match number with
    | 2 | 3 => some .word
    | _ => optionField? number
  | enumValueOptions => if number = 1 then some .word else optionField? number
  | serviceOptions => if number = 33 then some .word else optionField? number
  | methodOptions =>
    match number with
    | 33 => some .word
    | 34 => some .int32
    | _ => optionField? number
  | plainOptions => optionField? number
  | uninterpretedOption =>
    match number with
    | 2 => some (.part namePart)
    | 3 | 8 => some .text
    | 4 | 5 => some .word
    | 6 => some .double
    | 7 => some .bytes
    | _ => none
  | namePart =>
    match number with
    | 1 => some .text
    | 2 => some .word
    | _ => none
  | sourceInfo => if number = 1 then some (.part location) else none
  | location =>
    match number with
    | 1 | 2 => some .int32s
    | 3 | 4 | 6 => some .text
    | _ => none

end Part

/-- A part read, as far as declarations need it. -/
inductive PartValue where
  | fileSet (files : FileSet)
  | file (file : FileDecl)
  | message (message : MessageDecl)
  | field (field : FieldDecl)
  | enum (enum : EnumDecl)
  | enumValue (name : String) (number : Int)
  | other

/-- The value of a field of a part. -/
inductive PartDatum where
  | text (s : String)
  | int (v : Int)
  | part (p : PartValue)
  | other

/-- The values of a part's fields, each with its field number, in the order read. -/
abbrev PartFields := List (Nat × PartDatum)

namespace PartFields

/-- The last text in a field; empty if there is none. -/
def text (fs : PartFields) (number : Nat) : String :=
  ((fs.filterMap fun
    | (n, .text s) => if n = number then some s else none
    | _ => none).getLast?).getD ""

/-- The last number in a field, if there is one. -/
def int? (fs : PartFields) (number : Nat) : Option Int :=
  (fs.filterMap fun
    | (n, .int v) => if n = number then some v else none
    | _ => none).getLast?

/-- The parts in a field, in order. -/
def parts (fs : PartFields) (number : Nat) : List PartValue :=
  fs.filterMap fun
    | (n, .part p) => if n = number then some p else none
    | _ => none

/-- A field has a value. -/
def has (fs : PartFields) (number : Nat) : Bool := fs.any (fun f => f.1 = number)

end PartFields

namespace PartValue

def file? : PartValue → Option FileDecl
  | file f => some f
  | _ => none

def message? : PartValue → Option MessageDecl
  | message m => some m
  | _ => none

def field? : PartValue → Option FieldDecl
  | field f => some f
  | _ => none

def enum? : PartValue → Option EnumDecl
  | enum e => some e
  | _ => none

def enumValue? : PartValue → Option (String × Int)
  | enumValue name number => some (name, number)
  | _ => none

end PartValue

/-- The field declared by the fields of its part. A type or label there is none of reads as the
first one. -/
def PartFields.fieldDecl (fs : PartFields) : FieldDecl where
  name := fs.text 1
  number := (fs.int? 3).getD 0
  type := ((fs.int? 5).bind fun v => FieldType.ofCode? v.toNat).getD .double
  typeName := fs.text 6
  label := ((fs.int? 4).bind fun v => Label.ofCode? v.toNat).getD .optional

/-- A part from its fields. -/
def Part.build (p : Part) (fs : PartFields) : Except SetFault PartValue :=
  match p with
  | .fileSet => .ok (.fileSet ((fs.parts 1).filterMap PartValue.file?))
  | .file =>
    .ok (.file
      { package := fs.text 2, messages := (fs.parts 4).filterMap PartValue.message?,
        enums := (fs.parts 5).filterMap PartValue.enum? })
  | .message =>
    .ok (.message (.mk (fs.text 1) ((fs.parts 2).filterMap PartValue.field?)
      ((fs.parts 3).filterMap PartValue.message?) ((fs.parts 4).filterMap PartValue.enum?)))
  | .field => .ok (.field fs.fieldDecl)
  | .enum => .ok (.enum ⟨fs.text 1, (fs.parts 2).filterMap PartValue.enumValue?⟩)
  | .enumValue => .ok (.enumValue (fs.text 1) ((fs.int? 2).getD 0))
  | .namePart => if fs.has 1 && fs.has 2 then .ok .other else .error .incompleteName
  | _ => .ok .other

/-! ### Values on the wire -/

namespace SetReader

/-- Reads a varint of at most `limit` bytes and `bits` bits. -/
def readVarint (limit bits : Nat) (b : Bytes) : Except SetFault (Nat × Bytes) :=
  match Varint.readGroups limit b with
  | .ok (n, rest) => if n < 1 <<< bits then .ok (n, rest) else .error .incorrectVarint
  | .error (.cutOff, _) => .error .truncated
  | .error (.tooLong, _) => .error .incorrectVarint

/-- Reads a number of 64 bits. -/
def readWord (b : Bytes) : Except SetFault (Nat × Bytes) := readVarint Varint.maxLength 64 b

/-- The most bytes of a varint that holds 32 bits. -/
def maxShortLength : Nat := 5

/-- Reads a tag as a number, or the length of a byte string: 32 bits. -/
def readShort (b : Bytes) : Except SetFault (Nat × Bytes) := readVarint maxShortLength 32 b

/-- Reads a signed number of 32 bits, which is written as one of 64. -/
def readInt32 (b : Bytes) : Except SetFault (Int × Bytes) :=
  match readWord b with
  | .ok (n, rest) =>
    let v := (UInt64.ofNat n).toInt64.toInt
    if Int32.minValue.toInt ≤ v ∧ v ≤ Int32.maxValue.toInt then .ok (v, rest)
    else .error (.outOfRange v)
  | .error e => .error e

/-- Reads `n` bytes. -/
def readBytes (n : Nat) (b : Bytes) : Except SetFault (Bytes × Bytes) :=
  match Bytes.splitFront? n b with
  | some r => .ok r
  | none => .error .truncated

/-- Reads signed numbers of 32 bits up to the end, one for each unit of fuel. -/
def checkInt32s : (fuel : Nat) → Bytes → Except SetFault Unit
  | 0, _ => .ok ()
  | fuel + 1, b =>
    if b = [] then .ok ()
    else
      match readInt32 b with
      | .ok (_, rest) => checkInt32s fuel rest
      | .error e => .error e

/-- A tag: a field number and the number of a wire type. -/
structure Tag where
  number : Nat
  wireType : Nat
  deriving DecidableEq, Repr

/-- Reads a tag. -/
def readTag (b : Bytes) : Except SetFault (Tag × Bytes) :=
  match readShort b with
  | .error e => .error e
  | .ok (n, rest) =>
    if n / 8 = 0 ∨ 6 ≤ n % 8 then .error .incorrectTag
    else .ok (⟨n / 8, n % 8⟩, rest)

/-! ### Parts within parts -/

/-- What is left of a part. -/
structure Window where
  /-- The bytes that are present. -/
  bytes : Bytes
  /-- The position behind them, counted from the start of the set. -/
  stop : Nat
  /-- How many more bytes were declared than are present; no bound is declared for the set
  itself. -/
  excess : Option Nat

namespace Window

/-- A part of which less is left. -/
def advance (w : Window) (rest : Bytes) : Window := { w with bytes := rest }

/-- The number of bytes by which a length declared in front of `rest` goes beyond what is
present. -/
def beyond (rest : Bytes) (n : Nat) : Nat := n - rest.length

/-- A length declared in front of `rest` goes beyond what the part was declared to hold. -/
def exceeds (w : Window) (rest : Bytes) (n : Nat) : Bool := w.excess.any (· < beyond rest n)

/-- Skips a byte string behind its length. -/
def skipDelimited (w : Window) : Except SetFault Bytes :=
  match readShort w.bytes with
  | .error e => .error e
  | .ok (n, rest) =>
    if w.exceeds rest n then .error .truncatedString else (readBytes n rest).map Prod.snd

/-- The least length of a byte string that is read piece by piece. -/
def piecewiseLength : Nat := 10000000

/-- Reads a byte string behind its length. -/
def readDelimited (w : Window) : Except SetFault (Bytes × Bytes) :=
  match readShort w.bytes with
  | .error e => .error e
  | .ok (n, rest) =>
    if w.exceeds rest n then .error .truncatedString
    else if piecewiseLength ≤ n ∧ rest.length < n then .error .truncatedString
    else readBytes n rest

/-- The content of a part, or of a packed run, behind its declared length, and what follows it. The
end of the bytes ends it too. -/
def enter (w : Window) : Except SetFault (Window × Bytes) :=
  match readWord w.bytes with
  | .error e => .error e
  | .ok (n, rest) =>
    if UInt64.size ≤ w.stop - rest.length + n then .error .lengthOverflow
    else if w.exceeds rest n then .error .lengthBeyondParent
    else .ok (⟨rest.take n, w.stop - (rest.drop n).length, some (beyond rest n)⟩, rest.drop n)

end Window

/-- Skips a number. -/
def skipNumber (wireType : Nat) (w : Window) : Except SetFault Bytes :=
  match wireType with
  | 0 => (readWord w.bytes).map Prod.snd
  | 1 => (readBytes 8 w.bytes).map Prod.snd
  | 5 => (readBytes 4 w.bytes).map Prod.snd
  | _ => .error .unexpectedGroupEnd

/-- Skips to the end of a group that has `inner` more groups open in it, and may have `levels`. A
group ends with any number behind its end. Each unit of fuel reads one tag. -/
def skipGroup (levels : Nat) : (fuel : Nat) → (inner : Nat) → Window → Except SetFault Bytes
  | 0, _, _ => .error .truncated
  | fuel + 1, inner, w =>
    match readTag w.bytes with
    | .error e => .error e
    | .ok (tag, rest) =>
      match tag.wireType with
      | 3 =>
        if inner < levels then skipGroup levels fuel (inner + 1) (w.advance rest)
        else .error .tooDeep
      | 4 =>
        match inner with
        | 0 => .ok rest
        | inner + 1 => skipGroup levels fuel inner (w.advance rest)
      | wireType =>
        let value := w.advance rest
        match if wireType = 2 then value.skipDelimited else skipNumber wireType value with
        | .ok after => skipGroup levels fuel inner (w.advance after)
        | .error e => .error e

/-- Skips a value; a group may have `levels` more open in it, one in the other. A byte string that
lies in no group is read as if it were known. -/
def skip (levels wireType : Nat) (w : Window) : Except SetFault Bytes :=
  match wireType with
  | 2 => w.readDelimited.map Prod.snd
  | 3 => skipGroup levels (w.bytes.length + 1) 0 w
  | wireType => skipNumber wireType w

/-- A reader of parts behind their declared lengths. -/
abbrev PartReader := Part → Window → Except SetFault (PartValue × Bytes)

/-- Reads the value of a known field; `none` if it lies in another wire type than its own. -/
def readKnown (readPart : PartReader) (kind : PartFieldKind) (wireType : Nat) (w : Window) :
    Except SetFault (Option (PartDatum × Bytes)) :=
  match kind, wireType with
  | .text, 2 =>
    match w.readDelimited with
    | .error e => .error e
    | .ok (raw, rest) =>
      match Utf8.text? raw with
      | some s => .ok (some (.text s, rest))
      | none => .error .badText
  | .bytes, 2 => w.readDelimited.map fun r => some (.other, r.2)
  | .int32, 0 => (readInt32 w.bytes).map fun r => some (.int r.1, r.2)
  | .int32s, 0 => (readInt32 w.bytes).map fun r => some (.other, r.2)
  | .int32s, 2 =>
    match w.enter with
    | .error e => .error e
    | .ok (run, rest) => (checkInt32s run.bytes.length run.bytes).map fun _ => some (.other, rest)
  | .word, 0 => (readWord w.bytes).map fun r => some (.other, r.2)
  | .double, 1 => (readBytes 8 w.bytes).map fun r => some (.other, r.2)
  | .part p, 2 => (readPart p w).map fun r => some (.part r.1, r.2)
  | _, _ => .ok none

/-- Reads the fields of a part, one for each unit of fuel; a group among them may have `levels` more
open in it. -/
def readFields (levels : Nat) (readPart : PartReader) (p : Part) :
    (fuel : Nat) → Window → Except SetFault PartFields
  | 0, _ => .ok []
  | fuel + 1, w =>
    if w.bytes = [] then .ok []
    else
      match readTag w.bytes with
      | .error e => .error e
      | .ok (tag, rest) =>
        let value := w.advance rest
        let known :=
          match p.kind? tag.number with
          | some kind => readKnown readPart kind tag.wireType value
          | none => .ok none
        match known with
        | .error e => .error e
        | .ok (some (datum, after)) =>
          (readFields levels readPart p fuel (w.advance after)).map ((tag.number, datum) :: ·)
        | .ok none =>
          match skip levels tag.wireType value with
          | .error e => .error e
          | .ok after => readFields levels readPart p fuel (w.advance after)

/-- Reads the content of a part, with at most `levels` parts open in it, one in the other. -/
def readContent : (levels : Nat) → Part → Window → Except SetFault PartValue
  | 0, p, w => do
    p.build (← readFields 0 (fun _ _ => .error .tooDeep) p w.bytes.length w)
  | levels + 1, p, w => do
    let readPart : PartReader := fun inner v => do
      let (content, rest) ← v.enter
      pure (← readContent levels inner content, rest)
    p.build (← readFields (levels + 1) readPart p w.bytes.length w)

/-- The most parts that may be open in a set, one in the other. -/
def maxOpenParts : Nat := 100

end SetReader

/-- Reads a set of files. -/
def FileSet.read (b : Bytes) : Except SetFault FileSet :=
  match SetReader.readContent SetReader.maxOpenParts .fileSet ⟨b, b.length, none⟩ with
  | .ok (.fileSet files) => .ok files
  | .ok _ => .ok []
  | .error e => .error e

end AtomTimeline
