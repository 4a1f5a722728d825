import AtomTimeline.Schema.Declaration

/-!
Descriptors of message and enum types, known by full name.

* `Pool.add` adds all that a set of files defines; of two definitions of a name the first is kept.
  A field number that is no positive 32-bit integer is an error, and then what was added before it
  stays.
* `Pool.resolveName?` finds the type a relative name means: the innermost scope wins.
-/

namespace AtomTimeline

/-- A field of a message type. -/
structure FieldDescriptor where
  name : String
  number : UInt32
  type : FieldType
  /-- The full name of the message or enum type, or the declared name where none was found. -/
  typeName : String
  repeated : Bool
  deriving DecidableEq, Repr

/-- A message type. -/
structure MessageDescriptor where
  fullName : String
  /-- The fields in the order of their numbers. -/
  fields : List FieldDescriptor
  deriving DecidableEq, Repr

/-- An enum type. -/
structure EnumDescriptor where
  fullName : String
  /-- The values as declared. -/
  values : List (String × Int)
  deriving DecidableEq, Repr

/-- The types that are known. -/
structure Pool where
  messages : List MessageDescriptor
  enums : List EnumDescriptor
  deriving DecidableEq, Repr

/-- A declaration that cannot be used. -/
structure InvalidFieldNumber where
  message : String
  field : String
  number : Int
  deriving DecidableEq, Repr

/-- The text of the error. -/
def InvalidFieldNumber.text (e : InvalidFieldNumber) : String :=
  "field " ++ e.field ++ " of " ++ e.message ++ " has invalid number " ++ toString e.number

/-- The field with a number. -/
def MessageDescriptor.field? (m : MessageDescriptor) (number : UInt32) : Option FieldDescriptor :=
  m.fields.find? (fun f => f.number = number)

/-- The name of an enum value. Of several values with the number the last declared is taken. -/
def EnumDescriptor.valueName? (e : EnumDescriptor) (number : Int) : Option String :=
  (e.values.reverse.find? (fun v => v.2 = number)).map Prod.fst

/-- Puts a field among others in the order of numbers, in place of one with its number. -/
def insertField (f : FieldDescriptor) : List FieldDescriptor → List FieldDescriptor
  | [] => [f]
  | g :: gs =>
    if f.number < g.number then f :: g :: gs
    else if f.number = g.number then f :: gs
    else g :: insertField f gs

/-- The descriptor of a declared field, if its number can be used. -/
def FieldDecl.descriptor (message : String) (f : FieldDecl) :
    Except InvalidFieldNumber FieldDescriptor :=
  if 0 < f.number ∧ f.number ≤ Int32.maxValue.toInt then
    .ok
      { name := f.name, number := UInt32.ofNat f.number.toNat, type := f.type,
        typeName := f.typeName, repeated := f.label = .repeated }
  else .error ⟨message, f.name, f.number⟩

/-- The descriptors of declared fields. Of several with one number the last is taken. -/
def fieldDescriptors (message : String) :
    List FieldDecl → List FieldDescriptor → Except InvalidFieldNumber (List FieldDescriptor)
  | [], fields => .ok fields
  | f :: fs, fields =>
    match f.descriptor message with
    | .ok d => fieldDescriptors message fs (insertField d fields)
    | .error e => .error e

namespace Pool

/-- No types. -/
def empty : Pool := ⟨[], []⟩

/-- A name with its leading dot. -/
def absolute (name : String) : String :=
  match name.toList with
  | '.' :: _ => name
  | _ => "." ++ name

/-- The message type with a full name. -/
def message? (pool : Pool) (fullName : String) : Option MessageDescriptor :=
  pool.messages.find? (fun m => m.fullName = fullName)

/-- The enum type with a full name. -/
def enum? (pool : Pool) (fullName : String) : Option EnumDescriptor :=
  pool.enums.find? (fun e => e.fullName = fullName)

/-- The message type with a name, whose leading dot may be missing. -/
def findMessage? (pool : Pool) (name : String) : Option MessageDescriptor :=
  pool.message? (absolute name)

/-- The enum type with a name, whose leading dot may be missing. -/
def findEnum? (pool : Pool) (name : String) : Option EnumDescriptor :=
  pool.enum? (absolute name)

/-! ### Relative names -/

/-- The scope around a full name: all before its last dot. -/
def enclosing (name : List Char) : List Char :=
  ((name.reverse.dropWhile (· ≠ '.')).drop 1).reverse

theorem length_enclosing_lt {c : Char} {cs : List Char} :
    (enclosing (c :: cs)).length < (c :: cs).length := by
  have bound : (((c :: cs).reverse.dropWhile (· ≠ '.')).length) ≤ (c :: cs).reverse.length :=
    (List.dropWhile_suffix _).length_le
  simp only [enclosing, List.length_reverse, List.length_drop] at *
  simp only [List.length_cons] at *
  omega

/-- The scopes a name is in, innermost first: the name itself, then one dot less each time, and at
last the empty scope. -/
def scopes : List Char → List (List Char)
  | [] => [[]]
  | c :: cs => (c :: cs) :: scopes (enclosing (c :: cs))
termination_by name => name.length
decreasing_by exact length_enclosing_lt

/-- A message or an enum with the full name is known. -/
def defines (pool : Pool) (fullName : String) : Bool :=
  (pool.message? fullName).isSome || (pool.enum? fullName).isSome

/-- The full name a relative name has in the innermost scope where it is known. -/
def resolveName? (pool : Pool) (scope name : String) : Option String :=
  ((scopes scope.toList).map (fun s => qualify (String.ofList s) name)).find? pool.defines

/-- A declared type name as it is kept: an empty or full one as it is, a relative one resolved if
its type is known. -/
def resolvedName (pool : Pool) (scope name : String) : String :=
  match name.toList with
  | [] => name
  | '.' :: _ => name
  | _ => (pool.resolveName? scope name).getD name

/-- A message type with the type names of its fields resolved. -/
def resolveFields (pool : Pool) (m : MessageDescriptor) : MessageDescriptor :=
  { m with
    fields := m.fields.map fun f => { f with typeName := pool.resolvedName m.fullName f.typeName } }

/-! ### Adding -/

/-- Adds one definition; a name that is known already keeps its type. -/
def addDefinition (pool : Pool) : Definition → Except InvalidFieldNumber Pool
  | .message fullName fields =>
    if (pool.message? fullName).isSome then .ok pool
    else
      match fieldDescriptors fullName fields [] with
      | .ok fields => .ok { pool with messages := pool.messages ++ [⟨fullName, fields⟩] }
      | .error e => .error e
  | .enum fullName values =>
    if (pool.enum? fullName).isSome then .ok pool
    else .ok { pool with enums := pool.enums ++ [⟨fullName, values⟩] }

/-- Adds definitions up to one that cannot be used. -/
def addDefinitions (pool : Pool) : List Definition → Pool × Option InvalidFieldNumber
  | [] => (pool, none)
  | d :: ds =>
    match pool.addDefinition d with
    | .ok grown => grown.addDefinitions ds
    | .error e => (pool, some e)

/-- Resolves the type names in all messages but the first `known`. -/
def resolveFrom (pool : Pool) (known : Nat) : Pool :=
  { pool with
    messages := pool.messages.take known ++ (pool.messages.drop known).map pool.resolveFields }

/-- Adds all that a set of files defines and resolves the type names in it. After an error what was
added before it stays, unresolved. -/
def add (pool : Pool) (set : FileSet) : Pool × Option InvalidFieldNumber :=
  match pool.addDefinitions set.definitions with
  | (grown, none) => (grown.resolveFrom pool.messages.length, none)
  | (grown, some e) => (grown, some e)

end Pool

end AtomTimeline
