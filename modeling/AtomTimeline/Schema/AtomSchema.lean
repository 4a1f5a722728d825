import AtomTimeline.Schema.Atoms
import AtomTimeline.Schema.Pool
import AtomTimeline.Schema.SetReader

/-!
Schemas: known types and the name of the message whose fields are the atoms.

* `AtomSchema.lookup` says what the schema knows of an atom id.
* `AtomSchema.builtin` knows the atoms of `Atoms`, `AtomSchema.missing` nothing, and
  `AtomSchema.read?` what a serialized descriptor set declares.
-/

namespace AtomTimeline

/-- Why a descriptor set cannot be used. -/
inductive SchemaError where
  /-- The bytes are no set of files. -/
  | unreadable (fault : SetFault)
  | invalidFieldNumber (cause : InvalidFieldNumber)
  deriving DecidableEq, Repr

/-- The text of an error. -/
def SchemaError.message : SchemaError → String
  | .unreadable fault => "failed to decode FileDescriptorSet: " ++ fault.message
  | .invalidFieldNumber cause => cause.text

namespace Pool

/-- Adds all that a serialized set of files defines. Bytes that are no set change nothing. -/
def addBytes (pool : Pool) (b : Bytes) : Pool × Option SchemaError :=
  match FileSet.read b with
  | .error fault => (pool, some (.unreadable fault))
  | .ok set =>
    match pool.add set with
    | (grown, none) => (grown, none)
    | (grown, some e) => (grown, some (.invalidFieldNumber e))

end Pool

/-- Known types and the name of the message whose fields are the atoms. -/
structure AtomSchema where
  pool : Pool
  atomMessageName : String
  deriving DecidableEq, Repr

/-- What a schema knows of an atom id. -/
inductive AtomLookup where
  /-- The message whose fields are the atoms is not known. -/
  | noSchema
  /-- The id is that of an atom with this name. -/
  | known (name : String)
  /-- No atom has the id. -/
  | unknown
  deriving DecidableEq, Repr

namespace AtomSchema

/-- The message whose fields are the atoms, if it is known. -/
def atom? (schema : AtomSchema) : Option MessageDescriptor :=
  schema.pool.findMessage? schema.atomMessageName

/-- What the schema knows of an atom id. -/
def lookup (schema : AtomSchema) (id : UInt32) : AtomLookup :=
  match schema.atom? with
  | none => .noSchema
  | some atom =>
    match atom.field? id with
    | some f => .known f.name
    | none => .unknown

/-- The types declared for the common atoms. -/
def builtinPool : Pool := (Pool.empty.add Atoms.files).1

/-- The common atoms. -/
def builtin : AtomSchema := ⟨builtinPool, Atoms.messageName⟩

/-- No types at all. -/
def missing : AtomSchema := ⟨.empty, Atoms.messageName⟩

/-- The schema of a serialized descriptor set. -/
def read? (b : Bytes) (atomMessageName : String) : Except SchemaError AtomSchema :=
  match Pool.empty.addBytes b with
  | (pool, none) => .ok ⟨pool, atomMessageName⟩
  | (_, some e) => .error e

end AtomSchema

end AtomTimeline
