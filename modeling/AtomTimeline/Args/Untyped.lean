import AtomTimeline.Args.Parse

/-!
Arguments of a message whose type is not known: one for every top-level field, named by the field's
id and valued by its wire type alone.

* `untypedArgs` never fails: a malformed field ends the arguments, and those before it stay.
-/

namespace AtomTimeline

/-- The name of a field that only its id is known of. -/
def fieldName (id : UInt32) : String := "field_" ++ toString id.toNat

/-- The argument of a field of unknown type. A varint is taken as signed and never as zig-zag, a
fixed-width value as a real, and of bytes nothing is assumed. -/
def untypedArg (f : Field) : Arg :=
  match f.value with
  | .lengthDelimited b => ⟨.ofName (fieldName f.id), .bytes b⟩
  | .varint v => ⟨.ofName (fieldName f.id), .int v.toInt64⟩
  | .fixed32 v => ⟨.ofName (fieldName f.id ++ "_assuming_float"), .real (widenReal v)⟩
  | .fixed64 v => ⟨.ofName (fieldName f.id ++ "_assuming_double"), .real v⟩

/-- The arguments of a message of unknown type. -/
def untypedArgs (b : Bytes) : List Arg := (scan b).fields.map untypedArg

end AtomTimeline
