import AtomTimeline.Tables.Storage

/-!
Arguments read from a message: a key with and without the positions in repeated fields, and a value.

* `Key.child` and `Key.atPosition` build keys: a repeated field has its position in `full`
  (`a[2].b`) and not in `flat` (`a.b`).
-/

namespace AtomTimeline

/-- The key of an argument. -/
structure Key where
  /-- The names on the way to the value, joined by dots. -/
  flat : String
  /-- The same with the position in every repeated field. -/
  full : String
  deriving DecidableEq, Repr

namespace Key

/-- The key of a message that is no field of another. -/
def root : Key := ⟨"", ""⟩

/-- The key of a field that is in no message. -/
def ofName (name : String) : Key := ⟨name, name⟩

/-- The key of a field of the message with this key. -/
def child (k : Key) (name : String) : Key :=
  if k.flat.isEmpty then ofName name else ⟨k.flat ++ "." ++ name, k.full ++ "." ++ name⟩

/-- The key of the value at a position in the repeated field with this key. -/
def atPosition (k : Key) (position : Nat) : Key := { k with full := k.full ++ s!"[{position}]" }

end Key

/-- The value of an argument as it is read. -/
abbrev ReadValue := Value String Bytes

/-- An argument as it is read. -/
structure Arg where
  key : Key
  value : ReadValue
  deriving DecidableEq, Repr

end AtomTimeline
