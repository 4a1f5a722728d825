import Std.Data.HashMap

/-!
Interned strings: each distinct string is held once and known by a number.

* `StringPool.intern` gives the number of a string, issuing the next one if the string is new.
* `StringPool.get?` gives the string behind a number. Number 0 is the empty string.
* A number is a word of 32 bits (`StringId.ofPlace`). So in a pool of more than `2 ^ 32` strings
  some have the same one, and what is behind it is the earliest of these.
-/

namespace AtomTimeline

/-- The number of an interned string. -/
structure StringId where
  val : UInt32
  deriving DecidableEq, Hashable, Repr

/-- The number of the string at a place of the pool. -/
def StringId.ofPlace (place : Nat) : StringId := ⟨UInt32.ofNat place⟩

/-- The number of the empty string, which also stands for no string. -/
def StringId.empty : StringId := ⟨0⟩

/-- A store of distinct strings. -/
structure StringPool where
  /-- The strings in the order of their numbers. -/
  strings : Array String
  /-- The number of each string. -/
  index : Std.HashMap String StringId

namespace StringPool

/-- The pool that holds the empty string alone. -/
def initial : StringPool where
  strings := #[""]
  index := (∅ : Std.HashMap String StringId).insert "" .empty

instance : Inhabited StringPool := ⟨initial⟩

/-- The number of a string, and the pool in which it is held. -/
def intern (pool : StringPool) (s : String) : StringId × StringPool :=
  match pool.index[s]? with
  | some id => (id, pool)
  | none =>
    let id := StringId.ofPlace pool.strings.size
    (id, { strings := pool.strings.push s, index := pool.index.insert s id })

/-- The string behind a number. -/
def get? (pool : StringPool) (id : StringId) : Option String := pool.strings[id.val.toNat]?

end StringPool

end AtomTimeline
