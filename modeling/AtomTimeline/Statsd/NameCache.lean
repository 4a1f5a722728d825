import AtomTimeline.Schema.AtomSchema
import AtomTimeline.Timeline

/-!
Names of atoms and how they are decoded, looked up once for each id.

* `NameCache.resolve` answers from memory where it can. While the schema is missing nothing is
  remembered, so that every atom is looked up, and counted.
-/

namespace AtomTimeline

/-- How the payload of an atom is decoded. -/
inductive AtomRoute where
  /-- By its declared type. -/
  | schema
  /-- From wire types, the id being unknown. -/
  | unknown
  /-- From wire types, there being no schema. -/
  | noSchema
  deriving DecidableEq, Repr

/-- The name of an atom and how it is decoded. -/
structure ResolvedAtom where
  name : StringId
  route : AtomRoute
  deriving DecidableEq, Repr

/-- The name of every atom while the schema is missing. -/
def missingSchemaName : String := "Could not load atom descriptor"

/-- The name of an atom whose id is unknown. -/
def unknownAtomName (id : UInt32) : String := "atom_" ++ toString id.toNat

/-- What was found out about atom ids. -/
structure NameCache where
  entries : Std.HashMap UInt32 ResolvedAtom
  /-- How often the schema was asked. -/
  lookups : Nat

namespace NameCache

/-- Nothing found out yet. -/
def empty : NameCache := ⟨∅, 0⟩

/-- The name and route of an atom as the schema has them, and whether they may be remembered. A
missing schema is counted. -/
def ask (schema : AtomSchema) (st : Storage) (id : UInt32) : ResolvedAtom × Bool × Storage :=
  match schema.lookup id with
  | .noSchema =>
    let (name, st) := (st.count .atomUnknown).intern missingSchemaName
    (⟨name, .noSchema⟩, false, st)
  | .known declared =>
    let (name, st) := st.intern declared
    (⟨name, .schema⟩, true, st)
  | .unknown =>
    let (name, st) := st.intern (unknownAtomName id)
    (⟨name, .unknown⟩, true, st)

/-- The name and route of an atom. -/
def resolve (cache : NameCache) (schema : AtomSchema) (st : Storage) (id : UInt32) :
    ResolvedAtom × NameCache × Storage :=
  match cache.entries[id]? with
  | some atom => (atom, cache, st)
  | none =>
    let (atom, lasting, st) := ask schema st id
    let entries := if lasting then cache.entries.insert id atom else cache.entries
    (atom, ⟨entries, cache.lookups + 1⟩, st)

end NameCache

end AtomTimeline
