import AtomTimeline.Proofs.Wire.RoundTrip
import AtomTimeline.Proofs.Tables.Strings
import AtomTimeline.Statsd.AtomImporter

/-!
What an atom means under a schema, said without the importer: the id of its first field, the name
under that id, and the arguments.

* `AtomPayload.id`, `AtomSchema.title` and `AtomSchema.args` are these, and `AtomSchema.growth` is
  what the atom adds to the counters.
* `NameCache.Remembers.resolve`: whatever a cache remembers of a schema, resolving an id is asking
  the schema. `NameCache.resolve_spec`: it gives the number of the title and the route the schema
  asks for, and changes nothing but strings and counters.
* `AtomImporter.decode_args`: the arguments read along that route are the atom's.
-/

namespace AtomTimeline

/-! ### Payloads -/

lemma firstField?_eq_head? (b : Bytes) : firstField? b = (scan b).fields.head? := by
  rw [firstField?, Reader.next, Reader.ofBytes]
  by_cases hb : b = []
  · subst hb
    rw [scan_nil]
    rfl
  · rw [if_neg (by simpa using hb)]
    cases hr : Field.read b with
    | ok found => rw [scan_of_read hr, Scan.cons, List.head?_cons]
    | error left => rw [scan_of_read_error hb hr, List.head?_nil]

namespace AtomPayload

/-- The id of an atom: that of its first field, or zero if there is no first field that can be
read. -/
def id (payload : Bytes) : UInt32 := ((scan payload).fields.head?.map Field.id).getD 0

/-- The bytes that are read without a schema: what is in the first field if that is
length-delimited, and otherwise the whole payload. -/
def body (payload : Bytes) : Bytes :=
  match (scan payload).fields.head? with
  | some ⟨_, .lengthDelimited inner⟩ => inner
  | _ => payload

end AtomPayload

/-! ### Names and arguments -/

namespace AtomSchema

/-- The name under an id. -/
def titleOf (schema : AtomSchema) (id : UInt32) : String :=
  match schema.lookup id with
  | .known name => name
  | .unknown => "atom_" ++ toString id.toNat
  | .noSchema => "Could not load atom descriptor"

/-- How the atoms with an id are decoded. -/
def routeOf (schema : AtomSchema) (id : UInt32) : AtomRoute :=
  match schema.lookup id with
  | .known _ => .schema
  | .unknown => .unknown
  | .noSchema => .noSchema

/-- The name of an atom: the declared name of its field, a name made of its id, or the name of all
atoms if the message of atoms is not known. -/
def title (schema : AtomSchema) (payload : Bytes) : String :=
  schema.titleOf (AtomPayload.id payload)

/-- The arguments of an atom: those of its declared type, or those of the wire types in its body. -/
def args (schema : AtomSchema) (payload : Bytes) : List Arg :=
  match schema.lookup (AtomPayload.id payload) with
  | .known _ => (schema.parseAtom payload).args
  | _ => untypedArgs (AtomPayload.body payload)

/-- What an atom adds to the count of unknown atoms: one for want of a schema, even if its slice is
refused; otherwise one if it has a slice and cannot be decoded by the schema, vendors' atoms
apart. -/
def unknownGrowth (schema : AtomSchema) (payload : Bytes) (refused : Bool) : Int64 :=
  match schema.lookup (AtomPayload.id payload) with
  | .noSchema => 1
  | .known _ => if refused then 0 else if (schema.parseAtom payload).error.isSome then 1 else 0
  | .unknown => if refused then 0 else if AtomPayload.id payload < vendorAtomIdStart then 1 else 0

/-- What an atom adds to each counter. -/
def growth (schema : AtomSchema) (payload : Bytes) (refused : Bool) : Stat → Int64
  | .atomUnknown => schema.unknownGrowth payload refused
  | .sliceOutOfOrder => if refused then 1 else 0
  | _ => 0

end AtomSchema

namespace AtomImporter

lemma untypedBody_eq (payload : Bytes) :
    untypedBody payload (firstField? payload) = AtomPayload.body payload := by
  rw [firstField?_eq_head?, AtomPayload.body]
  rcases (scan payload).fields.head? with _ | ⟨id, value⟩
  · rfl
  · cases value <;> rfl

/-- Decoding along the route of the id reads the arguments of the atom. -/
theorem decode_args (schema : AtomSchema) (payload : Bytes) :
    (decode schema (schema.routeOf (AtomPayload.id payload)) payload (firstField? payload)).args =
      schema.args payload := by
  rw [AtomSchema.routeOf, AtomSchema.args]
  cases schema.lookup (AtomPayload.id payload) with
  | known name => rfl
  | unknown => simp only [decode, untypedBody_eq, ArgsResult.ofArgs]
  | noSchema => simp only [decode, untypedBody_eq, ArgsResult.ofArgs]

/-- The three places where an atom may be counted as unknown: when its name is looked up, when its
route is chosen, and when decoding fails. An atom meets no more than one of them. -/
lemma unknownGrowth_eq (schema : AtomSchema) (payload : Bytes) (refused : Bool) :
    schema.unknownGrowth payload refused =
      (if schema.routeOf (AtomPayload.id payload) = .noSchema then 1 else 0) +
        if refused then 0
        else
          (if schema.routeOf (AtomPayload.id payload) = .unknown ∧
            AtomPayload.id payload < vendorAtomIdStart then 1 else 0) +
          if (decode schema (schema.routeOf (AtomPayload.id payload)) payload
            (firstField? payload)).error.isSome then 1 else 0 := by
  rw [AtomSchema.unknownGrowth, AtomSchema.routeOf]
  cases schema.lookup (AtomPayload.id payload) with
  | known name =>
      simp only [decode, reduceCtorEq, false_and, if_false, Int64.zero_add]
      rfl
  | unknown => simp [decode, ArgsResult.ofArgs]
  | noSchema => simp [decode, ArgsResult.ofArgs]

end AtomImporter

/-! ### What a cache remembers -/

namespace NameCache

variable {schema : AtomSchema} {pool grown : StringPool} {cache : NameCache}

/-- What the cache remembers is what the schema and the index of the pool would answer; nothing is
remembered of ids without a schema. -/
def Remembers (cache : NameCache) (schema : AtomSchema) (pool : StringPool) : Prop :=
  ∀ (id : UInt32) (atom : ResolvedAtom), cache.entries[id]? = some atom →
    pool.Numbers atom.name (schema.titleOf id) ∧ atom.route = schema.routeOf id ∧
      atom.route ≠ .noSchema

lemma remembers_empty (schema : AtomSchema) (pool : StringPool) : empty.Remembers schema pool := by
  intro id atom h
  simp [empty] at h

lemma Remembers.mono (hkeeps : pool.Keeps grown) (h : cache.Remembers schema pool) :
    cache.Remembers schema grown := by
  intro id atom hatom
  obtain ⟨hname, hroute⟩ := h id atom hatom
  exact ⟨hkeeps.numbers hname, hroute⟩

/-- The counting of an atom for which there is no schema. -/
def countMissing (route : AtomRoute) (st : Storage) : Storage :=
  if route = .noSchema then st.count .atomUnknown else st

lemma countMissing_eq (route : AtomRoute) (st : Storage) :
    countMissing route st =
      { st with
        counters := st.counters.add .atomUnknown (if route = .noSchema then 1 else 0) } := by
  rw [countMissing]
  split
  · rfl
  · rw [Counters.add_zero]

/-- The schema answers with the number of the title and the route. -/
lemma ask_eq (schema : AtomSchema) (st : Storage) (id : UInt32) :
    ask schema st id =
      (⟨(st.strings.intern (schema.titleOf id)).1, schema.routeOf id⟩,
        decide (schema.routeOf id ≠ .noSchema),
        { countMissing (schema.routeOf id) st with
          strings := (st.strings.intern (schema.titleOf id)).2 }) := by
  rw [ask, AtomSchema.titleOf, AtomSchema.routeOf]
  cases schema.lookup id <;> rfl

/-- What is remembered of an id is what asking again would give, and asking would change nothing. -/
lemma Remembers.ask_eq {st : Storage} (h : cache.Remembers schema st.strings) {id : UInt32}
    {atom : ResolvedAtom} (hatom : cache.entries[id]? = some atom) :
    ask schema st id = (atom, true, st) := by
  obtain ⟨hname, hroute, hlast⟩ := h id atom hatom
  obtain ⟨name, route⟩ := atom
  simp only at hname hroute hlast
  subst hroute
  rw [NameCache.ask_eq, StringPool.intern_of_known hname, countMissing, if_neg hlast,
    decide_eq_true hlast]

/-- Remembering one more id, as the schema and the pool have it. -/
lemma Remembers.insert (h : cache.Remembers schema pool) {id : UInt32} {atom : ResolvedAtom}
    (hname : pool.Numbers atom.name (schema.titleOf id))
    (hroute : atom.route = schema.routeOf id) (hlast : atom.route ≠ .noSchema) (lookups : ℕ) :
    Remembers ⟨cache.entries.insert id atom, lookups⟩ schema pool := by
  intro other found hfound
  simp only [Std.HashMap.getElem?_insert, beq_iff_eq] at hfound
  split at hfound
  · next hid =>
    cases hfound
    exact hid ▸ ⟨hname, hroute, hlast⟩
  · exact h other found hfound

lemma resolve_of_known {id : UInt32} {atom : ResolvedAtom} (h : cache.entries[id]? = some atom)
    (schema : AtomSchema) (st : Storage) : cache.resolve schema st id = (atom, cache, st) := by
  rw [NameCache.resolve, h]

/-- An id that is not remembered is asked for, and remembered unless the schema is missing. -/
lemma resolve_of_new {id : UInt32} (h : cache.entries[id]? = none) (schema : AtomSchema)
    (st : Storage) :
    cache.resolve schema st id = ((ask schema st id).1,
      ⟨if schema.routeOf id = .noSchema then cache.entries
        else cache.entries.insert id (ask schema st id).1, cache.lookups + 1⟩,
      (ask schema st id).2.2) := by
  rw [NameCache.resolve, h, NameCache.ask_eq]
  by_cases hroute : schema.routeOf id = .noSchema <;> simp [hroute]

/-- **Resolving is asking**, whatever is remembered; and what is remembered stays what the schema
and the pool would answer. -/
theorem Remembers.resolve {st : Storage} (h : cache.Remembers schema st.strings) (id : UInt32) :
    ∃ known, cache.resolve schema st id = ((ask schema st id).1, known, (ask schema st id).2.2) ∧
      known.Remembers schema (ask schema st id).2.2.strings := by
  cases hatom : cache.entries[id]? with
  | some atom =>
      rw [resolve_of_known hatom, h.ask_eq hatom]
      exact ⟨cache, rfl, h⟩
  | none =>
      have hkept := h.mono (StringPool.keeps_intern st.strings (schema.titleOf id))
      have hname := StringPool.numbers_intern st.strings (schema.titleOf id)
      rw [resolve_of_new hatom, NameCache.ask_eq]
      refine ⟨_, rfl, ?_⟩
      split
      · exact hkept
      · next hroute => exact hkept.insert hname rfl hroute _

/-- **Resolving an id** gives the number of its title and its route, whether it was remembered or
not. It changes the strings and, for want of a schema, a counter. -/
theorem resolve_spec {st : Storage} (hcache : cache.Remembers schema st.strings)
    (hs : st.strings.Sound) (id : UInt32) :
    ∃ name known grown, cache.resolve schema st id =
        (⟨name, schema.routeOf id⟩, known,
          { countMissing (schema.routeOf id) st with strings := grown }) ∧
      grown.Sound ∧ st.strings.Keeps grown ∧ grown.Numbers name (schema.titleOf id) ∧
      known.Remembers schema grown := by
  obtain ⟨known, hresolve, hknown⟩ := hcache.resolve id
  rw [NameCache.ask_eq] at hresolve hknown
  exact ⟨_, known, _, hresolve, hs.intern _, StringPool.keeps_intern _ _,
    StringPool.numbers_intern _ _, hknown⟩

end NameCache

end AtomTimeline
