import AtomTimeline.Proofs.Args.Conformance
import AtomTimeline.Proofs.Args.RoundTrip

/-!
Everything in a payload, met on a walk that does not stop at faults.

* `Pool.walk` lists what is met in the order of the bytes, what is in a nested message in place of
  the message: arguments, and the fault of every field that does not hold what it is declared to
  hold. A packed run that cannot be cut is one fault.
* `Pool.parseMessageAt_eq_walk`: reading a message delivers what is in front of the first fault of
  the walk, and ends in that fault.
* `Pool.faultless_walk_iff`: the walk meets no fault if and only if the payload conforms.
* `Pool.parseMessage_conforms`: so reading succeeds if and only if the payload conforms, and
  otherwise delivers just the arguments in front of the first field that offends.
-/

namespace AtomTimeline

/-! ### Findings -/

/-- What is met on a walk: an argument, or the fault of a field that offends. -/
abbrev Finding := Except ArgsError Arg

namespace Finding

/-- The fault met, if it is one. -/
def fault? : Finding → Option ArgsError
  | .ok _ => none
  | .error e => some e

/-- The arguments in front of the first fault. -/
def beforeFault (l : List Finding) : List Arg := (l.takeWhile Except.isOk).filterMap Except.toOption

/-- The first fault, if there is one. -/
def firstFault? (l : List Finding) : Option ArgsError := l.findSome? fault?

end Finding

/-- What is delivered of findings by a reader that stops at the first fault. -/
def ArgsResult.ofFindings (l : List Finding) : ArgsResult :=
  ⟨Finding.beforeFault l, Finding.firstFault? l⟩

namespace ArgsResult

@[simp] lemma ofFindings_ok (arg : Arg) (l : List Finding) :
    ofFindings (.ok arg :: l) = ⟨arg :: (ofFindings l).args, (ofFindings l).error⟩ := rfl

lemma andThen_assoc (first : ArgsResult) (second third : Unit → ArgsResult) :
    (first.andThen second).andThen third = first.andThen fun _ => (second ()).andThen third := by
  obtain ⟨args, error⟩ := first
  cases error with
  | some e => rfl
  | none =>
      simp only [andThen]
      generalize second () = middle
      obtain ⟨args', error'⟩ := middle
      cases error' <;> simp

/-- A list of findings is delivered up to the first fault in it, wherever it is cut. -/
lemma ofFindings_append (l m : List Finding) :
    ofFindings (l ++ m) = (ofFindings l).andThen fun _ => ofFindings m := by
  induction l with
  | nil => rfl
  | cons found l ih =>
      cases found with
      | error e => rfl
      | ok arg =>
          rw [List.cons_append, ofFindings_ok, ofFindings_ok, ih]
          obtain ⟨args, error⟩ := ofFindings l
          cases error <;> rfl

end ArgsResult

/-! ### The walk -/

/-- The values of a declared field on the wire: those of a packed run, or the one it holds; nothing
if a run cannot be cut. -/
def FieldDescriptor.values? (d : FieldDescriptor) : FieldValue → Option (List FieldValue)
  | .lengthDelimited run =>
    if d.repeated = true ∧ d.type.packable = true then
      if d.type.Packs run then some (d.type.packedValues run) else none
    else some [.lengthDelimited run]
  | v => some [v]

/-- The key of the value at a position of a field. -/
def FieldDescriptor.keyAt (d : FieldDescriptor) (under : Key) (position : ℕ) : Key :=
  if d.repeated then (under.child d.name).atPosition position else under.child d.name

namespace Pool

variable (pool : Pool)

/-- What is met in a single value: what is in a nested message, or the value itself. -/
def walkValue (nested : Bytes → String → Key → List Finding) (d : FieldDescriptor) (key : Key)
    (v : FieldValue) : List Finding :=
  match d.type, v with
  | .message, .lengthDelimited content => nested content d.typeName key
  | _, _ =>
    match pool.scalar? d v with
    | some value => [.ok ⟨key, value⟩]
    | none => [.error (.wireTypeMismatch d.name v.wireType)]

/-- What is met in a declared field, of which so many values are in front. -/
def walkField (nested : Bytes → String → Key → List Finding) (under : Key) (start : ℕ)
    (d : FieldDescriptor) (v : FieldValue) : List Finding :=
  match d.values? v with
  | none => [.error (.malformed d.name)]
  | some values =>
    (values.zipIdx start).flatMap fun e => pool.walkValue nested d (d.keyAt under e.2) e.1

/-- What is met in the fields of a message, behind values of fields with the given numbers. -/
def walkFields (nested : Bytes → String → Key → List Finding) (m : MessageDescriptor)
    (under : Key) : (earlier : List UInt32) → List Field → List Finding
  | _, [] => []
  | earlier, f :: fs =>
    match m.field? f.id with
    | none => walkFields nested m under earlier fs
    | some d =>
      pool.walkField nested under (earlier.count d.number) d f.value ++
        walkFields nested m under
          (earlier ++ List.replicate ((d.values? f.value).getD []).length d.number) fs

/-- What is met in a message with `levels` levels of messages left to it. A malformed field is a
fault behind the fields in front of it. -/
def walk : (levels : ℕ) → Bytes → String → Key → List Finding
  | 0, _, _, under => [.error (.tooDeep under.full)]
  | levels + 1, b, typeName, under =>
    match pool.findMessage? typeName with
    | none => [.error (.unknownMessage typeName)]
    | some m =>
      pool.walkFields (walk levels) m under [] (scan b).fields ++
        if (scan b).malformed then [.error (.malformed typeName)] else []

end Pool

/-! ### Reading is walking to the first fault -/

lemma FieldDescriptor.elements_eq (d : FieldDescriptor) (v : FieldValue) :
    d.elements v =
      match d.values? v with
      | some values => .ok (values.map (⟨d, ·⟩))
      | none => .error (.malformed d.name) := by
  cases v with
  | lengthDelimited run =>
      simp only [elements, values?, unpack?_eq, Bool.and_eq_true]
      by_cases hpacked : d.repeated = true ∧ d.type.packable = true
      · by_cases hcut : d.type.Packs run <;> simp only [if_pos hpacked, hcut, if_true, if_false]
      · simp only [if_neg hpacked, List.map_singleton]
  | varint v => rfl
  | fixed64 v => rfl
  | fixed32 v => rfl

/-- Numbering leaves the elements as they are. -/
lemma map_snd_number (under : Key) (met : Positions) (es : List Element) :
    (number under met es).map Prod.snd = es := by
  induction es generalizing met with
  | nil => rfl
  | cons e es ih => rw [number, List.map_cons, ih]

/-- Elements of one field are numbered from the first position that is free. -/
lemma number_values (d : FieldDescriptor) (under : Key) (values : List FieldValue)
    {met : Positions} {earlier : List UInt32} (hmet : met.Counts earlier) (rest : List Element) :
    ∃ met', Positions.Counts met' (earlier ++ List.replicate values.length d.number) ∧
      number under met (values.map (⟨d, ·⟩) ++ rest) =
        ((values.zipIdx (earlier.count d.number)).map fun e =>
          (d.keyAt under e.2, (⟨d, e.1⟩ : Element))) ++ number under met' rest := by
  induction values generalizing met earlier with
  | nil => exact ⟨met, by simpa using hmet, rfl⟩
  | cons v values ih =>
      obtain ⟨met', hcounts, hrest⟩ := ih (hmet.bump d.number)
      refine ⟨met', ?_, ?_⟩
      · simpa [List.replicate_succ] using hcounts
      · have hkey : Element.key under met ⟨d, v⟩ = d.keyAt under (earlier.count d.number) := by
          simp only [Element.key, FieldDescriptor.keyAt, hmet d.number]
        have hcount : (earlier ++ [d.number]).count d.number = earlier.count d.number + 1 := by
          simp
        rw [List.map_cons, List.cons_append, number, hkey, hrest, hcount, List.zipIdx_cons,
          List.map_cons, List.cons_append]

namespace Pool

variable (pool : Pool) (nested : NestedReader)

lemma parseElements_append (after : Option ArgsError) (es fs : List (Key × Element)) :
    pool.parseElements nested after (es ++ fs) =
      (pool.parseElements nested none es).andThen fun _ => pool.parseElements nested after fs := by
  induction es with
  | nil => rfl
  | cons entry es ih =>
      rw [List.cons_append, parseElements, parseElements, ih, ArgsResult.andThen_assoc]

variable {nested} {walkNested : Bytes → String → Key → List Finding}
  (h : ∀ b typeName under, nested b typeName under = .ofFindings (walkNested b typeName under))
include h

lemma parseElement_eq_walkValue (d : FieldDescriptor) (key : Key) (v : FieldValue) :
    pool.parseElement nested key ⟨d, v⟩ = .ofFindings (pool.walkValue walkNested d key v) := by
  cases htype : d.type with
  | message =>
      cases v with
      | lengthDelimited content =>
          simp only [parseElement, walkValue, htype]
          exact h content d.typeName key
      | _ =>
          simp only [parseElement, walkValue, htype, scalar?]
          rfl
  | _ =>
      cases hs : pool.scalar? d v <;> simp only [parseElement, walkValue, htype, hs] <;> rfl

/-- The elements of one field give what is met in it. -/
lemma parseElements_eq_walkValues (d : FieldDescriptor) (under : Key)
    (values : List (FieldValue × ℕ)) :
    pool.parseElements nested none
        (values.map fun e => (d.keyAt under e.2, (⟨d, e.1⟩ : Element))) =
      .ofFindings
        (values.flatMap fun e => pool.walkValue walkNested d (d.keyAt under e.2) e.1) := by
  induction values with
  | nil => rfl
  | cons e values ih =>
      rw [List.map_cons, parseElements, ih, pool.parseElement_eq_walkValue h, List.flatMap_cons,
        ArgsResult.ofFindings_append]

/-- **The fields of a message** give what is met in them up to the first fault. The induction is
along the fields; how many elements of each were met is how many values are in front. -/
theorem parseElements_eq_walkFields (m : MessageDescriptor) (under : Key) (after : Option ArgsError)
    (fs : List Field) {met : Positions} {earlier : List UInt32} (hmet : met.Counts earlier) :
    pool.parseElements nested ((m.elements fs).2.or after) (number under met (m.elements fs).1) =
      .ofFindings (pool.walkFields walkNested m under earlier fs ++ after.toList.map .error) := by
  induction fs generalizing met earlier with
  | nil => cases after <;> rfl
  | cons f fs ih =>
      rw [MessageDescriptor.elements, MessageDescriptor.elementsOf, walkFields]
      cases hfield : m.field? f.id with
      | none => simpa using ih hmet
      | some d =>
          cases hvalues : d.values? f.value with
          | none =>
              simp only [FieldDescriptor.elements_eq, hvalues, walkField]
              rfl
          | some values =>
              obtain ⟨met', hcounts, hnumber⟩ :=
                number_values d under values hmet (m.elements fs).1
              simp only [FieldDescriptor.elements_eq, hvalues, walkField, Option.getD_some]
              rw [hnumber, parseElements_append, pool.parseElements_eq_walkValues h, ih hcounts,
                List.append_assoc, ← ArgsResult.ofFindings_append]

end Pool

/-- **Reading a message** delivers what is met in front of the first fault of the walk, and ends in
that fault if there is one. -/
theorem Pool.parseMessageAt_eq_walk (pool : Pool) (levels : ℕ) (b : Bytes) (typeName : String)
    (under : Key) :
    pool.parseMessageAt levels b typeName under =
      .ofFindings (pool.walk levels b typeName under) := by
  induction levels generalizing b typeName under with
  | zero => rfl
  | succ levels ih =>
      rw [parseMessageAt, walk]
      cases pool.findMessage? typeName with
      | none => rfl
      | some m =>
          have hfields := pool.parseElements_eq_walkFields ih m under
            (if (scan b).malformed then some (.malformed typeName) else none) (scan b).fields
            Positions.Counts.nil
          refine hfields.trans ?_
          split <;> rfl

/-! ### No fault on the walk -/

namespace Finding

lemma firstFault?_eq_none_iff {l : List Finding} :
    firstFault? l = none ↔ ∀ found ∈ l, fault? found = none := List.findSome?_eq_none_iff

lemma firstFault?_append_eq_none_iff {l m : List Finding} :
    firstFault? (l ++ m) = none ↔ firstFault? l = none ∧ firstFault? m = none := by
  simp only [firstFault?_eq_none_iff, List.mem_append, or_imp, forall_and]

lemma firstFault?_flatMap_eq_none_iff {α : Type} {l : List α} {g : α → List Finding} :
    firstFault? (l.flatMap g) = none ↔ ∀ a ∈ l, firstFault? (g a) = none := by
  simp only [firstFault?_eq_none_iff, List.mem_flatMap, forall_exists_index, and_imp]
  exact ⟨fun h a ha found hfound => h found a ha hfound,
    fun h found a ha hfound => h a ha found hfound⟩

end Finding

/-- The values of a packed run lie in the wire type of their declared type. -/
lemma FieldType.wireType?_of_mem_packedValues {type : FieldType} (h : type.packable = true)
    {run : Bytes} {v : FieldValue} (hv : v ∈ type.packedValues run) :
    type.wireType? = some v.wireType := by
  rw [packedValues] at hv
  split at hv
  · next hw =>
    obtain ⟨raw, -, rfl⟩ := List.mem_map.mp hv
    exact hw
  · next hw =>
    obtain ⟨raw, -, rfl⟩ := List.mem_map.mp hv
    exact hw
  · next h32 h64 =>
    obtain ⟨p, -, rfl⟩ := List.mem_map.mp hv
    cases type <;> simp_all [packable, wireType?, FieldValue.wireType]

namespace Pool

open Finding

variable {pool : Pool} {level : ℕ} {d : FieldDescriptor} {v : FieldValue}

lemma fieldConforms_iff :
    pool.FieldConforms level d v ↔
      (d.type = .message ∧ ∃ content, v = .lengthDelimited content ∧ level + 1 ≤ 64 ∧
        pool.Conforms (level + 1) d.typeName content) ∨
      (d.type ≠ .message ∧ d.type.wireType? = some v.wireType) ∨
      ∃ run, v = .lengthDelimited run ∧ d.repeated = true ∧ d.type.packable = true ∧
        d.type.Packs run := by
  constructor
  · intro h
    cases h with
    | message htype hlevel hcontent => exact .inl ⟨htype, _, rfl, hlevel, hcontent⟩
    | scalar hmessage _ hwire => exact .inr (.inl ⟨hmessage, hwire⟩)
    | packed hrepeated htype hpacks =>
        exact .inr (.inr ⟨_, rfl, hrepeated, d.type.packable_iff.mpr htype, hpacks⟩)
  · rintro (⟨htype, content, rfl, hlevel, hcontent⟩ | ⟨hmessage, hwire⟩ |
      ⟨run, rfl, hrepeated, hpackable, hpacks⟩)
    · exact .message htype hlevel hcontent
    · refine .scalar hmessage (fun hgroup => ?_) hwire
      rw [hgroup] at hwire
      cases hwire
    · exact .packed hrepeated (d.type.packable_iff.mp hpackable) hpacks

section

variable {nested : Bytes → String → Key → List Finding}
  (hnested : ∀ b typeName under, firstFault? (nested b typeName under) = none ↔
    level + 1 ≤ 64 ∧ pool.Conforms (level + 1) typeName b)
include hnested

/-- No fault is met in a single value if and only if it is a message that conforms or lies in the
wire type of its declared type. -/
lemma faultless_walkValue_iff (key : Key) :
    firstFault? (pool.walkValue nested d key v) = none ↔
      (d.type = .message ∧ ∃ content, v = .lengthDelimited content ∧ level + 1 ≤ 64 ∧
        pool.Conforms (level + 1) d.typeName content) ∨
      (d.type ≠ .message ∧ d.type.wireType? = some v.wireType) := by
  cases htype : d.type with
  | message =>
      cases v with
      | lengthDelimited content => simp [walkValue, htype, hnested]
      | _ => simp [walkValue, htype, scalar?, firstFault?, fault?]
  | _ =>
      have hscalar : firstFault? (pool.walkValue nested d key v) = none ↔
          (pool.scalar? d v).isSome = true := by
        cases hs : pool.scalar? d v <;> simp [walkValue, htype, hs, firstFault?, fault?]
      rw [hscalar, scalar?_isSome_iff, htype]
      simp

/-- No fault is met in a field if and only if it holds what it is declared to hold. -/
lemma faultless_walkField_iff (under : Key) (start : ℕ) :
    firstFault? (pool.walkField nested under start d v) = none ↔ pool.FieldConforms level d v := by
  have hsingle : d.values? v = some [v] →
      (firstFault? (pool.walkField nested under start d v) = none ↔
        (d.type = .message ∧ ∃ content, v = .lengthDelimited content ∧ level + 1 ≤ 64 ∧
          pool.Conforms (level + 1) d.typeName content) ∨
        (d.type ≠ .message ∧ d.type.wireType? = some v.wireType)) := by
    intro hvalues
    simp only [walkField, hvalues, List.zipIdx_singleton, List.flatMap_singleton,
      faultless_walkValue_iff hnested]
  rw [fieldConforms_iff]
  cases v with
  | lengthDelimited run =>
      by_cases hpacked : d.repeated = true ∧ d.type.packable = true
      · have hmessage : d.type ≠ .message := by
          intro htype
          rw [htype] at hpacked
          exact absurd hpacked.2 (by decide)
        have hwire : d.type.wireType? ≠ some .lengthDelimited :=
          FieldType.wireType?_ne_of_packable hpacked.2
        by_cases hpacks : d.type.Packs run
        · simp only [walkField, FieldDescriptor.values?, if_pos hpacked, if_pos hpacks,
            firstFault?_flatMap_eq_none_iff, faultless_walkValue_iff hnested]
          refine iff_of_true (fun e he => .inr ⟨hmessage, ?_⟩)
            (.inr (.inr ⟨run, rfl, hpacked.1, hpacked.2, hpacks⟩))
          exact FieldType.wireType?_of_mem_packedValues hpacked.2 (List.fst_mem_of_mem_zipIdx he)
        · simp [walkField, FieldDescriptor.values?, if_pos hpacked, hpacks, hmessage, hwire,
            firstFault?, fault?, FieldValue.wireType]
      · rw [hsingle (by rw [FieldDescriptor.values?, if_neg hpacked])]
        have hno : ¬ ∃ other, FieldValue.lengthDelimited run = .lengthDelimited other ∧
            d.repeated = true ∧ d.type.packable = true ∧ d.type.Packs other := by
          rintro ⟨other, -, hrepeated, hpackable, -⟩
          exact hpacked ⟨hrepeated, hpackable⟩
        simp only [hno, or_false]
  | varint w => simp [hsingle rfl]
  | fixed64 w => simp [hsingle rfl]
  | fixed32 w => simp [hsingle rfl]

/-- No fault is met in fields if and only if all that are declared conform. -/
lemma faultless_walkFields_iff (m : MessageDescriptor) (under : Key) (earlier : List UInt32)
    (fs : List Field) :
    firstFault? (pool.walkFields nested m under earlier fs) = none ↔
      ∀ f ∈ fs, ∀ d, m.field? f.id = some d → pool.FieldConforms level d f.value := by
  induction fs generalizing earlier with
  | nil => simp [walkFields, firstFault?]
  | cons f fs ih =>
      rw [walkFields, List.forall_mem_cons]
      cases hfield : m.field? f.id with
      | none => simp [ih]
      | some d =>
          simp only [firstFault?_append_eq_none_iff, faultless_walkField_iff hnested, ih,
            Option.some.injEq, forall_eq']

end

/-- **The walk meets no fault** if and only if the payload conforms and is not nested too deep. -/
theorem faultless_walk_iff {levels : ℕ} (h : level + levels = 65) (b : Bytes) (typeName : String)
    (under : Key) :
    firstFault? (pool.walk levels b typeName under) = none ↔
      level ≤ 64 ∧ pool.Conforms level typeName b := by
  induction levels generalizing level b typeName under with
  | zero =>
      have hdeep : ¬ level ≤ 64 := by omega
      simp [walk, firstFault?, fault?, hdeep]
  | succ levels ih =>
      have hlevel : level ≤ 64 := by omega
      have hnested := @ih (level + 1) (by omega)
      have hfields := fun m => faultless_walkFields_iff hnested m under [] (scan b).fields
      have hrest : firstFault? (if (scan b).malformed then [.error (.malformed typeName)] else []) =
          none ↔ (scan b).unread = none := by
        rw [Scan.malformed]
        cases (scan b).unread <;> simp [firstFault?, fault?]
      rw [walk]
      constructor
      · intro hfault
        refine ⟨hlevel, ?_⟩
        cases hfound : pool.findMessage? typeName with
        | none =>
            rw [hfound] at hfault
            cases hfault
        | some m =>
            simp only [hfound, firstFault?_append_eq_none_iff, hfields, hrest] at hfault
            exact .message m hfound hfault.2 hfault.1
      · rintro ⟨-, hconforms⟩
        cases hconforms with
        | message m hfound hclean hall =>
            simp only [hfound, firstFault?_append_eq_none_iff, hfields, hrest]
            exact ⟨hall, hclean⟩

/-- **Reading succeeds if and only if the payload conforms** to the type: the type is known, no
field is malformed, and each declared field is a message nested at most 64 deep that conforms in
turn, a single value in the wire type of its declared type, or a packed run of values. Whatever the
payload, the arguments delivered are those met in front of the first field that offends, in the
order of the bytes, and the error is the fault of that field. -/
theorem parseMessage_conforms (pool : Pool) (b : Bytes) (typeName : String) :
    ((pool.parseMessage b typeName).error = none ↔ pool.Conforms 0 typeName b) ∧
      (pool.parseMessage b typeName).args = beforeFault (pool.walk 65 b typeName .root) ∧
      (pool.parseMessage b typeName).error = firstFault? (pool.walk 65 b typeName .root) := by
  have hwalk := pool.parseMessageAt_eq_walk 65 b typeName .root
  have hconforms : firstFault? (pool.walk 65 b typeName .root) = none ↔
      0 ≤ 64 ∧ pool.Conforms 0 typeName b := faultless_walk_iff rfl b typeName .root
  rw [parseMessage, maxNesting, hwalk]
  refine ⟨?_, rfl, rfl⟩
  rw [ArgsResult.ofFindings, hconforms]
  simp

end Pool

end AtomTimeline
