import AtomTimeline.Args.Parse
import AtomTimeline.Proofs.Wire.VarintPieces

/-!
Payloads that conform to a type of a pool, said without reading them into arguments.

* `FieldType.Packs`: a packed run can be cut into values of a type; `FieldType.packedValues` are the
  values. `unpack?_eq` says that unpacking finds just these.
* `Pool.Conforms` is the relation: the type is known, no field is malformed, and each declared field
  holds what it is declared to hold (`Pool.FieldConforms`), messages being nested at most 64 deep.
* `Pool.scalar?_isSome_iff`: a value that is no message is read if and only if it lies in the wire
  type of its declared type.
-/

namespace AtomTimeline

/-! ### Packed runs -/

/-- The bytes in blocks of the given width. -/
def Bytes.blocks (width : ℕ) (b : Bytes) : List Bytes :=
  (List.range (b.length / width)).map fun k => (b.drop (width * k)).take width

/-- The number of bytes a value takes, if they are always as many. -/
def WireType.width? : WireType → Option ℕ
  | fixed32 => some 4
  | fixed64 => some 8
  | varint | lengthDelimited => none

namespace FieldType

/-- The number of bytes a single value of the type takes, if they are always as many. -/
def width? (type : FieldType) : Option ℕ := type.wireType?.bind WireType.width?

/-- The run is one value of the type after the other: of a type of fixed width, so many bytes each;
of any other, complete varints. -/
def Packs (type : FieldType) (run : Bytes) : Prop :=
  match type.width? with
  | some width => width ∣ run.length
  | none => ∀ p ∈ Varint.pieces run, Varint.Complete p

instance (type : FieldType) (run : Bytes) : Decidable (type.Packs run) :=
  match h : type.width? with
  | some width => decidable_of_iff (width ∣ run.length) (by rw [Packs, h])
  | none => decidable_of_iff (∀ p ∈ Varint.pieces run, Varint.Complete p) (by rw [Packs, h])

/-- The values in a run of the type. -/
def packedValues (type : FieldType) (run : Bytes) : List FieldValue :=
  match type.wireType? with
  | some .fixed32 =>
    (run.blocks 4).map fun raw => .fixed32 (UInt32.ofNat (Bytes.toNatLE raw))
  | some .fixed64 =>
    (run.blocks 8).map fun raw => .fixed64 (UInt64.ofNat (Bytes.toNatLE raw))
  | _ => (Varint.pieces run).map fun p => .varint (Varint.value p)

end FieldType

lemma Bytes.blocks_append {width : ℕ} (hwidth : 0 < width) {raw : Bytes} (h : raw.length = width)
    (rest : Bytes) : blocks width (raw ++ rest) = raw :: blocks width rest := by
  have hcount : (raw ++ rest).length / width = rest.length / width + 1 := by
    rw [List.length_append, h, Nat.add_div_left _ hwidth]
  rw [blocks, hcount, List.range_succ_eq_map, List.map_cons, List.map_map, blocks]
  congr 1
  · rw [Nat.mul_zero, List.drop_zero, ← h, List.take_left]
  · refine List.map_congr_left fun k _ => ?_
    have hdrop : width * (k + 1) = raw.length + width * k := by rw [h, Nat.mul_succ, Nat.add_comm]
    rw [Function.comp_apply, Nat.succ_eq_add_one, hdrop, ← List.drop_drop, List.drop_left]

/-- A run is cut into numbers of a width if and only if the width goes into its length. -/
lemma splitFixed?_eq {width : ℕ} (hwidth : 0 < width) {fuel : ℕ} {run : Bytes}
    (hfuel : run.length ≤ width * fuel) :
    splitFixed? width fuel run =
      if width ∣ run.length then some ((run.blocks width).map Bytes.toNatLE) else none := by
  induction fuel generalizing run with
  | zero =>
      have hnil : run = [] := List.eq_nil_of_length_eq_zero (by omega)
      subst hnil
      simp [splitFixed?, Bytes.blocks]
  | succ fuel ih =>
      rw [splitFixed?]
      by_cases hnil : run = []
      · subst hnil
        simp [Bytes.blocks]
      · have hpos : 0 < run.length := List.length_pos_iff.mpr hnil
        rw [if_neg hnil]
        cases hs : Bytes.splitFront? width run with
        | none =>
            have hlt := Bytes.splitFront?_eq_none_iff.mp hs
            rw [if_neg fun hdvd => absurd (Nat.le_of_dvd hpos hdvd) (by omega)]
        | some found =>
            obtain ⟨raw, rest⟩ := found
            obtain ⟨rfl, hraw⟩ := Bytes.splitFront?_eq_some_iff.mp hs
            have hrest : rest.length ≤ width * fuel := by
              rw [List.length_append, hraw, Nat.mul_succ] at hfuel
              omega
            simp only [ih hrest, Bytes.blocks_append hwidth hraw, List.length_append, hraw,
              Nat.dvd_add_right (Nat.dvd_refl width), List.map_cons]
            by_cases hdvd : width ∣ rest.length <;> simp [hdvd]

/-- A run of values without a fixed width is cut into varints. -/
lemma unpack?_of_width?_eq_none {type : FieldType} (h : type.width? = none) (run : Bytes) :
    unpack? type run = (Varint.split run).toOption.map (List.map .varint) := by
  rw [FieldType.width?] at h
  cases hw : type.wireType? with
  | none => cases hs : Varint.split run <;> simp only [unpack?, hw, hs] <;> rfl
  | some kind =>
      rw [hw, Option.bind_some] at h
      cases kind with
      | varint | lengthDelimited =>
          cases hs : Varint.split run <;> simp only [unpack?, hw, hs] <;> rfl
      | fixed32 | fixed64 => cases h

lemma FieldType.packedValues_of_width?_eq_none {type : FieldType} (h : type.width? = none)
    (run : Bytes) :
    type.packedValues run = (Varint.pieces run).map fun p => .varint (Varint.value p) := by
  rw [width?] at h
  rw [packedValues]
  split
  · next hw => rw [hw] at h; cases h
  · next hw => rw [hw] at h; cases h
  · rfl

/-- **Unpacking** succeeds if and only if the run is one value after the other, and finds these. -/
theorem unpack?_eq (type : FieldType) (run : Bytes) :
    unpack? type run = if type.Packs run then some (type.packedValues run) else none := by
  have h4 : splitFixed? 4 run.length run =
      if 4 ∣ run.length then some ((run.blocks 4).map Bytes.toNatLE) else none :=
    splitFixed?_eq (by decide) (by omega)
  have h8 : splitFixed? 8 run.length run =
      if 8 ∣ run.length then some ((run.blocks 8).map Bytes.toNatLE) else none :=
    splitFixed?_eq (by decide) (by omega)
  by_cases hfixed : type.width? = none
  · rw [unpack?_of_width?_eq_none hfixed, FieldType.packedValues_of_width?_eq_none hfixed,
      Varint.split_eq]
    simp only [FieldType.Packs, hfixed]
    split <;> simp
  · cases hw : type.wireType? with
    | none => simp [FieldType.width?, hw] at hfixed
    | some kind =>
        cases kind with
        | varint | lengthDelimited => simp [FieldType.width?, hw, WireType.width?] at hfixed
        | fixed32 =>
            simp only [unpack?, hw, FieldType.Packs, FieldType.width?, FieldType.packedValues, h4,
              Option.bind_some, WireType.width?]
            split <;> simp
        | fixed64 =>
            simp only [unpack?, hw, FieldType.Packs, FieldType.width?, FieldType.packedValues, h8,
              Option.bind_some, WireType.width?]
            split <;> simp

/-! ### Conforming payloads -/

mutual

/-- The payload conforms to the named type, as a message nested in this many others: the type is
known, no field is malformed, and each declared field conforms. Of other fields nothing is said. -/
inductive Pool.Conforms (pool : Pool) : (level : ℕ) → (typeName : String) → Bytes → Prop where
  | message {level : ℕ} {typeName : String} {b : Bytes} (m : MessageDescriptor) :
      pool.findMessage? typeName = some m → (scan b).unread = none →
      (∀ f ∈ (scan b).fields, ∀ d, m.field? f.id = some d →
        Pool.FieldConforms pool level d f.value) →
      Pool.Conforms pool level typeName b

/-- The value is what the field is declared to hold, in a message nested in this many others. -/
inductive Pool.FieldConforms (pool : Pool) :
    (level : ℕ) → FieldDescriptor → FieldValue → Prop where
  /-- A message not nested too deep, which conforms in turn. -/
  | message {level : ℕ} {d : FieldDescriptor} {content : Bytes} :
      d.type = .message → level + 1 ≤ 64 → Pool.Conforms pool (level + 1) d.typeName content →
      Pool.FieldConforms pool level d (.lengthDelimited content)
  /-- A single value in the wire type of its declared type. -/
  | scalar {level : ℕ} {d : FieldDescriptor} {v : FieldValue} :
      d.type ≠ .message → d.type ≠ .group → d.type.wireType? = some v.wireType →
      Pool.FieldConforms pool level d v
  /-- A packed run of values. -/
  | packed {level : ℕ} {d : FieldDescriptor} {run : Bytes} :
      d.repeated = true → d.type ∉ [.string, .bytes, .message, .group] → d.type.Packs run →
      Pool.FieldConforms pool level d (.lengthDelimited run)

end

lemma FieldType.packable_iff (type : FieldType) :
    type.packable = true ↔ type ∉ [.string, .bytes, .message, .group] := by
  cases type <;> decide

/-- Types whose values may be packed have other wire types than runs have. -/
lemma FieldType.wireType?_ne_of_packable {type : FieldType} (h : type.packable = true) :
    type.wireType? ≠ some .lengthDelimited := by
  cases type <;> simp_all [packable, wireType?]

/-- **A single value is read** if and only if it lies in the wire type of its declared type. -/
theorem Pool.scalar?_isSome_iff (pool : Pool) (d : FieldDescriptor) (v : FieldValue) :
    (pool.scalar? d v).isSome = true ↔
      d.type ≠ .message ∧ d.type.wireType? = some v.wireType := by
  cases htype : d.type <;> cases v <;>
    simp [Pool.scalar?, htype, FieldType.wireType?, FieldValue.wireType]

end AtomTimeline
