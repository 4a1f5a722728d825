import AtomTimeline.Proofs.Wire.RoundTrip
import AtomTimeline.Proofs.Wire.VarintPieces

/-!
The grammar of the wire, said without a reader. Nothing has just one spelling: a varint may be
padded with empty groups, and its groups may overflow a word.

* `Varint.Spells`, `FieldValue.SpelledBy` and `Field.SpelledBy`: the bytes are one of the spellings
  of a number, a value, a field.
* `Varint.read_eq_ok_iff`, `FieldValue.read_eq_ok_iff` and `Field.read_eq_ok_iff`: reading succeeds
  if and only if the bytes begin with a spelling, and it takes just that. `Varint.split_eq_ok_iff`:
  so a run is cut into varints if and only if it consists of spellings of them.
* `exists_stop_of_scan`: what is scanned is spelled by a front of the bytes, and where the scan
  stops there is nothing or no field.
* `scan_eq_clean_iff`: a scan ends cleanly if and only if the bytes are the spellings of the fields
  it found, one after the other. `prefix_fields_scan`: so of bytes with others behind them the same
  fields are scanned first.
-/

namespace AtomTimeline

/-! ### Varints -/

namespace Varint

/-- The bytes are a spelling of the number: one to ten bytes of which all but the last are marked,
whose groups of seven bits make up the number modulo `2 ^ 64`. -/
structure Spells (p : Bytes) (v : UInt64) : Prop where
  complete : Complete p
  value_eq : value p = v

/-- A piece that ended stays the first one, whatever follows it. -/
lemma pieces_append {p : Bytes} (hmarked : ∀ x ∈ p.dropLast, ¬ x < 128) (hended : Ended p)
    (rest : Bytes) : pieces (p ++ rest) = p :: pieces rest := by
  induction p with
  | nil => simp [Ended] at hended
  | cons x p ih =>
      cases p with
      | nil =>
          have hx : x < 128 := by simpa [Ended] using hended
          rw [List.singleton_append, pieces_unmarked hx]
      | cons y p =>
          have hx : ¬ x < 128 := hmarked x (by simp)
          have hne : y :: p ≠ [] := List.cons_ne_nil y p
          have htail := ih (fun z hz => hmarked z (by simp [hz])) ((ended_cons hne).mp hended)
          rw [List.cons_append, pieces_marked hx htail]

/-- A spelling of a number is read as the number, whatever follows it. -/
lemma Spells.read_append {p : Bytes} {v : UInt64} (h : Spells p v) (rest : Bytes) :
    read (p ++ rest) = .ok (v, rest) := by
  have hread := read_of_pieces (pieces_append h.complete.marked h.complete.ended rest)
  rwa [if_pos h.complete, flatten_pieces, h.value_eq] at hread

/-- An unmarked byte is a spelling of its own number. -/
lemma Spells.byte {x : UInt8} (h : x < 128) : Spells [x] x.toUInt64 := by
  have hx : x.toNat < 128 := by simpa [UInt8.lt_iff_toNat_lt] using h
  refine ⟨⟨by simp, by simp, by simpa [Ended] using h⟩, ?_⟩
  simp [value, groupSum, Nat.mod_eq_of_lt hx]

/-- **A varint is read** if and only if the bytes begin with a spelling of it. -/
theorem read_eq_ok_iff {b rest : Bytes} {v : UInt64} :
    read b = .ok (v, rest) ↔ ∃ p, b = p ++ rest ∧ Spells p v := by
  constructor
  · intro h
    cases hb : pieces b with
    | nil =>
        have hnil : b = [] := by rw [← flatten_pieces b, hb, List.flatten_nil]
        subst hnil
        cases h
    | cons p ps =>
        have hread := read_of_pieces hb
        have hsplit : b = p ++ ps.flatten := by
          rw [← List.flatten_cons, ← hb, flatten_pieces]
        split at hread
        · next hp =>
          rw [h] at hread
          cases hread
          exact ⟨p, hsplit, hp, rfl⟩
        · obtain ⟨fault, hfault⟩ := hread
          rw [h] at hfault
          cases hfault
  · rintro ⟨p, rfl, hp⟩
    exact hp.read_append rest

/-- A varint that was read is read whatever else follows. -/
lemma read_append_of_read {b rest : Bytes} {v : UInt64} (h : read b = .ok (v, rest))
    (more : Bytes) : read (b ++ more) = .ok (v, rest ++ more) := by
  obtain ⟨p, rfl, hp⟩ := read_eq_ok_iff.mp h
  rw [List.append_assoc, hp.read_append]

/-- The bytes are spellings of the numbers, one after the other. -/
def SpelledRun (vs : List UInt64) (run : Bytes) : Prop :=
  ∃ parts : List Bytes, run = parts.flatten ∧ List.Forall₂ (fun v p => Spells p v) vs parts

/-- **A run is cut into varints** if and only if it consists of spellings of them. -/
theorem split_eq_ok_iff {b : Bytes} {vs : List UInt64} : split b = .ok vs ↔ SpelledRun vs b := by
  have hcut : split b = .ok vs ↔ (split b).toOption = some vs := by
    cases split b <;> simp [Except.toOption]
  rw [hcut]
  constructor
  · intro h
    rw [split_eq] at h
    split at h
    · next hcomplete =>
      cases h
      refine ⟨pieces b, (flatten_pieces b).symm, ?_⟩
      rw [List.forall₂_map_left_iff, List.forall₂_same]
      exact fun p hp => ⟨hcomplete p hp, rfl⟩
    · cases h
  · rintro ⟨parts, rfl, hparts⟩
    clear hcut
    induction hparts with
    | nil => simp [split, Except.toOption]
    | cons hp _ ih =>
        rw [List.flatten_cons, toOption_split_of_read (hp.read_append _), ih]
        rfl

end Varint

/-! ### Values -/

/-- The bytes are a spelling of the value, its tag apart. -/
inductive FieldValue.SpelledBy : FieldValue → Bytes → Prop where
  | varint {v : UInt64} {p : Bytes} : Varint.Spells p v → SpelledBy (.varint v) p
  | fixed64 {v : UInt64} {raw : Bytes} :
    raw.length = 8 → Bytes.toNatLE raw = v.toNat → SpelledBy (.fixed64 v) raw
  | lengthDelimited {length : UInt64} {p content : Bytes} :
    Varint.Spells p length → length.toNat = content.length →
      SpelledBy (.lengthDelimited content) (p ++ content)
  | fixed32 {v : UInt32} {raw : Bytes} :
    raw.length = 4 → Bytes.toNatLE raw = v.toNat → SpelledBy (.fixed32 v) raw

lemma Bytes.toNatLE_lt (b : Bytes) : toNatLE b < 256 ^ b.length := by
  induction b with
  | nil => simp [toNatLE]
  | cons x b ih =>
      have hx : x.toNat < 256 := x.toNat_lt
      rw [toNatLE, List.length_cons, pow_succ]
      omega

namespace FieldValue

/-- A value that was read was spelled by the bytes in front of what is left. -/
lemma spelledBy_of_read {kind : WireType} {b rest : Bytes} {v : FieldValue}
    (h : read kind b = .ok (v, rest)) :
    v.wireType = kind ∧ ∃ body, b = body ++ rest ∧ v.SpelledBy body := by
  cases kind with
  | varint =>
      simp only [read] at h
      split at h
      · next hv =>
        cases h
        obtain ⟨p, hsplit, hp⟩ := Varint.read_eq_ok_iff.mp hv
        exact ⟨rfl, p, hsplit, .varint hp⟩
      · cases h
  | fixed64 =>
      simp only [read] at h
      split at h
      · next raw after hs =>
        cases h
        obtain ⟨hsplit, hlen⟩ := Bytes.splitFront?_eq_some_iff.mp hs
        have hlt : Bytes.toNatLE raw < 256 ^ 8 := hlen ▸ Bytes.toNatLE_lt raw
        exact ⟨rfl, raw, hsplit, .fixed64 hlen (UInt64.toNat_ofNat_of_lt hlt).symm⟩
      · cases h
  | lengthDelimited =>
      simp only [read] at h
      split at h
      · cases h
      · next length after hv =>
        split at h
        · next content behind hs =>
          cases h
          obtain ⟨p, hsplit, hp⟩ := Varint.read_eq_ok_iff.mp hv
          obtain ⟨rfl, hlen⟩ := Bytes.splitFront?_eq_some_iff.mp hs
          refine ⟨rfl, p ++ content, ?_, .lengthDelimited hp hlen.symm⟩
          rw [hsplit, List.append_assoc]
        · cases h
  | fixed32 =>
      simp only [read] at h
      split at h
      · next raw after hs =>
        cases h
        obtain ⟨hsplit, hlen⟩ := Bytes.splitFront?_eq_some_iff.mp hs
        have hlt : Bytes.toNatLE raw < 256 ^ 4 := hlen ▸ Bytes.toNatLE_lt raw
        exact ⟨rfl, raw, hsplit, .fixed32 hlen (UInt32.toNat_ofNat_of_lt hlt).symm⟩
      · cases h

/-- A spelling of a value is read as the value, whatever follows it. -/
lemma SpelledBy.read_append {v : FieldValue} {body : Bytes} (h : v.SpelledBy body)
    (rest : Bytes) : read v.wireType (body ++ rest) = .ok (v, rest) := by
  cases h with
  | varint hp => simp only [wireType, read, hp.read_append]
  | fixed64 hlen hvalue =>
      simp only [wireType, read, Bytes.splitFront?_append hlen rest, hvalue, UInt64.ofNat_toNat]
  | lengthDelimited hp hlen =>
      simp only [wireType, read, List.append_assoc, hp.read_append,
        Bytes.splitFront?_append hlen.symm rest]
  | fixed32 hlen hvalue =>
      simp only [wireType, read, Bytes.splitFront?_append hlen rest, hvalue, UInt32.ofNat_toNat]

/-- **A value is read** if and only if the bytes begin with a spelling of it. -/
theorem read_eq_ok_iff {kind : WireType} {b rest : Bytes} {v : FieldValue} :
    read kind b = .ok (v, rest) ↔
      v.wireType = kind ∧ ∃ body, b = body ++ rest ∧ v.SpelledBy body := by
  constructor
  · exact spelledBy_of_read
  · rintro ⟨rfl, body, rfl, hbody⟩
    exact hbody.read_append rest

/-- A value that was read is read whatever else follows. -/
lemma read_append_of_read {kind : WireType} {b rest : Bytes} {v : FieldValue}
    (h : read kind b = .ok (v, rest)) (more : Bytes) :
    read kind (b ++ more) = .ok (v, rest ++ more) := by
  obtain ⟨rfl, body, rfl, hbody⟩ := read_eq_ok_iff.mp h
  rw [List.append_assoc, hbody.read_append]

end FieldValue

/-! ### Fields -/

namespace Field

/-- The bytes are a spelling of the field: a varint of eight times the id plus the number of the
wire type, the id not being zero, and then a spelling of the value. -/
inductive SpelledBy (f : Field) : Bytes → Prop where
  | intro {tag : UInt64} {p body : Bytes} :
    Varint.Spells p tag → tag.toNat = 8 * f.id.toNat + f.value.wireType.code → f.id ≠ 0 →
      f.value.SpelledBy body → SpelledBy f (p ++ body)

/-- A field that was read was spelled by the bytes in front of what is left. -/
lemma spelledBy_of_read {b rest : Bytes} {f : Field} (h : read b = .ok (f, rest)) :
    ∃ part, b = part ++ rest ∧ f.SpelledBy part := by
  simp only [read] at h
  split at h
  · cases h
  · next tag after hv =>
    split at h
    · next hid =>
      split at h
      · cases h
      · next kind hkind =>
        split at h
        · next value behind hr =>
          cases h
          obtain ⟨p, rfl, hp⟩ := Varint.read_eq_ok_iff.mp hv
          obtain ⟨rfl, body, rfl, hbody⟩ := FieldValue.read_eq_ok_iff.mp hr
          have hcode := WireType.code_of_ofCode? hkind
          have hnum : (UInt32.ofNat (tag.toNat / 8)).toNat = tag.toNat / 8 :=
            UInt32.toNat_ofNat_of_lt hid.2
          refine ⟨p ++ body, (List.append_assoc p body rest).symm, .intro hp ?_ ?_ hbody⟩
          · simp only [hnum]
            omega
          · intro h0
            rw [show UInt32.ofNat (tag.toNat / 8) = 0 from h0] at hnum
            exact absurd hnum.symm hid.1.ne'
        · cases h
    · cases h

lemma ne_nil_of_read {b rest : Bytes} {f : Field} (h : read b = .ok (f, rest)) : b ≠ [] := by
  rintro rfl
  cases h

/-- A spelling of a field is read as the field, whatever follows it. -/
lemma SpelledBy.read_append {f : Field} {part : Bytes} (h : f.SpelledBy part) (rest : Bytes) :
    read (part ++ rest) = .ok (f, rest) := by
  obtain ⟨id, value⟩ := f
  obtain ⟨hp, htag, hid, hbody⟩ := h
  have hpos : 0 < id.toNat := Nat.pos_of_ne_zero fun h0 => hid (UInt32.toNat_inj.mp h0)
  have hcode := value.wireType.code_lt
  have hdiv : (8 * id.toNat + value.wireType.code) / 8 = id.toNat := by omega
  have hmod : (8 * id.toNat + value.wireType.code) % 8 = value.wireType.code := by omega
  simp only at htag
  simp only [read, List.append_assoc, hp.read_append, htag, hdiv, hmod, WireType.ofCode?_code,
    hbody.read_append, if_pos (And.intro hpos id.toNat_lt), UInt32.ofNat_toNat]

/-- A field with a small number and a small value has a spelling of two bytes. -/
lemma SpelledBy.shortVarint {id : UInt32} {tag x : UInt8} (htag : tag < 128)
    (hnumber : tag.toNat = 8 * id.toNat) (hid : id ≠ 0) (hx : x < 128) :
    SpelledBy ⟨id, .varint x.toUInt64⟩ [tag, x] :=
  .intro (.byte htag) (by simpa [FieldValue.wireType, WireType.code] using hnumber) hid
    (.varint (.byte hx))

/-- A field with a small number that holds few bytes has a spelling of two bytes more. -/
lemma SpelledBy.shortBytes {id : UInt32} {tag length : UInt8} {content : Bytes} (htag : tag < 128)
    (hnumber : tag.toNat = 8 * id.toNat + 2) (hid : id ≠ 0) (hshort : length < 128)
    (hlength : length.toNat = content.length) :
    SpelledBy ⟨id, .lengthDelimited content⟩ (tag :: length :: content) :=
  .intro (.byte htag) (by simpa [FieldValue.wireType, WireType.code] using hnumber) hid
    (.lengthDelimited (.byte hshort) (by simpa using hlength))

/-- **A field is read** if and only if the bytes begin with a spelling of it. -/
theorem read_eq_ok_iff {b rest : Bytes} {f : Field} :
    read b = .ok (f, rest) ↔ ∃ part, b = part ++ rest ∧ f.SpelledBy part := by
  constructor
  · exact spelledBy_of_read
  · rintro ⟨part, rfl, hpart⟩
    exact hpart.read_append rest

end Field

/-! ### Messages -/

/-- The bytes are spellings of the fields, one after the other. -/
def SpelledFields (fs : List Field) (b : Bytes) : Prop :=
  ∃ parts : List Bytes, b = parts.flatten ∧ List.Forall₂ Field.SpelledBy fs parts

lemma spelledFields_cons_iff {f : Field} {fs : List Field} {b : Bytes} :
    SpelledFields (f :: fs) b ↔
      ∃ part rest, b = part ++ rest ∧ f.SpelledBy part ∧ SpelledFields fs rest := by
  constructor
  · rintro ⟨parts, rfl, hparts⟩
    obtain ⟨part, others, hpart, hothers, rfl⟩ := List.forall₂_cons_left_iff.mp hparts
    exact ⟨part, others.flatten, List.flatten_cons, hpart, others, rfl, hothers⟩
  · rintro ⟨part, rest, rfl, hpart, others, rfl, hothers⟩
    exact ⟨part :: others, List.flatten_cons.symm, .cons hpart hothers⟩

lemma spelledFields_nil : SpelledFields [] [] := ⟨[], rfl, .nil⟩

lemma Field.SpelledBy.fields {f : Field} {part : Bytes} (h : f.SpelledBy part) :
    SpelledFields [f] part := ⟨[part], List.flatten_singleton.symm, .cons h .nil⟩

/-- Spellings of fields are scanned as the fields in front of what is scanned behind them. -/
lemma SpelledFields.scan_append {fs : List Field} {b : Bytes} (h : SpelledFields fs b)
    (rest : Bytes) : scan (b ++ rest) = ⟨fs ++ (scan rest).fields, (scan rest).unread⟩ := by
  induction fs generalizing b with
  | nil =>
      obtain ⟨parts, rfl, hparts⟩ := h
      cases hparts
      rfl
  | cons f fs ih =>
      obtain ⟨part, tail, rfl, hpart, htail⟩ := spelledFields_cons_iff.mp h
      have hread : Field.read (part ++ (tail ++ rest)) = .ok (f, tail ++ rest) :=
        hpart.read_append (tail ++ rest)
      rw [List.append_assoc, scan_of_read hread, ih htail, Scan.cons, List.cons_append]

/-- Bytes are spellings of the fields that are scanned, and then nothing or bytes that begin with no
field. -/
lemma exists_stop_of_scan (b : Bytes) :
    ∃ front stop, b = front ++ stop ∧ SpelledFields (scan b).fields front ∧
      (stop = [] ∧ (scan b).unread = none ∨
        ∃ left, stop ≠ [] ∧ Field.read stop = .error left ∧ (scan b).unread = some left) := by
  induction b using scan_induction with
  | nil =>
      rw [scan_nil]
      exact ⟨[], [], rfl, ⟨[], rfl, .nil⟩, .inl ⟨rfl, rfl⟩⟩
  | field b rest f hr ih =>
      obtain ⟨part, rfl, hpart⟩ := Field.read_eq_ok_iff.mp hr
      obtain ⟨front, stop, rfl, hfront, hstop⟩ := ih
      rw [scan_of_read hr]
      refine ⟨part ++ front, stop, (List.append_assoc part front stop).symm, ?_, hstop⟩
      exact spelledFields_cons_iff.mpr ⟨part, front, rfl, hpart, hfront⟩
  | fault b left hb hr =>
      rw [scan_of_read_error hb hr]
      exact ⟨[], b, rfl, ⟨[], rfl, .nil⟩, .inr ⟨left, hb, hr, rfl⟩⟩

/-- **A scan ends cleanly** if and only if the bytes are spellings of the fields it found. -/
theorem scan_eq_clean_iff {b : Bytes} {fs : List Field} :
    scan b = ⟨fs, none⟩ ↔ SpelledFields fs b := by
  constructor
  · intro h
    obtain ⟨front, stop, hb, hfront, ⟨rfl, -⟩ | ⟨left, -, -, hunread⟩⟩ := exists_stop_of_scan b
    · rw [List.append_nil] at hb
      rwa [h, ← hb] at hfront
    · rw [h] at hunread
      cases hunread
  · intro h
    have hscan := h.scan_append []
    rwa [List.append_nil, scan_nil, List.append_nil] at hscan

/-- What is scanned of bytes is scanned first whatever follows them. -/
lemma prefix_fields_scan (front rest : Bytes) :
    (scan front).fields <+: (scan (front ++ rest)).fields := by
  obtain ⟨whole, stop, hfront, hwhole, -⟩ := exists_stop_of_scan front
  have hscan := hwhole.scan_append (stop ++ rest)
  rw [← List.append_assoc, ← hfront] at hscan
  rw [hscan]
  exact List.prefix_append _ _

end AtomTimeline
