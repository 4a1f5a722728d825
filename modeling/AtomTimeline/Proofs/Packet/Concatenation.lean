import AtomTimeline.Packet.View
import AtomTimeline.Proofs.Wire.Grammar
import AtomTimeline.Proofs.Lists.FirstAppearance

/-!
Packets one behind the other: what is seen of the bytes of both.

* `PacketView.absorb` takes one more field into a view, `PacketView.ofScan_eq_foldl`: taking in the
  fields one after the other gives the view of them all.
* `PacketView.followedBy` is the view of two packets one behind the other.
  `PacketView.followedBy_absorb`: it does not matter whether a field is taken into the second one or
  into both.
* `PacketView.decode_followedBy`: so the view of bytes that scan cleanly, with any bytes behind
  them, is the one view followed by the other.
-/

namespace AtomTimeline

namespace PacketView

/-! ### One field more -/

/-- The view of a packet without fields. -/
def empty : PacketView where
  timestamp := none
  sequenceId := none
  cleared := false
  statsd := none
  fieldIds := []
  malformed := false

/-- A view with one more field: a value takes the place of an earlier one, a mark that the state was
cleared stays, and an id is listed once. -/
def absorb (p : PacketView) (f : Field) : PacketView :=
  { p with
    timestamp := (f.varint? PacketField.timestamp).or p.timestamp
    sequenceId := ((f.varint? PacketField.sequenceId).map UInt64.toUInt32).or p.sequenceId
    cleared := p.cleared || f.marksCleared
    statsd := (f.bytes? PacketField.statsdAtom).or p.statsd
    fieldIds := if p.fieldIds.contains f.id then p.fieldIds else p.fieldIds ++ [f.id] }

lemma getLast?_filterMap_append_singleton {α β : Type} (g : α → Option β) (l : List α) (a : α) :
    ((l ++ [a]).filterMap g).getLast? = (g a).or (l.filterMap g).getLast? := by
  rw [List.filterMap_append, List.getLast?_append]
  cases h : g a <;> simp [h]

/-- One field behind others is taken into the view of the others. -/
lemma ofScan_append_singleton (fs : List Field) (f : Field) (unread : Option Bytes) :
    ofScan ⟨fs ++ [f], unread⟩ = (ofScan ⟨fs, unread⟩).absorb f := by
  simp only [ofScan, absorb, getLast?_filterMap_append_singleton, Option.map_or, List.any_append,
    List.any_cons, List.any_nil, Bool.or_false, List.map_append, List.map_cons, List.map_nil,
    eraseDups_append_singleton]
  rfl

/-- Fields behind others are taken in one after the other. -/
lemma ofScan_append (fs gs : List Field) (unread : Option Bytes) :
    ofScan ⟨fs ++ gs, unread⟩ =
      { gs.foldl absorb (ofScan ⟨fs, none⟩) with malformed := unread.isSome } := by
  induction gs using List.reverseRecOn with
  | nil =>
      rw [List.append_nil]
      rfl
  | append_singleton gs f ih =>
      rw [← List.append_assoc, ofScan_append_singleton, ih, List.foldl_append]
      rfl

/-- **Field by field**: taking in the fields one after the other gives the view of them all. -/
theorem ofScan_eq_foldl (fs : List Field) (unread : Option Bytes) :
    ofScan ⟨fs, unread⟩ = { fs.foldl absorb empty with malformed := unread.isSome } :=
  ofScan_append [] fs unread

/-! ### One packet behind the other -/

/-- The view of two packets one behind the other: what the second one says goes before what the
first one says, a mark of either counts, and of the second one's ids those are new that the first
one has not. -/
def followedBy (p q : PacketView) : PacketView where
  timestamp := q.timestamp.or p.timestamp
  sequenceId := q.sequenceId.or p.sequenceId
  cleared := p.cleared || q.cleared
  statsd := q.statsd.or p.statsd
  fieldIds := p.fieldIds ++ q.fieldIds.filter fun id => !p.fieldIds.contains id
  malformed := q.malformed

lemma followedBy_empty {p : PacketView} (h : p.malformed = false) : p.followedBy empty = p := by
  obtain ⟨timestamp, sequenceId, cleared, statsd, fieldIds, malformed⟩ := p
  simp only at h
  simp [followedBy, empty, h]

/-- A field is taken into the second packet as it is taken into both. -/
lemma followedBy_absorb (p q : PacketView) (f : Field) :
    p.followedBy (q.absorb f) = (p.followedBy q).absorb f := by
  simp only [followedBy, absorb, mk.injEq, Option.or_assoc, Bool.or_assoc, true_and, and_true]
  by_cases hp : f.id ∈ p.fieldIds <;> by_cases hq : f.id ∈ q.fieldIds <;> simp [hp, hq]

lemma foldl_absorb_followedBy (p q : PacketView) (fs : List Field) :
    fs.foldl absorb (p.followedBy q) = p.followedBy (fs.foldl absorb q) := by
  induction fs generalizing q with
  | nil => rfl
  | cons f fs ih => rw [List.foldl_cons, List.foldl_cons, ← followedBy_absorb, ih]

/-- What is scanned of bytes that scan cleanly is scanned in front of what follows them. -/
lemma scan_append_of_clean {a : Bytes} (h : (scan a).malformed = false) (c : Bytes) :
    scan (a ++ c) = ⟨(scan a).fields ++ (scan c).fields, (scan c).unread⟩ := by
  have hclean : scan a = ⟨(scan a).fields, none⟩ := by
    rw [← Option.not_isSome_iff_eq_none.mp (by simpa [Scan.malformed] using h)]
  exact (scan_eq_clean_iff.mp hclean).scan_append c

/-- Every id is listed once, in the order of first appearance. -/
lemma fieldIds_decode_inOrder (b : Bytes) :
    (decode b).fieldIds.Pairwise fun id later =>
      ((scan b).fields.map Field.id).idxOf id < ((scan b).fields.map Field.id).idxOf later :=
  pairwise_eraseDups _

/-- **The view of bytes one behind the other.** If the first ones scan cleanly, the view of them
with any bytes behind them is the one view followed by the other. Of any bytes the ids are listed
without repetition, in the order of first appearance, and a packet has a field if and only if some
field that is scanned has its id. -/
theorem decode_followedBy {a : Bytes} (h : (scan a).malformed = false) (c : Bytes) :
    decode (a ++ c) = (decode a).followedBy (decode c) ∧
      ∀ b, (decode b).fieldIds.Nodup ∧
        ((decode b).fieldIds.Pairwise fun id later =>
          ((scan b).fields.map Field.id).idxOf id < ((scan b).fields.map Field.id).idxOf later) ∧
        ∀ id, (decode b).hasField id = true ↔ ∃ f ∈ (scan b).fields, f.id = id := by
  have hfirst : ofScan ⟨(scan a).fields, none⟩ = decode a := by
    rw [ofScan_eq_foldl, decode, ofScan_eq_foldl]
    exact congrArg _ h.symm
  have hsecond : decode c =
      { (scan c).fields.foldl absorb empty with malformed := (scan c).malformed } :=
    ofScan_eq_foldl (scan c).fields (scan c).unread
  refine ⟨?_, fun b => ⟨?_, fieldIds_decode_inOrder b, fun id => ?_⟩⟩
  · calc decode (a ++ c)
        = { (scan c).fields.foldl absorb (decode a) with malformed := (scan c).malformed } := by
          rw [decode, scan_append_of_clean h, ofScan_append, hfirst]
          rfl
      _ = { (decode a).followedBy ((scan c).fields.foldl absorb empty) with
            malformed := (scan c).malformed } := by
          rw [← foldl_absorb_followedBy, followedBy_empty h]
      _ = (decode a).followedBy (decode c) := by
          rw [hsecond]
          rfl
  · exact (fieldIds_decode_inOrder b).imp fun hlt heq => absurd (heq ▸ hlt) (lt_irrefl _)
  · rw [hasField, List.contains_iff_mem, mem_fieldIds_decode]

/-- A timestamp and a cleared state, an atom, and behind them a new timestamp, an empty field with
the number of the sequence, and a byte that begins no field. -/
theorem decode_followedBy_malformed :
    (scan [64, 5, 104, 1, 162, 5, 1, 7]).malformed = false ∧
      decode ([64, 5, 104, 1, 162, 5, 1, 7] ++ [64, 9, 82, 0, 255]) =
        { timestamp := some 9
          sequenceId := none
          cleared := true
          statsd := some [7]
          fieldIds := [8, 13, 84, 10]
          malformed := true } := by
  have hclean : (scan [64, 5, 104, 1, 162, 5, 1, 7]).malformed = false := by decide +kernel
  refine ⟨hclean, ?_⟩
  rw [(decode_followedBy hclean [64, 9, 82, 0, 255]).1]
  decide +kernel

end PacketView

end AtomTimeline
