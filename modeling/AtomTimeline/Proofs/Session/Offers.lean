import AtomTimeline.Proofs.Session.MalformedPackets

/-!
With what packets are offered to importers, read off the packets without a session.

* `Trace.offer`: a packet is offered under its own timestamp, or else the latest one before it, and
  with the handle of its sequence: the id, and how many packets up to it began a generation there.
* `Session.HasSeen` is the invariant of a session that keeps this up: its latest timestamp and its
  generations are those of the packets pushed. Pushing (`HasSeen.push`) and draining keep it.
* `Trace.Offered` are the records of importers that were offered all packets. `Session.Offering` is
  the invariant that the importers of a session have these records.
* `Session.feed_offers`: so in every run just these offers are made.
-/

namespace AtomTimeline

namespace Trace

/-! ### One packet -/

/-- The sequence of a packet: its last one, in 32 bits, and sequence zero if it has none. -/
def sequenceId (b : Bytes) : UInt32 :=
  (((scan b).fields.filterMap (Field.varint? 10)).getLast?.map UInt64.toUInt32).getD 0

/-- The packet begins a generation of its sequence: a field of flags has the lowest bit set, or the
older mark is not zero in some field. -/
def Clears (b : Bytes) : Prop :=
  (∃ flags : UInt64, ⟨13, .varint flags⟩ ∈ (scan b).fields ∧ flags.toNat.testBit 0) ∨
    ∃ mark : UInt64, ⟨41, .varint mark⟩ ∈ (scan b).fields ∧ mark ≠ 0

lemma sequenceId_decode (b : Bytes) :
    (PacketView.decode b).sequenceId.getD 0 = sequenceId b := rfl

lemma cleared_decode_iff {b : Bytes} : (PacketView.decode b).cleared = true ↔ Clears b := by
  simp only [PacketView.decode, PacketView.ofScan, List.any_eq_true, Field.marksCleared,
    Bool.or_eq_true, Option.any_eq_true, Field.varint?_eq_some_iff, Clears, Nat.testBit_zero,
    PacketField.sequenceFlags, PacketField.incrementalStateCleared]
  constructor
  · rintro ⟨f, hf, ⟨flags, rfl, hflags⟩ | ⟨mark, rfl, hmark⟩⟩
    · exact .inl ⟨flags, hf, hflags⟩
    · exact .inr ⟨mark, hf, of_decide_eq_true hmark⟩
  · rintro (⟨flags, hf, hflags⟩ | ⟨mark, hf, hmark⟩)
    · exact ⟨_, hf, .inl ⟨flags, rfl, hflags⟩⟩
    · exact ⟨_, hf, .inr ⟨mark, rfl, decide_eq_true hmark⟩⟩

instance (b : Bytes) : Decidable (Clears b) := decidable_of_iff _ cleared_decode_iff

/-! ### Packets in order -/

/-- How many packets of a sequence that can be read began a generation. -/
def generation (packets : List Bytes) (id : UInt32) : ℕ :=
  packets.countP fun b => readable b ∧ sequenceId b = id ∧ Clears b

/-- How a packet is offered for a field, behind other packets. Its generation is counted in words of
32 bits. -/
def offer (earlier : List Bytes) (b : Bytes) (field : UInt32) : PacketOffer where
  packet := PacketView.decode b
  ts := packetTime (latestTime earlier) b
  sequence := ⟨sequenceId b, .ofNat (generation (earlier ++ [b]) (sequenceId b))⟩
  field := field

/-- The records of importers that were offered packets, the fields having these owners. A packet is
offered for one of its fields after the other, and if not for all of them, then for one at least
that has an owner. One that cannot be read is not offered. -/
inductive Offered (owner : UInt32 → Option ℕ) : List Bytes → (ℕ → List PacketOffer) → Prop where
  | nil : Offered owner [] fun _ => []
  | dropped {pushed : List Bytes} {offers : ℕ → List PacketOffer} {b : Bytes} :
    Offered owner pushed offers → readable b = false → Offered owner (pushed ++ [b]) offers
  | taken {pushed : List Bytes} {offers : ℕ → List PacketOffer} {b : Bytes}
    {fields : List UInt32} :
    Offered owner pushed offers → readable b = true → fields <+: (PacketView.decode b).fieldIds →
      (fields = (PacketView.decode b).fieldIds ∨ ∃ field ∈ fields, (owner field).isSome) →
        Offered owner (pushed ++ [b]) fun place =>
          offers place ++ (fields.filter (owner · = some place)).map (offer pushed b)

lemma generation_append_singleton (packets : List Bytes) (b : Bytes) (id : UInt32) :
    generation (packets ++ [b]) id = generation packets id +
      if readable b ∧ sequenceId b = id ∧ Clears b then 1 else 0 := by
  simp only [generation, List.countP_append, List.countP_singleton, decide_eq_true_eq]

/-- Every offer is one of a packet that can be read, for a field of it that the importer owns. -/
theorem Offered.exists_of_mem {owner : UInt32 → Option ℕ} {pushed : List Bytes}
    {offers : ℕ → List PacketOffer} (h : Offered owner pushed offers) {place : ℕ} {o : PacketOffer}
    (ho : o ∈ offers place) :
    ∃ earlier b later, pushed = earlier ++ b :: later ∧ readable b = true ∧
      o.field ∈ (PacketView.decode b).fieldIds ∧ owner o.field = some place ∧
        o = offer earlier b o.field := by
  induction h with
  | nil => cases ho
  | @dropped pushed offers b _ _ ih =>
      obtain ⟨earlier, c, later, rfl, hc⟩ := ih ho
      exact ⟨earlier, c, later ++ [b], by simp, hc⟩
  | @taken pushed offers b fields _ hb hfields _ ih =>
      rcases List.mem_append.mp ho with ho | ho
      · obtain ⟨earlier, c, later, rfl, hc⟩ := ih ho
        exact ⟨earlier, c, later ++ [b], by simp, hc⟩
      · obtain ⟨field, hfield, rfl⟩ := List.mem_map.mp ho
        obtain ⟨hmem, howner⟩ := List.mem_filter.mp hfield
        exact ⟨pushed, b, [], rfl, hb, hfields.subset hmem, of_decide_eq_true howner, rfl⟩

end Trace

namespace Session

variable {ι : Type}

/-! ### What a session keeps of the packets -/

/-- The latest timestamp and the generations are those of the packets. -/
structure HasSeen (s : Session ι) (pushed : List Bytes) : Prop where
  latest : s.latestTimestamp = Trace.latestTime pushed
  generations : ∀ id, s.generations.getD id 0 = UInt32.ofNat (Trace.generation pushed id)

variable {s : Session ι} {pushed : List Bytes}

/-- The handle under which a packet enters. -/
lemma HasSeen.enterSequence (h : s.HasSeen pushed) {b : Bytes} (hb : Trace.readable b = true) :
    (s.enterSequence (PacketView.decode b)).1 =
      ⟨Trace.sequenceId b, .ofNat (Trace.generation (pushed ++ [b]) (Trace.sequenceId b))⟩ := by
  rw [Session.enterSequence, Trace.sequenceId_decode, h.generations,
    Trace.generation_append_singleton]
  by_cases hclears : Trace.Clears b
  · simp [hclears, hb, Trace.cleared_decode_iff, UInt32.ofNat_add]
  · simp [hclears, Trace.cleared_decode_iff]

/-- The generations after a packet. -/
lemma HasSeen.generations_entered (h : s.HasSeen pushed) {b : Bytes}
    (hb : Trace.readable b = true) (id : UInt32) :
    (s.entered (PacketView.decode b)).generations.getD id 0 =
      UInt32.ofNat (Trace.generation (pushed ++ [b]) id) := by
  have hentered : (s.entered (PacketView.decode b)).generations =
      s.generations.insert (s.enterSequence (PacketView.decode b)).1.id
        (s.enterSequence (PacketView.decode b)).1.generation := by
    simp only [entered, enterTime]
    split <;> rfl
  rw [hentered, h.enterSequence hb, Std.HashMap.getD_insert]
  by_cases hid : Trace.sequenceId b = id
  · subst hid
    simp
  · rw [h.generations, Trace.generation_append_singleton pushed b id]
    simp [hid]

variable [Importer ι]

lemma HasSeen.register (h : s.HasSeen pushed) (warns : Bool) (i : ι) :
    (s.register warns i).2.HasSeen pushed := by
  rw [Session.register]
  split <;> exact ⟨h.latest, h.generations⟩

lemma hasSeen_ofImporters (is : List ι) : (ofImporters is).HasSeen [] := by
  have key : ∀ s : Session ι, s.HasSeen [] →
      (is.foldl (fun s i => (s.register false i).2) s).HasSeen [] := by
    induction is with
    | nil => exact fun s h => h
    | cons i is ih => exact fun s h => ih _ (h.register false i)
  exact key initial ⟨rfl, fun id => by simp [initial, Trace.generation]⟩

/-- **Pushing a packet**: the session has seen it too. -/
theorem HasSeen.push (h : s.HasSeen pushed) (b : Bytes) : (s.push b).HasSeen (pushed ++ [b]) := by
  refine ⟨?_, ?_⟩
  · rw [latestTimestamp_push, h.latest, Trace.latestTime_append_singleton]
  · have hread := Trace.malformed_decode b
    cases hb : Trace.readable b with
    | false =>
        intro id
        rw [push_of_unreadable hb, Trace.generation_append_singleton, hb, if_neg (by simp)]
        exact h.generations id
    | true =>
        rw [hb] at hread
        rw [push_of_readable hread]
        exact offer_induction
          (P := fun s => ∀ id,
            s.generations.getD id 0 = UInt32.ofNat (Trace.generation (pushed ++ [b]) id))
          (fun _ h => h) (fun _ _ _ _ _ h => h) _ _ (h.generations_entered hb)

lemma HasSeen.drain (h : s.HasSeen pushed) {fatal : Option FatalCheck} {after : Session ι}
    (hdrain : s.drain = some (fatal, after)) : after.HasSeen pushed :=
  drain_preserves (P := fun s => s.HasSeen pushed) (fun _ _ _ _ h => ⟨h.latest, h.generations⟩)
    (fun _ _ _ _ _ _ h => ⟨h.latest, h.generations⟩) hdrain h

/-! ### Offers -/

/-- A packet is offered for one field after the other, each time to the owner of the field. -/
lemma offeredTo_offer (packet : PacketView) (ts : Int64) (sequence : SequenceHandle)
    (fields : List UInt32) (s : Session (Watched ι)) :
    ∃ asked, asked <+: fields ∧ (asked = fields ∨ ∃ field ∈ asked, (s.placeOf? field).isSome) ∧
      ∀ place, (s.offer packet ts sequence fields).offeredTo place =
        s.offeredTo place ++ (asked.filter (s.placeOf? · = some place)).map
          fun field => ⟨packet, ts, sequence, field⟩ := by
  induction fields generalizing s with
  | nil => exact ⟨[], List.prefix_refl _, .inl rfl, fun place => (List.append_nil _).symm⟩
  | cons field fields ih =>
      cases howner : s.owner? field with
      | none =>
          have hplace : s.placeOf? field = none := by rw [placeOf?, howner, Option.map_none]
          obtain ⟨asked, hasked, hend, hoffers⟩ := ih s
          refine ⟨field :: asked, List.cons_prefix_cons.mpr ⟨rfl, hasked⟩, ?_, fun place => ?_⟩
          · rcases hend with rfl | ⟨other, hother, hsome⟩
            · exact .inl rfl
            · exact .inr ⟨other, List.mem_cons_of_mem field hother, hsome⟩
          · rw [offer_of_no_owner howner, hoffers]
            simp [hplace]
      | some found =>
          obtain ⟨found, w⟩ := found
          have hplace : s.placeOf? field = some found := by rw [placeOf?, howner, Option.map_some]
          have hat := getElem?_of_owner? howner
          cases hv : (Importer.tokenize w s.context ⟨packet, ts, sequence, field⟩).1 with
          | handled =>
              refine ⟨[field], by simp, .inr ⟨field, by simp, by simp [hplace]⟩, fun place => ?_⟩
              rw [offer_of_handled howner hv, offeredTo_offered hat]
              by_cases h : found = place <;> simp [hplace, h]
          | ignored =>
              obtain ⟨asked, hasked, -, hoffers⟩ :=
                ih (s.offered found w ⟨packet, ts, sequence, field⟩)
              rw [placeOf?_offered] at hoffers
              refine ⟨field :: asked, List.cons_prefix_cons.mpr ⟨rfl, hasked⟩,
                .inr ⟨field, by simp, by simp [hplace]⟩, fun place => ?_⟩
              rw [offer_of_ignored howner hv, hoffers, offeredTo_offered hat]
              by_cases h : found = place <;> simp [hplace, h]

/-- The session has seen the packets, its fields have these owners, and the packets were offered to
them. -/
structure Offering (s : Session (Watched ι)) (owner : UInt32 → Option ℕ)
    (pushed : List Bytes) : Prop extends s.HasSeen pushed where
  owners : s.placeOf? = owner
  offers : Trace.Offered owner pushed s.offeredTo

variable {w : Session (Watched ι)} {owner : UInt32 → Option ℕ}

/-- A packet that can be read is offered for one of its fields after the other. -/
lemma Offering.exists_asked (h : w.Offering owner pushed) {b : Bytes}
    (hb : Trace.readable b = true) :
    ∃ asked, asked <+: (PacketView.decode b).fieldIds ∧
      (asked = (PacketView.decode b).fieldIds ∨ ∃ field ∈ asked, (owner field).isSome) ∧
      ∀ place, (w.push b).offeredTo place = w.offeredTo place ++
        (asked.filter (owner · = some place)).map (Trace.offer pushed b) := by
  have hread := Trace.malformed_decode b
  rw [hb] at hread
  obtain ⟨asked, hasked, hend, hoffers⟩ := offeredTo_offer (PacketView.decode b)
    (w.enterTime (PacketView.decode b)).1 (w.enterSequence (PacketView.decode b)).1
    (PacketView.decode b).fieldIds (w.entered (PacketView.decode b))
  rw [placeOf?_entered, h.owners] at hend hoffers
  refine ⟨asked, hasked, hend, fun place => ?_⟩
  rw [push_of_readable hread, hoffers, offeredTo, importers_entered, enterTime_decode,
    h.latest, h.enterSequence hb]
  rfl

/-- **Pushing a packet** offers it, unless it cannot be read. -/
theorem Offering.push (h : w.Offering owner pushed) (b : Bytes) :
    (w.push b).Offering owner (pushed ++ [b]) := by
  refine ⟨h.toHasSeen.push b, (placeOf?_foldl_push w [b]).trans h.owners, ?_⟩
  cases hb : Trace.readable b with
  | false =>
      rw [push_of_unreadable hb]
      exact h.offers.dropped hb
  | true =>
      obtain ⟨asked, hasked, hend, hoffers⟩ := h.exists_asked hb
      rw [funext hoffers]
      exact h.offers.taken hb hasked hend

lemma Offering.foldl_push (h : w.Offering owner pushed) (packets : List Bytes) :
    (packets.foldl Session.push w).Offering owner (pushed ++ packets) := by
  induction packets generalizing w pushed with
  | nil => exact (List.append_nil pushed).symm ▸ h
  | cons b packets ih =>
      have hrest := ih (h.push b)
      rwa [List.append_assoc, List.singleton_append] at hrest

lemma Offering.drain (h : w.Offering owner pushed) {fatal : Option FatalCheck}
    {after : Session (Watched ι)} (hdrain : w.drain = some (fatal, after)) :
    after.Offering owner pushed := by
  have hoffered : after.offeredTo = w.offeredTo := funext fun place => offeredTo_drain hdrain place
  exact ⟨h.toHasSeen.drain hdrain, (placeOf?_drain hdrain).trans h.owners, hoffered ▸ h.offers⟩

lemma offering_ofImporters (is : List ι) :
    (ofImporters (is.map Watched.fresh)).Offering (ofImporters is).placeOf? [] := by
  refine ⟨hasSeen_ofImporters _, ?_, ?_⟩
  · funext field
    rw [← placeOf?_forget, forget_ofImporters]
  · have hnone : (ofImporters (is.map Watched.fresh)).offeredTo = fun _ => [] :=
      funext fun place => (records_ofImporters is place).1
    rw [hnone]
    exact .nil

/-! ### Runs -/

/-- Watching changes nothing of a run, nor of whether it comes to an end. -/
lemma forget_feed (w : Session (Watched ι)) (feeds : List Feed) :
    w.forget.feed feeds = (w.feed feeds).map (Prod.map id forget) ∧
      w.forget.made feeds = w.made feeds := by
  induction w, feeds using feeds_induction with
  | nil w => exact ⟨rfl, rfl⟩
  | packet w b feeds ih =>
      rw [forget_push] at ih
      exact ⟨ih.1, congrArg (Feed.packet b :: ·) ih.2⟩
  | unending w feeds hdrain =>
      have hforget := forget_drain w
      rw [hdrain] at hforget
      rw [feed_of_unending hdrain, feed_of_unending hforget, made_of_unending hdrain,
        made_of_unending hforget]
      exact ⟨rfl, rfl⟩
  | halted w check after feeds hdrain =>
      have hforget := forget_drain w
      rw [hdrain] at hforget
      rw [feed_of_halted hdrain, feed_of_halted hforget, made_of_halted hdrain,
        made_of_halted hforget]
      exact ⟨rfl, rfl⟩
  | drained w after feeds hdrain ih =>
      have hforget := forget_drain w
      rw [hdrain] at hforget
      rw [feed_of_drained hdrain, feed_of_drained hforget, made_of_drained hdrain,
        made_of_drained hforget]
      exact ⟨ih.1, congrArg (Feed.endOfFile :: ·) ih.2⟩

/-- **Every offer is that of its packet.** Whatever importers a session has and however pushes and
ends of files are mixed, in a run that comes to an end, be it at a check that fails: each offer is
one of a packet that can be read, for one of its fields that the importer owns. It is made under the
packet's own last timestamp, or else the latest one of the packets before it that can be read, at
least zero; and with the packet's sequence and, modulo `2 ^ 32`, the number of packets of that
sequence, up to this one, that can be read and began a generation. Every packet that can be read is
offered so. Importers that leave the queue alone while it is drained make every run come to an end.

A packet that cannot be read adds one to the count of malformed packets and to that of the packets
seen, and does nothing else to a session. If the importers do not look at the former count, a run
without these packets ends in the same way, if at all, and but for the two counts it leaves the same
session: the same counters and tables, and the same offers. -/
theorem feed_offers (is : List ι) (feeds : List Feed) :
    (∀ (s : Session ι) b, Trace.readable b = false → s.push b = s.withMalformed 1) ∧
    (ofImporters is).feed feeds =
      ((ofImporters (is.map Watched.fresh)).feed feeds).map (Prod.map id forget) ∧
    (Importer.LeavesQueue ι → ∃ fatal after,
      (ofImporters (is.map Watched.fresh)).feed feeds = some (fatal, after)) ∧
    (∀ fatal after, (ofImporters (is.map Watched.fresh)).feed feeds = some (fatal, after) →
      ∃ pushed, pushed = Feed.packets ((ofImporters is).made feeds) ∧
        (fatal = none → pushed = Feed.packets feeds) ∧
        (∀ place, ∀ o ∈ after.offeredTo place, ∃ earlier b later,
          pushed = earlier ++ b :: later ∧ Trace.readable b = true ∧
          o.field ∈ (PacketView.decode b).fieldIds ∧
          (ofImporters is).placeOf? o.field = some place ∧
          o = { packet := PacketView.decode b
                ts := (Trace.ownTime? b).getD (Trace.latestTime earlier)
                sequence := ⟨Trace.sequenceId b,
                  .ofNat (Trace.generation (earlier ++ [b]) (Trace.sequenceId b))⟩
                field := o.field }) ∧
        Trace.Offered (ofImporters is).placeOf? pushed after.offeredTo ∧
        (Importer.OverlooksMalformed ι → ∃ bare,
          (ofImporters (is.map Watched.fresh)).feed (feeds.filter Feed.readable) =
            some (fatal, bare) ∧
          after = bare.withMalformed (Trace.malformedCount pushed) ∧
          after.storage = bare.storage.countBy .packetMalformed
            (Int64.ofNat (Trace.malformedCount pushed)) ∧
          after.offeredTo = bare.offeredTo)) ∧
    (Importer.OverlooksMalformed ι → (ofImporters (is.map Watched.fresh)).feed feeds = none →
      (ofImporters (is.map Watched.fresh)).feed (feeds.filter Feed.readable) = none) := by
  refine ⟨fun s b hb => push_of_unreadable hb s, ?_⟩
  obtain ⟨w, hw⟩ : ∃ w, ofImporters (is.map Watched.fresh) = w := ⟨_, rfl⟩
  have hforget : w.forget = ofImporters is := hw ▸ forget_ofImporters is
  obtain ⟨hfeed, hmade⟩ := forget_feed w feeds
  rw [hforget] at hfeed hmade
  rw [hw, hmade]
  refine ⟨hfeed, fun hι => exists_feed hι.watched w feeds, fun fatal after hafter => ?_,
    fun hι hnone => ?_⟩
  · have hoffering := feed_preserves
      (P := fun pushed w => w.Offering (ofImporters is).placeOf? pushed)
      (fun _ _ b h => h.push b) (fun _ _ _ _ hdrain h => h.drain hdrain)
      (hw ▸ offering_ofImporters is) hafter
    rw [List.nil_append] at hoffering
    refine ⟨_, rfl, fun hnone => ?_, fun place o ho => hoffering.offers.exists_of_mem ho,
      hoffering.offers, fun hι => ?_⟩
    · rw [hnone] at hafter
      rw [made_of_feed hafter]
    · rw [feed_without_unreadable hι.watched] at hafter
      obtain ⟨⟨check, bare⟩, hbare, heq⟩ := Option.map_eq_some_iff.mp hafter
      cases heq
      exact ⟨bare, hbare, rfl, rfl, rfl⟩
  · rw [feed_without_unreadable hι.watched] at hnone
    exact Option.map_eq_none_iff.mp hnone

/-- A packet of sequence three that begins a generation, one that cannot be read, one of the same
sequence without a timestamp, and the end of the file. -/
def aroundMalformed : List Feed :=
  [.packet [64, 7, 80, 3, 104, 1], .packet [255], .packet [80, 3, 162, 5, 0], .endOfFile]

/-- Offers to an importer of atoms and to a bystander, with a packet that cannot be read among
others and without it. -/
theorem feed_offers_around_malformed :
    Trace.readable [255] = false ∧ Importer.OverlooksMalformed (AtomImporter ⊕ Bystander) ∧
    ∃ after bare : Session (Watched (AtomImporter ⊕ Bystander)),
      (ofImporters (besideTimestamps.map Watched.fresh)).feed aroundMalformed =
        some (none, after) ∧
      Trace.Offered (ofImporters besideTimestamps).placeOf?
        [[64, 7, 80, 3, 104, 1], [255], [80, 3, 162, 5, 0]] after.offeredTo ∧
      (ofImporters (besideTimestamps.map Watched.fresh)).feed
        [.packet [64, 7, 80, 3, 104, 1], .packet [80, 3, 162, 5, 0], .endOfFile] =
          some (none, bare) ∧
      after = bare.withMalformed 1 ∧
      after.forget.push [255] = after.forget.withMalformed 1 := by
  have hunreadable : Trace.readable [255] = false := by decide +kernel
  have hkept : aroundMalformed.filter Feed.readable =
      [.packet [64, 7, 80, 3, 104, 1], .packet [80, 3, 162, 5, 0], .endOfFile] := by decide +kernel
  have hcount : Trace.malformedCount (Feed.packets aroundMalformed) = 1 := by decide +kernel
  have hoverlooks := AtomImporter.overlooksMalformed.sum Bystander.overlooksMalformed
  have hleaves := AtomImporter.leavesQueue.sum Bystander.leavesQueue
  obtain ⟨hpush, hplain, hends, hall, -⟩ := feed_offers besideTimestamps aroundMalformed
  obtain ⟨fatal, after, hfeed⟩ := hends hleaves
  have hatoms := AtomImporter.atomsOnly.sum Bystander.atomsOnly
  obtain ⟨last, hlast, -⟩ :=
    atomsWait_besideTimestamps.run hatoms (Feed.registered?_of_mem_map aroundMalformed)
  obtain rfl : fatal = none := by
    rw [feed, hlast, hfeed] at hplain
    cases hplain
    rfl
  obtain ⟨pushed, -, hpushed, -, hoffered, hwithout⟩ := hall none after hfeed
  obtain rfl := hpushed rfl
  obtain ⟨bare, hbare, hafter, -, -⟩ := hwithout hoverlooks
  rw [hkept] at hbare
  rw [hcount] at hafter
  exact ⟨hunreadable, hoverlooks, after, bare, hfeed, hoffered, hbare, hafter,
    hpush after.forget [255] hunreadable⟩

example : (Trace.offer [[64, 7, 80, 3, 104, 1], [255]] [80, 3, 162, 5, 0] 84).ts = 7 ∧
    (Trace.offer [[64, 7, 80, 3, 104, 1], [255]] [80, 3, 162, 5, 0] 84).sequence = ⟨3, 1⟩ := by
  decide +kernel

/-! ### Where a packet that cannot be read shows -/

/-- An importer of one field. It handles packets as long as none was malformed. -/
structure Cautious where
  field : UInt32
  deriving DecidableEq, Repr

instance : Importer Cautious where
  fields c := [c.field]
  tokenize c context _ :=
    if context.timeline.storage.counters.get .packetMalformed = 0 then (.handled, c, context)
    else (.ignored, c, context)
  parse c context _ := (none, c, context)

lemma tokenize_cautious (c : Cautious) (context : Context) (o : PacketOffer) :
    Importer.tokenize c context o =
      (if context.timeline.storage.counters.get .packetMalformed = 0 then .handled else .ignored, c,
        context) := by
  simp only [Importer.tokenize]
  split <;> rfl

/-- One packet with a timestamp alone, pushed to such an importer. -/
lemma get_ignored_push_cautious {s : Session Cautious} (howner : s.owner? 8 = some (0, ⟨8⟩)) :
    (s.push [64, 7]).storage.counters.get .packetIgnored =
      s.storage.counters.get .packetIgnored +
        if s.storage.counters.get .packetMalformed = 0 then 0 else 1 := by
  have hread : (PacketView.decode [64, 7]).malformed = false := by decide +kernel
  have hids : (PacketView.decode [64, 7]).fieldIds = [8] := by decide +kernel
  have hentered : (s.entered (PacketView.decode [64, 7])).owner? 8 = some (0, ⟨8⟩) := by
    rw [owner?, owners_entered, importers_entered, ← owner?, howner]
  have hcontext : ∀ o, ((s.entered (PacketView.decode [64, 7])).offered 0 ⟨8⟩ o).context =
      s.context := by
    intro o
    rw [offered, tokenize_cautious, context_entered]
  rw [push_of_readable hread, hids]
  by_cases hcount : s.storage.counters.get .packetMalformed = 0
  · have hverdict : ∀ o, (Importer.tokenize (⟨8⟩ : Cautious)
        (s.entered (PacketView.decode [64, 7])).context o).1 = .handled := by
      intro o
      rw [tokenize_cautious, context_entered]
      exact if_pos hcount
    rw [offer_of_handled hentered (hverdict _), storage, hcontext, if_pos hcount, Int64.add_zero]
    rfl
  · have hverdict : ∀ o, (Importer.tokenize (⟨8⟩ : Cautious)
        (s.entered (PacketView.decode [64, 7])).context o).1 = .ignored := by
      intro o
      rw [tokenize_cautious, context_entered]
      exact if_neg hcount
    rw [offer_of_ignored hentered (hverdict _), offer, get_count, storage, hcontext, if_neg hcount]
    rfl

/-- A packet that begins a generation of sequence zero. -/
def clearing : Bytes := [104, 1]

/-- A bystander that owns the field of flags. -/
def besideFlags : Session (Watched Bystander) := ofImporters ([⟨[13]⟩].map Watched.fresh)

lemma generation_replicate_clearing (n : ℕ) :
    Trace.generation (List.replicate n clearing) 0 = n := by
  have hclearing : Trace.readable clearing = true ∧ Trace.sequenceId clearing = 0 ∧
      Trace.Clears clearing := by decide +kernel
  rw [Trace.generation, List.countP_replicate, if_pos (decide_eq_true hclearing)]

/-- With which sequence the last of these packets is offered. -/
lemma sequence_getLast?_offeredTo_clearing {n : ℕ} (hn : n ≠ 0) :
    (((List.replicate n clearing).foldl push besideFlags).offeredTo 0).getLast?.map
      PacketOffer.sequence = some ⟨0, .ofNat n⟩ := by
  obtain ⟨n, rfl⟩ := Nat.exists_eq_succ_of_ne_zero hn
  have howner : (ofImporters [(⟨[13]⟩ : Bystander)]).placeOf? 13 = some 0 := by
    simp [placeOf?, owner?, ofImporters, register, initial, Importer.fields, claim]
  have hids : (PacketView.decode clearing).fieldIds = [13] := by decide +kernel
  have hread : Trace.readable clearing = true := by decide +kernel
  have hsequence : Trace.sequenceId clearing = 0 := by decide +kernel
  have hoffering := (offering_ofImporters [(⟨[13]⟩ : Bystander)]).foldl_push
    (List.replicate n clearing)
  obtain ⟨asked, hasked, hend, hoffers⟩ := hoffering.exists_asked hread
  rw [hids] at hasked hend
  obtain rfl : asked = [13] := by
    rcases hend with hall | ⟨field, hfield, -⟩
    · exact hall
    · exact hasked.eq_of_length_le (List.length_pos_of_mem hfield)
  rw [List.replicate_succ', List.foldl_append, List.foldl_cons, List.foldl_nil, besideFlags,
    hoffers 0]
  simp only [howner, decide_true, List.filter_cons_of_pos, List.filter_nil, List.map_cons,
    List.map_nil, List.getLast?_append, List.getLast?_singleton, Option.some_or, Option.map_some]
  rw [Trace.offer, List.nil_append, ← List.replicate_succ', hsequence,
    generation_replicate_clearing]

/-- **What a session shows of packets that cannot be read**, and of generations. After such a packet
the next one in a trace has another number, by which an error names it. An importer that looks at
the count of malformed packets may answer otherwise, and so the count of ignored packets may be
another. And after `2 ^ 32` packets that begin a generation the next offer is one of generation
zero. -/
theorem unreadable_packet_shows :
    (Trace.readable [255] = false ∧
      ((initial : Session Bystander).importTrace (.ofBytes [10])).map Prod.fst =
        some (.failed ⟨1, .endOfInput⟩) ∧
      (((initial : Session Bystander).push [255]).importTrace (.ofBytes [10])).map Prod.fst =
        some (.failed ⟨2, .endOfInput⟩)) ∧
    (([[64, 7]].foldl push (ofImporters [(⟨8⟩ : Cautious)])).storage.counters.get
        .packetIgnored = 0 ∧
      ([[255], [64, 7]].foldl push (ofImporters [(⟨8⟩ : Cautious)])).storage.counters.get
        .packetIgnored = 1) ∧
    Trace.generation (List.replicate (2 ^ 32) clearing) 0 = 2 ^ 32 ∧
    (((List.replicate (2 ^ 32) clearing).foldl push besideFlags).offeredTo 0).getLast?.map
      PacketOffer.sequence = some ⟨0, 0⟩ := by
  have hbroken : (Source.ofBytes [10]).packets = ([], some .endOfInput) := by decide +kernel
  have hunreadable : Trace.readable [255] = false := by decide +kernel
  have howner : (ofImporters [(⟨8⟩ : Cautious)]).owner? 8 = some (0, ⟨8⟩) := by
    simp [owner?, ofImporters, register, initial, Importer.fields, claim]
  refine ⟨⟨hunreadable, ?_, ?_⟩, ⟨?_, ?_⟩, generation_replicate_clearing _, ?_⟩
  · simp [importTrace, hbroken, initial]
  · simp [importTrace, hbroken, push_of_unreadable hunreadable, withMalformed, initial]
  · rw [List.foldl_cons, List.foldl_nil, get_ignored_push_cautious howner, storage,
      context_ofImporters]
    decide
  · rw [List.foldl_cons, push_of_unreadable hunreadable, List.foldl_cons, List.foldl_nil,
      get_ignored_push_cautious (by exact howner), storage, withMalformed, context_ofImporters]
    decide
  · rw [sequence_getLast?_offeredTo_clearing (by norm_num)]
    rfl

end Session

end AtomTimeline
