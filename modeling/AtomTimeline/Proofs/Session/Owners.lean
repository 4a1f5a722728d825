import AtomTimeline.Proofs.Packet.Concatenation
import AtomTimeline.Proofs.Session.Handover
import AtomTimeline.Proofs.Statsd.Tallies

/-!
Who owns a field, and to whom a packet is offered in a session on which any calls were made.

* `Session.placeOf?_of_run` and `Session.placeOf?_of_run_append`: a field is owned by the first
  importer added that lists it, and stays owned by it. Adding an importer does not fail if it lists
  no field twice (`Session.RegisteredAs.register_of_nodup`).
* `Session.Asks`: importers are asked one after the other, with an answer of each. `Session.Round`:
  they are asked for the fields of a packet that have an owner, up to the first that handles it.
  `Session.offer_round`: this is what becomes of a packet, and it is counted if none handled it.
* `Session.push_offers` is all this for a session on which any calls were made.
-/

namespace AtomTimeline

namespace Session

variable {ι : Type} [Importer ι]

/-! ### Owners -/

section

variable {s after : Session ι} {calls more : List (Call ι)} {field : UInt32} {place : ℕ}

/-- **A field is owned by the first importer added that lists it**, whatever calls were made. -/
theorem placeOf?_of_run (h : initial.run calls = some (none, s)) (field : UInt32) :
    s.placeOf? field =
      (calls.filterMap Call.registered?).findIdx? fun i => field ∈ Importer.fields i := by
  have hs := RegisteredAs.initial.run h
  rw [List.nil_append] at hs
  exact hs.placeOf?_eq field

/-- The owner of a field stays, whatever calls follow. -/
lemma placeOf?_of_run_append (h : initial.run calls = some (none, s))
    (hmore : initial.run (calls ++ more) = some (none, after))
    (hplace : s.placeOf? field = some place) : after.placeOf? field = some place := by
  rw [placeOf?_of_run h] at hplace
  rw [placeOf?_of_run hmore, List.filterMap_append, List.findIdx?_append, hplace, Option.some_or]

end

/-! ### Offers -/

/-- An importer was offered a packet, and answered. -/
structure Asked where
  /-- The place of the importer. -/
  place : ℕ
  offer : PacketOffer
  verdict : Verdict
  /-- What it added by itself to the count of ignored packets. -/
  added : Int64
  deriving DecidableEq, Repr

/-- What an importer that is offered a packet adds to the count of ignored packets. -/
def ignoredAdded (i : ι) (context : Context) (o : PacketOffer) : Int64 :=
  (Importer.tokenize i context o).2.2.timeline.storage.counters.get .packetIgnored -
    context.timeline.storage.counters.get .packetIgnored

/-- Importers are asked one after the other, each the owner of the field for which it is asked. -/
inductive Asks : Session ι → List Asked → Session ι → Prop where
  | nil {s : Session ι} : Asks s [] s
  | cons {s after : Session ι} {place : ℕ} {i : ι} {o : PacketOffer} {asked : List Asked} :
    s.owner? o.field = some (place, i) → Asks (s.offered place i o) asked after →
      Asks s (⟨place, o, (Importer.tokenize i s.context o).1, ignoredAdded i s.context o⟩ :: asked)
        after

variable {s after : Session ι} {packet : PacketView} {ts : Int64} {sequence : SequenceHandle}
  {asked : List Asked}

/-- The offers of a packet for fields that have an owner. -/
def offersFor (s : Session ι) (packet : PacketView) (ts : Int64) (sequence : SequenceHandle)
    (fields : List UInt32) : List PacketOffer :=
  (fields.filter fun field => (s.placeOf? field).isSome).map fun field =>
    ⟨packet, ts, sequence, field⟩

/-- A packet is offered for fields that have an owner, in this order, up to the first offer that is
handled. -/
structure Round (s : Session ι) (offers : List PacketOffer) (asked : List Asked)
    (after : Session ι) : Prop where
  asks : s.Asks asked after
  /-- Each offer is made once, and none is left out. -/
  offers_prefix : asked.map Asked.offer <+: offers
  owner : ∀ a ∈ asked, s.placeOf? a.offer.field = some a.place
  /-- Nobody is asked behind one that handled the packet. -/
  last_handled : ∀ front a behind, asked = front ++ a :: behind → a.verdict = .handled →
    behind = []
  /-- Unless somebody handled the packet, all owners were asked. -/
  all_asked : (∀ a ∈ asked, a.verdict = .ignored) → asked.map Asked.offer = offers

/-- The session once a packet was offered: it is counted if nobody handled it. -/
def settled (after : Session ι) (asked : List Asked) : Session ι :=
  if ∃ a ∈ asked, a.verdict = .handled then after else after.count .packetIgnored

namespace Round

variable {offers : List PacketOffer} {o : PacketOffer} {place : ℕ} {i : ι}

lemma nil (s : Session ι) : s.Round [] [] s where
  asks := .nil
  offers_prefix := List.nil_prefix
  owner := by simp
  last_handled front a behind h := by simp at h
  all_asked _ := rfl

/-- A round ends with an importer that handles the packet. -/
lemma handled (howner : s.owner? o.field = some (place, i))
    (hverdict : (Importer.tokenize i s.context o).1 = .handled) (offers : List PacketOffer) :
    s.Round (o :: offers) [⟨place, o, .handled, ignoredAdded i s.context o⟩]
      (s.offered place i o) where
  asks := hverdict ▸ .cons howner .nil
  offers_prefix := ⟨offers, rfl⟩
  owner a ha := by
    rw [List.mem_singleton.mp ha, placeOf?, howner]
    rfl
  last_handled front a behind h _ := by
    cases front with
    | nil => exact (List.cons.inj h).2.symm
    | cons first front => simp at h
  all_asked h := by simp at h

/-- An importer that ignores the packet leaves it to the others. -/
lemma ignored (howner : s.owner? o.field = some (place, i))
    (hverdict : (Importer.tokenize i s.context o).1 = .ignored)
    (h : (s.offered place i o).Round offers asked after) :
    s.Round (o :: offers) (⟨place, o, .ignored, ignoredAdded i s.context o⟩ :: asked) after where
  asks := hverdict ▸ .cons howner h.asks
  offers_prefix := (List.prefix_cons_inj o).mpr h.offers_prefix
  owner a ha := by
    rcases List.mem_cons.mp ha with rfl | ha
    · rw [placeOf?, howner]
      rfl
    · have howned := h.owner a ha
      rwa [placeOf?_offered] at howned
  last_handled front a behind hsplit ha := by
    cases front with
    | nil =>
        rw [← (List.cons.inj hsplit).1] at ha
        cases ha
    | cons first front => exact h.last_handled front a behind (List.cons.inj hsplit).2 ha
  all_asked hall :=
    congrArg (o :: ·) (h.all_asked fun a ha => hall a (List.mem_cons_of_mem _ ha))

end Round

/-- **Offering a packet** is such a round. -/
theorem offer_round (s : Session ι) (packet : PacketView) (ts : Int64) (sequence : SequenceHandle)
    (fields : List UInt32) :
    ∃ asked after, s.Round (s.offersFor packet ts sequence fields) asked after ∧
      s.offer packet ts sequence fields = after.settled asked := by
  induction fields generalizing s with
  | nil => exact ⟨[], s, .nil s, by simp [offer, settled]⟩
  | cons field fields ih =>
      cases howner : s.owner? field with
      | none =>
          have hoffers : s.offersFor packet ts sequence (field :: fields) =
              s.offersFor packet ts sequence fields := by
            simp [offersFor, placeOf?, howner]
          rw [offer_of_no_owner howner, hoffers]
          exact ih s
      | some found =>
          obtain ⟨place, i⟩ := found
          have hoffers : s.offersFor packet ts sequence (field :: fields) =
              ⟨packet, ts, sequence, field⟩ :: s.offersFor packet ts sequence fields := by
            simp [offersFor, placeOf?, howner]
          rw [hoffers]
          cases hverdict : (Importer.tokenize i s.context ⟨packet, ts, sequence, field⟩).1 with
          | handled =>
              exact ⟨_, _, .handled howner hverdict _, by
                rw [offer_of_handled howner hverdict]
                simp [settled]⟩
          | ignored =>
              obtain ⟨asked, after, hround, hsettled⟩ :=
                ih (s.offered place i ⟨packet, ts, sequence, field⟩)
              rw [offersFor, placeOf?_offered, ← offersFor] at hround
              refine ⟨_, after, .ignored howner hverdict hround, ?_⟩
              rw [offer_of_ignored howner hverdict, hsettled]
              simp [settled]

end Session

/-! ### The count of ignored packets -/

/-- A packet without a batch is ignored, also one with a field of the id that holds something
else. -/
lemma AtomImporter.tokenize_of_not_lengthDelimited {b : Bytes}
    (hbatch : ∀ body, ⟨PacketField.statsdAtom, .lengthDelimited body⟩ ∉ (scan b).fields)
    (i : AtomImporter) (context : Context) {offer : PacketOffer}
    (hpacket : offer.packet = PacketView.decode b) :
    Importer.tokenize i context offer = (.ignored, i, context) := by
  have hnone : offer.packet.statsd = none := by
    rw [hpacket, PacketView.decode, PacketView.ofScan, List.getLast?_eq_none_iff,
      List.filterMap_eq_nil_iff]
    refine fun f hf => Option.eq_none_iff_forall_ne_some.mpr fun body hbody => hbatch body ?_
    rwa [← Field.bytes?_eq_some_iff.mp hbody]
  simp only [Importer.tokenize, tokenize_of_no_batch context offer hnone]

namespace Session

variable {ι : Type} [Importer ι] {s after : Session ι} {asked : List Asked}

/-- The count of ignored packets once importers were asked: each may have added to it. -/
lemma Asks.get_ignored (h : s.Asks asked after) :
    after.storage.counters.get .packetIgnored =
      s.storage.counters.get .packetIgnored + (asked.map Asked.added).sum := by
  induction h with
  | nil => exact (Int64.add_zero _).symm
  | @cons s after place i o asked _ _ ih =>
      have hone : (s.offered place i o).storage.counters.get .packetIgnored =
          s.storage.counters.get .packetIgnored + ignoredAdded i s.context o := by
        rw [ignoredAdded, Int64.add_comm, storage, storage, Int64.sub_add_cancel]
        rfl
      rw [ih, hone, List.map_cons, List.sum_cons, Int64.add_assoc]

/-- Every answer is one of an importer to that offer. -/
lemma Asks.exists_tokenize (h : s.Asks asked after) {a : Asked} (ha : a ∈ asked) :
    ∃ (i : ι) (context : Context), a.verdict = (Importer.tokenize i context a.offer).1 ∧
      a.added = ignoredAdded i context a.offer := by
  induction h with
  | nil => cases ha
  | @cons s _ _ i _ _ _ _ ih =>
      rcases List.mem_cons.mp ha with rfl | ha
      · exact ⟨i, s.context, rfl, rfl⟩
      · exact ih ha

lemma get_ignored_settled (h : s.Asks asked after) :
    (after.settled asked).storage.counters.get .packetIgnored =
      s.storage.counters.get .packetIgnored + (asked.map Asked.added).sum +
        if ∃ a ∈ asked, a.verdict = .handled then 0 else 1 := by
  rw [settled, ← h.get_ignored]
  split
  · rw [Int64.add_zero]
  · rw [get_count]

lemma sum_added_eq_zero {asked : List Asked} (h : ∀ a ∈ asked, a.added = 0) :
    (asked.map Asked.added).sum = 0 := by
  induction asked with
  | nil => rfl
  | cons a asked ih =>
      rw [List.map_cons, List.sum_cons, h a List.mem_cons_self, Int64.zero_add]
      exact ih fun b hb => h b (List.mem_cons_of_mem a hb)

/-- A bystander that is added first, a packet, an importer of atoms, and another bystander that
lists fields of both. -/
def overlapping : List (Call (AtomImporter ⊕ Bystander)) :=
  [.register true (.inr ⟨[8, 13]⟩), .push [64, 5],
    .register true (.inl (.ofSchema ⟨.empty, ""⟩ defaultTrackName)),
    .register true (.inr ⟨[84, 13]⟩)]

/-- A packet whose field of atoms is a varint, and in which a field comes twice. -/
def oddPacket : Bytes := [160, 5, 1, 64, 7, 104, 0, 64, 9]

lemma exists_run_overlapping : ∃ s, initial.run overlapping = some (none, s) := by
  have hregister : ∀ {s : Session (AtomImporter ⊕ Bystander)} {is} {i}, s.RegisteredAs is →
      (Importer.fields i).Nodup →
        ∃ after, s.call (.register true i) = some (none, after) ∧ after.RegisteredAs (is ++ [i]) :=
    fun hs hi => ⟨_, congrArg some (Prod.ext (hs.register_of_nodup true hi) rfl),
      hs.register (Prod.ext (hs.register_of_nodup true hi) rfl)⟩
  obtain ⟨first, hfirst, hbehind⟩ := hregister .initial (i := .inr ⟨[8, 13]⟩) (by decide)
  obtain ⟨second, hsecond, hbehind⟩ := hregister (hbehind.push [64, 5])
    (i := .inl (.ofSchema ⟨.empty, ""⟩ defaultTrackName)) (List.nodup_singleton _)
  obtain ⟨third, hthird, -⟩ := hregister hbehind (i := .inr ⟨[84, 13]⟩) (by decide)
  refine ⟨third, ?_⟩
  rw [overlapping, run_of_call hfirst, run_of_call rfl, run_of_call hsecond, run_of_call hthird,
    run_nil]

end Session

end AtomTimeline
