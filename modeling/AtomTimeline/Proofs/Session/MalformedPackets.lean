import AtomTimeline.Proofs.Session.AtomRuns
import AtomTimeline.Proofs.Session.Handover
import AtomTimeline.Proofs.Statsd.Tallies

/-!
Packets that cannot be read to their end, and what an import would be without them.

* `Session.feed` feeds a session packets and ends of files, up to a check that fails or a drain that
  does not come to an end; `Session.made` is what it is fed of them. `Session.feeds_induction` is
  the induction along this, `Session.feed_preserves` the rule for invariants.
* `Session.push_of_unreadable`: pushing a packet that cannot be read counts it as malformed and
  among the packets seen, and does nothing else.
* `Importer.OverlooksMalformed` is said of importers that do not look at the count of malformed
  packets. Importers of atoms do not, nor do bystanders.
* `Session.feed_without_unreadable`: so with these importers such packets may be left out, the
  counts apart.
-/

namespace AtomTimeline

/-! ### The count of malformed packets -/

/-- How many of the packets cannot be read to their end. -/
def Trace.malformedCount (packets : List Bytes) : ℕ := packets.countP fun b => !readable b

/-- The timeline once `n` more malformed packets were counted. -/
def Timeline.withMalformed (n : ℕ) (t : Timeline) : Timeline :=
  t.mapStorage (·.countBy .packetMalformed (Int64.ofNat n))

/-- The context once `n` more malformed packets were counted. -/
def Context.withMalformed (n : ℕ) (context : Context) : Context :=
  { context with timeline := context.timeline.withMalformed n }

namespace Timeline

lemma withMalformed_eq_tally (n : ℕ) (t : Timeline) :
    t.withMalformed n = t.tally (Counters.zero.add .packetMalformed (Int64.ofNat n)) := by
  rw [tally, Storage.tally, Counters.plus_add, Counters.plus_zero]
  rfl

lemma tally_right_comm (t : Timeline) (added more : Counters) :
    (t.tally added).tally more = (t.tally more).tally added := by
  have hcomm : ∀ a b c : Int64, a + b + c = a + c + b := fun a b c => by
    rw [Int64.add_assoc, Int64.add_comm b, ← Int64.add_assoc]
  simp only [tally, Storage.tally, Counters.plus, hcomm]

lemma withMalformed_zero (t : Timeline) : t.withMalformed 0 = t := by
  rw [withMalformed_eq_tally, tally, Storage.tally, Counters.plus_add, Counters.plus_zero]
  simp [Counters.add]

lemma withMalformed_add (m n : ℕ) (t : Timeline) :
    (t.withMalformed m).withMalformed n = t.withMalformed (m + n) := by
  simp [withMalformed, mapStorage, Storage.countBy, Counters.add, Int64.ofNat_add, Int64.add_assoc]

end Timeline

/-! ### Importers that overlook it -/

/-- The importers do not look at the count of malformed packets: what they answer, what becomes of
them and what they write is the same before and after more were counted. -/
structure Importer.OverlooksMalformed (ι : Type) [Importer ι] : Prop where
  tokenize : ∀ (i : ι) context offer n,
    Importer.tokenize i (Context.withMalformed n context) offer =
      Prod.map id (Prod.map id (Context.withMalformed n)) (Importer.tokenize i context offer)
  parse : ∀ (i : ι) context sorted n,
    Importer.parse i (Context.withMalformed n context) sorted =
      Prod.map id (Prod.map id (Context.withMalformed n)) (Importer.parse i context sorted)

lemma AtomImporter.overlooksMalformed : Importer.OverlooksMalformed AtomImporter where
  tokenize i context offer n := by
    have hsplit : ∀ batch, queueBatch (context.withMalformed n) batch offer =
        (queueBatch context batch offer).withMalformed n := by
      intro batch
      rw [queueBatch_eq, queueBatch_eq, Context.withMalformed, Context.withMalformed,
        Timeline.withMalformed_eq_tally, Timeline.withMalformed_eq_tally,
        Timeline.tally_right_comm]
    simp only [Importer.tokenize, tokenize, hsplit]
    split
    · rfl
    · split <;> rfl
  parse i context sorted n := by
    have hadded : Timeline.withMalformed n =
        Timeline.tally (Counters.zero.add .packetMalformed (Int64.ofNat n)) :=
      funext (Timeline.withMalformed_eq_tally n)
    have hparse : i.parse (context.timeline.withMalformed n) sorted =
        Prod.map id (Prod.map id (Timeline.withMalformed n)) (i.parse context.timeline sorted) := by
      rw [hadded]
      exact parse_tally i context.timeline sorted
    rw [parse_eq, parse_eq, Context.withMalformed, hparse]
    rfl

lemma Bystander.overlooksMalformed : Importer.OverlooksMalformed Bystander where
  tokenize _ _ _ _ := rfl
  parse _ _ _ _ := rfl

namespace Importer.OverlooksMalformed

variable {ι κ : Type} [Importer ι] [Importer κ]

lemma sum (hι : OverlooksMalformed ι) (hκ : OverlooksMalformed κ) :
    OverlooksMalformed (ι ⊕ κ) where
  tokenize
    | .inl i, context, offer, n => by simp only [Importer.tokenize, hι.tokenize]; rfl
    | .inr k, context, offer, n => by simp only [Importer.tokenize, hκ.tokenize]; rfl
  parse
    | .inl i, context, sorted, n => by simp only [Importer.parse, hι.parse]; rfl
    | .inr k, context, sorted, n => by simp only [Importer.parse, hκ.parse]; rfl

lemma watched (hι : OverlooksMalformed ι) : OverlooksMalformed (Watched ι) where
  tokenize w context offer n := by simp only [Importer.tokenize, hι.tokenize]; rfl
  parse w context sorted n := by simp only [Importer.parse, hι.parse]; rfl

end Importer.OverlooksMalformed

namespace Session

/-! ### Feeding a session -/

/-- The call that feeds it to a session with importers of any type. -/
def Feed.on (ι : Type) : Feed → Call ι
  | packet b => .push b
  | endOfFile => .endOfFile

/-- No importer is added. -/
lemma Feed.registered?_of_mem_map {ι : Type} (feeds : List Feed) :
    ∀ c ∈ feeds.map (Feed.on ι), c.registered? = none := by
  rintro _ hc
  obtain ⟨f, -, rfl⟩ := List.mem_map.mp hc
  cases f <;> rfl

/-- It is no packet that cannot be read to its end. -/
def Feed.readable : Feed → Bool
  | packet b => Trace.readable b
  | endOfFile => true

section

variable {ι : Type} [Importer ι]

/-- Feeds a session, up to a check that fails or a drain that does not come to an end. -/
def feed (s : Session ι) (feeds : List Feed) : Option (Option FatalCheck × Session ι) :=
  s.run (feeds.map (Feed.on ι))

/-- What a session is fed indeed: all of it, but nothing behind an end of file at which a check
fails or the drain does not come to an end. -/
def made (s : Session ι) : List Feed → List Feed
  | [] => []
  | .packet b :: feeds => .packet b :: (s.push b).made feeds
  | .endOfFile :: feeds =>
    match s.drain with
    | some (none, after) => .endOfFile :: after.made feeds
    | _ => [.endOfFile]

variable {s after : Session ι} {feeds : List Feed} {fatal : Option FatalCheck} {check : FatalCheck}

lemma feed_packet (s : Session ι) (b : Bytes) (feeds : List Feed) :
    s.feed (.packet b :: feeds) = (s.push b).feed feeds := rfl

lemma feed_of_unending (h : s.drain = none) (feeds : List Feed) :
    s.feed (.endOfFile :: feeds) = none := by
  rw [feed, List.map_cons, run, Feed.on, call, h]

lemma feed_of_halted (h : s.drain = some (some check, after)) (feeds : List Feed) :
    s.feed (.endOfFile :: feeds) = some (some check, after) := by
  rw [feed, List.map_cons, run, Feed.on, call, h]

lemma feed_of_drained (h : s.drain = some (none, after)) (feeds : List Feed) :
    s.feed (.endOfFile :: feeds) = after.feed feeds := by
  rw [feed, List.map_cons, run, Feed.on, call, h, feed]

lemma made_of_unending (h : s.drain = none) (feeds : List Feed) :
    s.made (.endOfFile :: feeds) = [.endOfFile] := by
  rw [made, h]

lemma made_of_halted (h : s.drain = some (some check, after)) (feeds : List Feed) :
    s.made (.endOfFile :: feeds) = [.endOfFile] := by
  rw [made, h]

lemma made_of_drained (h : s.drain = some (none, after)) (feeds : List Feed) :
    s.made (.endOfFile :: feeds) = .endOfFile :: after.made feeds := by
  rw [made, h]

/-- Induction along what a session is fed: a packet, or an end of file at which the drain does not
come to an end, or at which a check fails, or at which none does. -/
theorem feeds_induction {P : Session ι → List Feed → Prop} (nil : ∀ s, P s [])
    (packet : ∀ s b feeds, P (push s b) feeds → P s (.packet b :: feeds))
    (unending : ∀ s feeds, drain s = none → P s (.endOfFile :: feeds))
    (halted : ∀ s check after feeds, drain s = some (some check, after) →
      P s (.endOfFile :: feeds))
    (drained : ∀ s after feeds, drain s = some (none, after) → P after feeds →
      P s (.endOfFile :: feeds))
    (s : Session ι) (feeds : List Feed) : P s feeds := by
  induction feeds generalizing s with
  | nil => exact nil s
  | cons f feeds ih =>
      cases f with
      | packet b => exact packet s b feeds (ih (s.push b))
      | endOfFile =>
          cases hdrain : s.drain with
          | none => exact unending s feeds hdrain
          | some ended =>
              obtain ⟨fatal, after⟩ := ended
              cases fatal with
              | some check => exact halted s check after feeds hdrain
              | none => exact drained s after feeds hdrain (ih after)

/-- Unless a check fails, a session is fed everything. -/
lemma made_of_feed (h : s.feed feeds = some (none, after)) : s.made feeds = feeds := by
  induction s, feeds using feeds_induction with
  | nil s => rfl
  | packet s b feeds ih => rw [made, ih h]
  | unending s feeds hdrain =>
      rw [feed_of_unending hdrain] at h
      cases h
  | halted s check last feeds hdrain =>
      rw [feed_of_halted hdrain] at h
      cases h
  | drained s mid feeds hdrain ih =>
      rw [feed_of_drained hdrain] at h
      rw [made_of_drained hdrain, ih h]

/-- What pushing a packet and draining the queue preserve, feeding a session preserves. -/
theorem feed_preserves {P : List Bytes → Session ι → Prop}
    (hpush : ∀ pushed (s : Session ι) b, P pushed s → P (pushed ++ [b]) (s.push b))
    (hdrain : ∀ pushed (s : Session ι) fatal after, s.drain = some (fatal, after) → P pushed s →
      P pushed after)
    {pushed : List Bytes} (h : P pushed s) (hfeed : s.feed feeds = some (fatal, after)) :
    P (pushed ++ Feed.packets (s.made feeds)) after := by
  induction s, feeds using feeds_induction generalizing pushed with
  | nil s =>
      cases hfeed
      rw [made, Feed.packets, List.append_nil]
      exact h
  | packet s b feeds ih =>
      have hrest := ih (hpush pushed s b h) hfeed
      rwa [List.append_assoc, List.singleton_append] at hrest
  | unending s feeds hd =>
      rw [feed_of_unending hd] at hfeed
      cases hfeed
  | halted s check last feeds hd =>
      rw [feed_of_halted hd] at hfeed
      cases hfeed
      rw [made_of_halted hd, Feed.packets, Feed.packets, List.append_nil]
      exact hdrain pushed s _ _ hd h
  | drained s mid feeds hd ih =>
      rw [feed_of_drained hd] at hfeed
      rw [made_of_drained hd]
      exact ih (hdrain pushed s _ _ hd h) hfeed

/-- With importers that leave the queue alone while it is drained, feeding a session comes to an
end. -/
lemma exists_feed (hι : Importer.LeavesQueue ι) (s : Session ι) (feeds : List Feed) :
    ∃ fatal after, s.feed feeds = some (fatal, after) := by
  induction s, feeds using feeds_induction with
  | nil s => exact ⟨none, s, rfl⟩
  | packet s b feeds ih => exact ih
  | unending s feeds hdrain =>
      obtain ⟨fatal, after, hend⟩ := exists_drain hι s
      rw [hdrain] at hend
      cases hend
  | halted s check after feeds hdrain => exact ⟨_, _, feed_of_halted hdrain feeds⟩
  | drained s after feeds hdrain ih =>
      rw [feed_of_drained hdrain]
      exact ih

end

/-! ### Sessions with more of them -/

section

variable {ι : Type}

/-- The session once `n` more malformed packets were pushed. -/
def withMalformed (n : ℕ) (s : Session ι) : Session ι :=
  { s with context := s.context.withMalformed n, packetsSeen := s.packetsSeen + n }

lemma withMalformed_zero (s : Session ι) : s.withMalformed 0 = s := by
  rw [withMalformed, Context.withMalformed, Timeline.withMalformed_zero]
  rfl

lemma withMalformed_add (m n : ℕ) (s : Session ι) :
    (s.withMalformed m).withMalformed n = s.withMalformed (m + n) := by
  simp only [withMalformed, Context.withMalformed, Timeline.withMalformed_add, Nat.add_assoc]

lemma count_withMalformed (n : ℕ) (s : Session ι) (stat : Stat) :
    (s.withMalformed n).count stat = (s.count stat).withMalformed n := by
  simp only [count, withMalformed, Context.withMalformed, Timeline.withMalformed_eq_tally,
    Timeline.count_tally]

lemma entered_withMalformed (n : ℕ) (s : Session ι) (packet : PacketView) :
    (s.withMalformed n).entered packet = (s.entered packet).withMalformed n := by
  have hseen : s.packetsSeen + n + 1 = s.packetsSeen + 1 + n := Nat.add_right_comm _ n 1
  simp only [entered, enterTime, withMalformed, hseen]
  split <;> rfl

end

variable {ι : Type} [Importer ι]

/-- **Pushing a packet that cannot be read** to its end counts it, and changes nothing else. -/
theorem push_of_unreadable {b : Bytes} (h : Trace.readable b = false) (s : Session ι) :
    s.push b = s.withMalformed 1 := by
  have hread := Trace.malformed_decode b
  rw [h] at hread
  rw [push_of_malformed hread]
  rfl

section

variable (hι : Importer.OverlooksMalformed ι) (n : ℕ)
include hι

lemma offered_withMalformed (s : Session ι) (place : ℕ) (i : ι) (o : PacketOffer) :
    (s.withMalformed n).offered place i o = (s.offered place i o).withMalformed n := by
  simp only [offered, withMalformed, hι.tokenize]
  rfl

lemma offer_withMalformed (packet : PacketView) (ts : Int64) (sequence : SequenceHandle)
    (fields : List UInt32) (s : Session ι) :
    (s.withMalformed n).offer packet ts sequence fields =
      (s.offer packet ts sequence fields).withMalformed n := by
  induction fields generalizing s with
  | nil => exact count_withMalformed n s _
  | cons field fields ih =>
      have hverdict : ∀ (i : ι) o, (Importer.tokenize i (s.withMalformed n).context o).1 =
          (Importer.tokenize i s.context o).1 := by
        intro i o
        rw [withMalformed, hι.tokenize]
        rfl
      cases howner : s.owner? field with
      | none =>
          have howner' : (s.withMalformed n).owner? field = none := howner
          rw [offer_of_no_owner howner, offer_of_no_owner howner', ih]
      | some found =>
          obtain ⟨place, i⟩ := found
          have howner' : (s.withMalformed n).owner? field = some (place, i) := howner
          cases hv : (Importer.tokenize i s.context ⟨packet, ts, sequence, field⟩).1 with
          | handled =>
              rw [offer_of_handled howner hv, offer_of_handled howner' ((hverdict _ _).trans hv),
                offered_withMalformed hι]
          | ignored =>
              rw [offer_of_ignored howner hv, offer_of_ignored howner' ((hverdict _ _).trans hv),
                offered_withMalformed hι, ih]

/-- Pushing a packet does the same after malformed ones were pushed. -/
lemma push_withMalformed (s : Session ι) (b : Bytes) :
    (s.withMalformed n).push b = (s.push b).withMalformed n := by
  have hread := Trace.malformed_decode b
  cases hgood : Trace.readable b with
  | false =>
      rw [push_of_unreadable hgood, push_of_unreadable hgood, withMalformed_add, withMalformed_add,
        Nat.add_comm]
  | true =>
      rw [hgood] at hread
      rw [push_of_readable hread, push_of_readable hread, entered_withMalformed,
        offer_withMalformed hι]
      congr 1
      simp only [enterTime]
      split <;> rfl

lemma parse_withMalformed (s : Session ι) (p : TimedPacket) :
    (s.withMalformed n).parse p = Prod.map id (withMalformed n) (s.parse p) := by
  cases hr : s.recipient? (PacketView.decode p.blob) with
  | none =>
      have hr' : (s.withMalformed n).recipient? (PacketView.decode p.blob) = none := hr
      rw [parse_of_no_recipient hr, parse_of_no_recipient hr']
      rfl
  | some found =>
      obtain ⟨⟨place, i⟩, field⟩ := found
      have hr' : (s.withMalformed n).recipient? (PacketView.decode p.blob) =
        some ((place, i), field) := hr
      rw [parse_of_recipient hr, parse_of_recipient hr']
      simp only [handed, withMalformed, hι.parse]
      rfl

/-- Draining the queue does the same after malformed packets were pushed. -/
lemma drain_withMalformed (s : Session ι) :
    (s.withMalformed n).drain = s.drain.map (Prod.map id (withMalformed n)) :=
  drain_map (f := withMalformed n) (fun _ => rfl)
    (fun s p sorter => parse_withMalformed hι n (s.withSorter sorter) p) s

/-- Feeding a session does the same after malformed packets were pushed. -/
lemma feed_withMalformed (s : Session ι) (feeds : List Feed) :
    (s.withMalformed n).feed feeds = (s.feed feeds).map (Prod.map id (withMalformed n)) := by
  induction s, feeds using feeds_induction with
  | nil s => rfl
  | packet s b feeds ih => rw [feed_packet, feed_packet, push_withMalformed hι, ih]
  | unending s feeds hdrain =>
      have hdrain' := drain_withMalformed hι n s
      rw [hdrain] at hdrain'
      rw [feed_of_unending hdrain, feed_of_unending hdrain']
      rfl
  | halted s check after feeds hdrain =>
      have hdrain' := drain_withMalformed hι n s
      rw [hdrain] at hdrain'
      rw [feed_of_halted hdrain, feed_of_halted hdrain']
      rfl
  | drained s after feeds hdrain ih =>
      have hdrain' := drain_withMalformed hι n s
      rw [hdrain] at hdrain'
      rw [feed_of_drained hdrain, feed_of_drained hdrain', ih]

omit n in
/-- **Packets that cannot be read may be left out.** A session that is not fed them ends in the same
way and is the same in the end, but for their counts. -/
theorem feed_without_unreadable (s : Session ι) (feeds : List Feed) :
    s.feed feeds = (s.feed (feeds.filter Feed.readable)).map
      (Prod.map id (withMalformed (Trace.malformedCount (Feed.packets (s.made feeds))))) := by
  have hend : ∀ feeds, (Feed.endOfFile :: feeds).filter Feed.readable =
      .endOfFile :: feeds.filter Feed.readable := fun _ => List.filter_cons_of_pos rfl
  induction s, feeds using feeds_induction with
  | nil s => exact congrArg some (Prod.ext rfl (withMalformed_zero s).symm)
  | packet s b feeds ih =>
      rw [feed_packet, ih, made, Feed.packets, Trace.malformedCount, Trace.malformedCount,
        List.countP_cons]
      cases hgood : Trace.readable b with
      | true =>
          have hkept : Feed.readable (.packet b) = true := hgood
          rw [List.filter_cons_of_pos hkept, feed_packet]
          rfl
      | false =>
          have hleft : ¬ Feed.readable (.packet b) = true := by simp [Feed.readable, hgood]
          rw [List.filter_cons_of_neg hleft, push_of_unreadable hgood, feed_withMalformed hι,
            Option.map_map]
          congr 1
          funext ended
          refine Prod.ext rfl ((withMalformed_add 1 _ _).trans ?_)
          rw [Nat.add_comm]
          rfl
  | unending s feeds hdrain =>
      rw [hend, feed_of_unending hdrain, feed_of_unending hdrain]
      rfl
  | halted s check after feeds hdrain =>
      rw [hend, feed_of_halted hdrain, feed_of_halted hdrain, made_of_halted hdrain]
      exact congrArg some (Prod.ext rfl (withMalformed_zero after).symm)
  | drained s after feeds hdrain ih =>
      rw [hend, feed_of_drained hdrain, feed_of_drained hdrain, made_of_drained hdrain, ih,
        Feed.packets]

end

end Session

end AtomTimeline
