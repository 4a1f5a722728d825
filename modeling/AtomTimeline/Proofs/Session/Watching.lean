import AtomTimeline.Proofs.Session.Registering
import AtomTimeline.Proofs.Sorter.StableOrder

/-!
Sessions with importers that keep a record of what the session asks of them.

* `Watched` is an importer with such a record. `Session.forget_push` and `Session.forget_drain`:
  watching changes nothing of what a session does.
* `Session.destination?` is where a packet is handed back; it does not change while the queue is
  drained. `Session.shareOf` is what an importer is handed of a packet.
* `Session.subperm_dues_drain`: what an importer was handed and its shares of the packets that wait
  are together never less than before, also if importers queue packets while the queue is drained.
-/

namespace AtomTimeline

/-- An importer with a record of the packets that it was offered and that it was handed back. -/
structure Watched (ι : Type) where
  importer : ι
  offers : List PacketOffer
  handed : List SortedPacket

/-- An importer with an empty record. -/
def Watched.fresh {ι : Type} (i : ι) : Watched ι := ⟨i, [], []⟩

instance {ι : Type} [Importer ι] : Importer (Watched ι) where
  fields w := Importer.fields w.importer
  tokenize w context offer :=
    let (verdict, importer, context) := Importer.tokenize w.importer context offer
    (verdict, { w with importer, offers := w.offers ++ [offer] }, context)
  parse w context sorted :=
    let (fatal, importer, context) := Importer.parse w.importer context sorted
    (fatal, { w with importer, handed := w.handed ++ [sorted] }, context)

lemma Importer.LeavesQueue.watched {ι : Type} [Importer ι] (hι : LeavesQueue ι) :
    LeavesQueue (Watched ι) := fun w context sorted => hι w.importer context sorted

lemma Importer.OnlyQueues.watched {ι : Type} [Importer ι] (hι : OnlyQueues ι) :
    OnlyQueues (Watched ι) where
  tokenize w context offer := hι.tokenize w.importer context offer
  parse w context sorted := hι.parse w.importer context sorted

namespace Session

section

variable {ι : Type}

/-- The session without the records. -/
def forget (s : Session (Watched ι)) : Session ι :=
  ⟨s.context, s.importers.map Watched.importer, s.owners, s.latestTimestamp, s.generations,
    s.packetsSeen⟩

/-- The packets that the importer in a place was offered. -/
def offeredTo (s : Session (Watched ι)) (place : ℕ) : List PacketOffer :=
  (s.importers[place]?.map Watched.offers).getD []

/-- The packets that the importer in a place was handed back. -/
def handedTo (s : Session (Watched ι)) (place : ℕ) : List SortedPacket :=
  (s.importers[place]?.map Watched.handed).getD []

/-- A record once the importer in a place was replaced. -/
lemma record_of_replaced {α : Type} (record : Watched ι → List α)
    {importers : Array (Watched ι)} {found : ℕ} {w : Watched ι} (h : importers[found]? = some w)
    (next : Watched ι) (place : ℕ) :
    ((importers.setIfInBounds found next)[place]?.map record).getD [] =
      if found = place then record next else (importers[place]?.map record).getD [] := by
  have hlt := (Array.getElem?_eq_some_iff.mp h).1
  rw [Array.getElem?_setIfInBounds]
  by_cases hplace : found = place
  · rw [if_pos hplace, if_pos (hplace ▸ hlt), if_pos hplace]
    rfl
  · rw [if_neg hplace, if_neg hplace]

lemma owner?_forget (s : Session (Watched ι)) (field : UInt32) :
    s.forget.owner? field = (s.owner? field).map fun o => (o.1, o.2.importer) := by
  rw [owner?, owner?, forget]
  cases s.owners[field]? with
  | none => rfl
  | some place =>
      simp only [Array.getElem?_map]
      cases s.importers[place]? <;> rfl

lemma placeOf?_forget (s : Session (Watched ι)) (field : UInt32) :
    s.forget.placeOf? field = s.placeOf? field := by
  rw [placeOf?, owner?_forget, Option.map_map, placeOf?]
  rfl

lemma forget_entered (s : Session (Watched ι)) (packet : PacketView) :
    (s.entered packet).forget = s.forget.entered packet := by
  simp only [entered, enterTime]
  split <;> rfl

lemma recipient?_forget (s : Session (Watched ι)) (packet : PacketView) :
    s.forget.recipient? packet =
      (s.recipient? packet).map fun r => ((r.1.1, r.1.2.importer), r.2) := by
  rw [recipient?, recipient?, List.map_findSome?]
  congr 1
  funext field
  rw [owner?_forget, Function.comp_apply, Option.map_map, Option.map_map]
  rfl

/-! ### Where a packet is handed back -/

lemma getElem?_of_recipient? {s : Session ι} {packet : PacketView} {field : UInt32} {place : ℕ}
    {i : ι} (h : s.recipient? packet = some ((place, i), field)) :
    s.importers[place]? = some i := by
  obtain ⟨found, -, howner⟩ := List.exists_of_findSome?_eq_some h
  obtain ⟨o, ho, heq⟩ := Option.map_eq_some_iff.mp howner
  cases heq
  exact getElem?_of_owner? ho

/-- The place of the owner of the first of a packet's fields that has one, and that field. -/
def destination? (s : Session ι) (packet : PacketView) : Option (ℕ × UInt32) :=
  (s.recipient? packet).map fun r => (r.1.1, r.2)

lemma destination?_eq (s : Session ι) (packet : PacketView) :
    s.destination? packet = packet.fieldIds.findSome? fun field =>
      (s.placeOf? field).map fun place => (place, field) := by
  rw [destination?, recipient?, List.map_findSome?]
  congr 1
  funext field
  rw [Function.comp_apply, placeOf?, Option.map_map, Option.map_map]
  rfl

/-- What the importer in a place is handed of one queued packet. -/
def shareOf (s : Session ι) (place : ℕ) (p : TimedPacket) : List SortedPacket :=
  match s.destination? (PacketView.decode p.blob) with
  | some (found, field) => if found = place then [p.handedFor field] else []
  | none => []

lemma shareOf_of_recipient {s : Session ι} {p : TimedPacket} {found : ℕ} {i : ι} {field : UInt32}
    (h : s.recipient? (PacketView.decode p.blob) = some ((found, i), field)) (place : ℕ) :
    s.shareOf place p = if found = place then [p.handedFor field] else [] := by
  simp only [shareOf, destination?, h, Option.map_some]

end

variable {ι : Type} [Importer ι]

/-! ### Watching changes nothing -/

lemma forget_register (s : Session (Watched ι)) (warns : Bool) (w : Watched ι) :
    s.forget.register warns w.importer = Prod.map id forget (s.register warns w) := by
  have hclaim : claim warns s.forget.importers.size (Importer.fields w.importer) s.forget.owners =
      claim warns s.importers.size (Importer.fields w) s.owners := by
    rw [forget, Array.size_map]
    rfl
  rw [register, register, hclaim]
  split
  · rfl
  · simp only [Prod.map_apply, id_eq, forget, Array.map_push]

lemma forget_ofImporters (is : List ι) :
    (ofImporters (is.map Watched.fresh)).forget = ofImporters is := by
  have key : ∀ s : Session (Watched ι),
      ((is.map Watched.fresh).foldl (fun s w => (s.register false w).2) s).forget =
        is.foldl (fun s i => (s.register false i).2) s.forget := by
    induction is with
    | nil => exact fun _ => rfl
    | cons i is ih =>
        intro s
        have hone := congrArg Prod.snd (forget_register s false (.fresh i))
        rw [List.map_cons, List.foldl_cons, ih]
        exact congrArg (is.foldl fun s i => (s.register false i).2) hone.symm
  have hinitial : (initial : Session (Watched ι)).forget = initial := by simp [forget, initial]
  rw [ofImporters, key, hinitial, ofImporters]

/-- At first nothing was offered and nothing handed back. -/
lemma records_ofImporters (is : List ι) (place : ℕ) :
    (ofImporters (is.map Watched.fresh)).offeredTo place = [] ∧
      (ofImporters (is.map Watched.fresh)).handedTo place = [] := by
  rw [offeredTo, handedTo, importers_ofImporters]
  simp only [List.getElem?_toArray, List.getElem?_map]
  cases is[place]? <;> exact ⟨rfl, rfl⟩

lemma forget_offered (s : Session (Watched ι)) (place : ℕ) (w : Watched ι) (o : PacketOffer) :
    (s.offered place w o).forget = s.forget.offered place w.importer o := by
  simp only [offered, forget, Array.map_setIfInBounds]
  rfl

lemma forget_handed (s : Session (Watched ι)) (place : ℕ) (w : Watched ι) (sorted : SortedPacket) :
    (s.handed place w sorted).forget = s.forget.handed place w.importer sorted := by
  simp only [handed, forget, Array.map_setIfInBounds]
  rfl

lemma forget_offer (packet : PacketView) (ts : Int64) (sequence : SequenceHandle)
    (fields : List UInt32) (s : Session (Watched ι)) :
    (s.offer packet ts sequence fields).forget = s.forget.offer packet ts sequence fields := by
  induction fields generalizing s with
  | nil => rfl
  | cons field fields ih =>
      have hforget := owner?_forget s field
      cases howner : s.owner? field with
      | none =>
          rw [howner, Option.map_none] at hforget
          rw [offer_of_no_owner howner, offer_of_no_owner hforget, ih]
      | some found =>
          obtain ⟨place, w⟩ := found
          rw [howner, Option.map_some] at hforget
          cases hverdict :
              (Importer.tokenize w s.context ⟨packet, ts, sequence, field⟩).1 with
          | handled =>
              rw [offer_of_handled howner hverdict, offer_of_handled hforget hverdict,
                forget_offered]
          | ignored =>
              rw [offer_of_ignored howner hverdict, offer_of_ignored hforget hverdict, ih,
                forget_offered]

/-- **Watching changes nothing** of what becomes of a packet. -/
theorem forget_push (s : Session (Watched ι)) (b : Bytes) :
    (s.push b).forget = s.forget.push b := by
  cases hread : (PacketView.decode b).malformed with
  | true =>
      rw [push_of_malformed hread, push_of_malformed hread]
      rfl
  | false =>
      rw [push_of_readable hread, push_of_readable hread, forget_offer, forget_entered]
      congr 1
      simp only [enterTime]
      split <;> rfl

lemma forget_foldl_push (s : Session (Watched ι)) (packets : List Bytes) :
    (packets.foldl push s).forget = packets.foldl push s.forget := by
  induction packets generalizing s with
  | nil => rfl
  | cons b packets ih => rw [List.foldl_cons, ih, forget_push, List.foldl_cons]

lemma forget_parse (s : Session (Watched ι)) (p : TimedPacket) :
    s.forget.parse p = Prod.map id forget (s.parse p) := by
  have hforget := recipient?_forget s (PacketView.decode p.blob)
  cases hr : s.recipient? (PacketView.decode p.blob) with
  | none =>
      rw [hr, Option.map_none] at hforget
      rw [parse_of_no_recipient hr, parse_of_no_recipient hforget]
      rfl
  | some found =>
      obtain ⟨⟨place, w⟩, field⟩ := found
      rw [hr, Option.map_some] at hforget
      rw [parse_of_recipient hr, parse_of_recipient hforget, Prod.map_apply, forget_handed]
      rfl

/-- **Watching changes nothing** of what becomes of the queue, nor of whether draining it comes to
an end. -/
theorem forget_drain (s : Session (Watched ι)) :
    s.forget.drain = s.drain.map (Prod.map id forget) :=
  drain_map (f := forget) (fun _ => rfl) (fun s p sorter => forget_parse (s.withSorter sorter) p) s

/-! ### What is handed back -/

lemma destination?_handed (s : Session ι) (place : ℕ) (i : ι) (sorted : SortedPacket)
    (packet : PacketView) :
    (s.handed place i sorted).destination? packet = s.destination? packet := by
  rw [destination?_eq, destination?_eq, placeOf?_handed]

/-- Where packets are handed back does not change while the queue is drained. -/
lemma shareOf_parse (s : Session ι) (p : TimedPacket) (place : ℕ) :
    (s.parse p).2.shareOf place = s.shareOf place := by
  refine parse_induction (P := fun after => after.shareOf place = s.shareOf place) ?_ s rfl p
  rintro after q found i field - hafter
  rw [← hafter]
  funext r
  rw [shareOf, shareOf, destination?_handed]

/-- The importer in a place gets its share of a packet. -/
lemma handedTo_parse (s : Session (Watched ι)) (p : TimedPacket) (place : ℕ) :
    (s.parse p).2.handedTo place = s.handedTo place ++ s.shareOf place p := by
  cases hr : s.recipient? (PacketView.decode p.blob) with
  | none =>
      rw [parse_of_no_recipient hr, shareOf, destination?, hr]
      simp
  | some found =>
      obtain ⟨⟨found, w⟩, field⟩ := found
      have hat := getElem?_of_recipient? hr
      rw [parse_of_recipient hr, shareOf_of_recipient hr, handedTo, handed,
        record_of_replaced _ hat]
      by_cases hplace : found = place
      · subst hplace
        rw [if_pos rfl, if_pos rfl, handedTo, hat]
        rfl
      · rw [if_neg hplace, if_neg hplace, List.append_nil, handedTo]

/-- What the importer in a place was handed, and its shares of the packets that wait. -/
def dues (s : Session (Watched ι)) (place : ℕ) : List SortedPacket :=
  s.handedTo place ++ s.context.sorter.queue.flatMap (s.shareOf place)

/-- Handing back the packet that comes first takes nothing from what an importer is due. -/
lemma subperm_dues_parse (hι : Importer.OnlyQueues ι) {s : Session (Watched ι)} {p : TimedPacket}
    {sorter : Sorter} (hpop : s.context.sorter.pop? = some (p, sorter)) (place : ℕ) :
    (s.dues place).Subperm (((s.withSorter sorter).parse p).2.dues place) := by
  have hhanded : ((s.withSorter sorter).parse p).2.handedTo place =
      s.handedTo place ++ s.shareOf place p := handedTo_parse (s.withSorter sorter) p place
  have hshare : ((s.withSorter sorter).parse p).2.shareOf place = s.shareOf place :=
    shareOf_parse (s.withSorter sorter) p place
  have hqueued : ∃ ps : List TimedPacket,
      ((s.withSorter sorter).parse p).2.context.sorter = ps.foldl Sorter.push sorter := by
    cases hr : (s.withSorter sorter).recipient? (PacketView.decode p.blob) with
    | none =>
        rw [parse_of_no_recipient hr]
        exact ⟨[], rfl⟩
    | some found =>
        obtain ⟨⟨found, w⟩, field⟩ := found
        rw [parse_of_recipient hr]
        exact hι.watched.parse w (s.withSorter sorter).context (p.handedFor field)
  obtain ⟨ps, hsorter⟩ := hqueued
  have hperm := (Sorter.queue_foldl_push_perm ps sorter).flatMap_right (s.shareOf place)
  rw [List.flatMap_append] at hperm
  rw [dues, dues, hhanded, hshare, hsorter, Sorter.queue_of_pop? hpop, List.flatMap_cons,
    ← List.append_assoc, List.subperm_append_left]
  exact (List.sublist_append_left _ _).subperm.trans hperm.symm.subperm

/-- **Nobody loses what is due**: in the end an importer was handed, or has its shares of what still
waits, all that it was due before the queue was drained. -/
theorem subperm_dues_drain (hι : Importer.OnlyQueues ι) {s after : Session (Watched ι)}
    {fatal : Option FatalCheck} (h : s.drain = some (fatal, after)) (place : ℕ) :
    (s.dues place).Subperm (after.dues place) := by
  have hstep : ∀ (s : Session (Watched ι)) p sorter fatal mid,
      s.context.sorter.pop? = some (p, sorter) → (s.withSorter sorter).parse p = (fatal, mid) →
        (s.dues place).Subperm (mid.dues place) := by
    intro s p sorter fatal mid hpop hparse
    have hdues := subperm_dues_parse hι hpop place
    rwa [hparse] at hdues
  refine drain_induction (P := fun s _ after => (s.dues place).Subperm (after.dues place))
    (fun _ _ => List.Subperm.refl _) ?_ ?_ h
  · exact fun s p sorter check after hpop hparse => hstep s p sorter _ _ hpop hparse
  · exact fun s p sorter mid _ _ hpop hparse ih => (hstep s p sorter _ _ hpop hparse).trans ih

/-- What the importer in a place was handed was to go there. -/
def HandedRightly (s : Session (Watched ι)) (place : ℕ) : Prop :=
  ∀ sorted ∈ s.handedTo place, s.destination? sorted.packet = some (place, sorted.field)

lemma HandedRightly.drain {s after : Session (Watched ι)} {place : ℕ} {fatal : Option FatalCheck}
    (hs : s.HandedRightly place) (h : s.drain = some (fatal, after)) :
    after.HandedRightly place := by
  refine drain_preserves (P := fun s => s.HandedRightly place) (fun _ _ _ _ hs => hs) ?_ h hs
  intro s p found w field hr hs sorted hsorted
  have hhanded := handedTo_parse s p place
  have hdest := destination?_handed s found w (p.handedFor field) sorted.packet
  rw [parse_of_recipient hr, shareOf_of_recipient hr] at hhanded
  rw [hhanded, List.mem_append] at hsorted
  rw [hdest]
  rcases hsorted with hold | hnew
  · exact hs sorted hold
  · split at hnew
    · next hplace =>
      rw [List.mem_singleton.mp hnew, TimedPacket.handedFor, destination?, hr, ← hplace]
      rfl
    · cases hnew

/-- Draining the queue offers no packet. -/
lemma offeredTo_drain {s after : Session (Watched ι)} {fatal : Option FatalCheck}
    (h : s.drain = some (fatal, after)) (place : ℕ) :
    after.offeredTo place = s.offeredTo place := by
  refine drain_preserves (P := fun after => after.offeredTo place = s.offeredTo place)
    (fun _ _ _ _ hs => hs) ?_ h rfl
  intro after p found w field hr hafter
  have hat := getElem?_of_recipient? hr
  rw [← hafter, offeredTo, handed, record_of_replaced _ hat]
  by_cases hplace : found = place
  · subst hplace
    rw [if_pos rfl, offeredTo, hat]
    rfl
  · rw [if_neg hplace, offeredTo]

/-- The importer in a place remembers what it is offered. -/
lemma offeredTo_offered {s : Session (Watched ι)} {found : ℕ} {w : Watched ι}
    (h : s.importers[found]? = some w) (o : PacketOffer) (place : ℕ) :
    (s.offered found w o).offeredTo place =
      s.offeredTo place ++ if found = place then [o] else [] := by
  rw [offeredTo, offered, record_of_replaced _ h]
  by_cases hplace : found = place
  · subst hplace
    rw [if_pos rfl, if_pos rfl, offeredTo, h]
    rfl
  · rw [if_neg hplace, if_neg hplace, List.append_nil, offeredTo]

end Session

end AtomTimeline
