import AtomTimeline.Proofs.Session.AtomQueue
import AtomTimeline.Proofs.Session.Watching

/-!
Whether the packets that an importer of atoms queues come back to it.

* `Session.tokensOf` are the packets of one atom that an importer queued, read off what it was
  offered. `Session.Keeps` is the invariant of pushing: they all wait.
* `Session.tokens_handed_back_iff`: they come back to it if and only if no importer owns the field
  of timestamps. Otherwise they go to the owner of that field: a packet of one atom has its
  timestamp in front of the batch, and goes to the owner of the first field that has one.
* `Bystander` is an importer that owns fields and leaves every packet alone. Owning the field of
  timestamps, it takes all atoms away.
-/

namespace AtomTimeline

lemma AtomImporter.onlyQueues : Importer.OnlyQueues AtomImporter where
  tokenize _ context offer := ⟨tokens offer, sorter_tokenize context offer⟩
  parse _ _ _ := ⟨[], rfl⟩

namespace Session

variable {κ : Type} [Importer κ] {s : Session (Watched (AtomImporter ⊕ κ))} {place : ℕ}

/-- The packets of one atom that the importer in a place queued. -/
def tokensOf (s : Session (Watched (AtomImporter ⊕ κ))) (place : ℕ) : List TimedPacket :=
  (s.offeredTo place).flatMap AtomImporter.tokens

/-- The importer in this place is one of atoms. What it queued waits, and is made of packets that
were read. Nothing was handed back. -/
structure Keeps (s : Session (Watched (AtomImporter ⊕ κ))) (place : ℕ) : Prop where
  importer : ∃ i offers, s.importers[place]? = some ⟨.inl i, offers, []⟩
  tokens : (s.tokensOf place).Subperm s.context.sorter.queue
  holds : ∀ p ∈ s.tokensOf place, ∃ payload, p.HoldsAtom payload

/-- Being offered a packet, the importer queues the atoms in it; the others take none out. -/
lemma Keeps.offered (hκ : Importer.OnlyQueues κ) (h : s.Keeps place) {o : PacketOffer} {b : Bytes}
    (ho : o.packet = PacketView.decode b) {found : ℕ} {w : Watched (AtomImporter ⊕ κ)}
    (howner : s.owner? o.field = some (found, w)) : (s.offered found w o).Keeps place := by
  obtain ⟨i, offers, hi⟩ := h.importer
  have hat := getElem?_of_owner? howner
  have hlt := (Array.getElem?_eq_some_iff.mp hat).1
  by_cases hplace : found = place
  · subst hplace
    obtain rfl : w = ⟨.inl i, offers, []⟩ := by simpa [hat] using hi
    have htokens : (s.offered found ⟨.inl i, offers, []⟩ o).tokensOf found =
        s.tokensOf found ++ AtomImporter.tokens o := by
      rw [tokensOf, offeredTo_offered hat, if_pos rfl, List.flatMap_append, List.flatMap_singleton]
      rfl
    have hsorter : (s.offered found ⟨.inl i, offers, []⟩ o).context.sorter =
        (AtomImporter.tokens o).foldl Sorter.push s.context.sorter :=
      AtomImporter.sorter_tokenize s.context o
    refine ⟨⟨i, offers ++ [o], ?_⟩, ?_, ?_⟩
    · simp only [Session.offered, Array.getElem?_setIfInBounds, if_pos hlt]
      rfl
    · rw [htokens, hsorter]
      exact ((List.subperm_append_right _).mpr h.tokens).trans
        (Sorter.queue_foldl_push_perm _ _).symm.subperm
    · intro p hp
      rw [htokens, List.mem_append] at hp
      exact hp.elim (h.holds p) (AtomImporter.holdsAtom_of_mem_tokens ho)
  · have htokens : (s.offered found w o).tokensOf place = s.tokensOf place := by
      rw [tokensOf, offeredTo_offered hat, if_neg hplace, List.append_nil]
      rfl
    obtain ⟨ps, hsorter⟩ := (AtomImporter.onlyQueues.sum hκ).watched.tokenize w s.context o
    refine ⟨⟨i, offers, ?_⟩, ?_, ?_⟩
    · rw [Session.offered, Array.getElem?_setIfInBounds, if_neg hplace]
      exact hi
    · rw [htokens, Session.offered, hsorter]
      exact (h.tokens.trans (List.sublist_append_left _ ps).subperm).trans
        (Sorter.queue_foldl_push_perm _ _).symm.subperm
    · rw [htokens]
      exact h.holds

/-- What the importer queued waits, whatever packets are pushed. -/
lemma Keeps.foldl_push (hκ : Importer.OnlyQueues κ) (h : s.Keeps place) (packets : List Bytes) :
    (packets.foldl push s).Keeps place := by
  refine foldl_push_induction (P := fun s => s.Keeps place) (fun s b h => ?_) packets s h
  refine push_induction (P := fun s => s.Keeps place)
    (fun _ _ _ h => ⟨h.importer, h.tokens, h.holds⟩) ?_ ?_ s h b
  · intro s packet h
    have htokens : (s.entered packet).tokensOf place = s.tokensOf place := by
      rw [tokensOf, offeredTo, importers_entered, ← offeredTo, ← tokensOf]
    refine ⟨?_, ?_, ?_⟩
    · rw [importers_entered]
      exact h.importer
    · rw [htokens, context_entered]
      exact h.tokens
    · rw [htokens]
      exact h.holds
  · intro s o b found w ho howner h
    exact h.offered hκ ho howner

lemma keeps_ofImporters {is : List (AtomImporter ⊕ κ)} {i : AtomImporter}
    (h : (ofImporters is).owner? PacketField.statsdAtom = some (place, .inl i)) :
    (ofImporters (is.map Watched.fresh)).Keeps place := by
  have htokens : (ofImporters (is.map Watched.fresh)).tokensOf place = [] := by
    rw [tokensOf, (records_ofImporters is place).1, List.flatMap_nil]
  have hat := getElem?_of_owner? h
  rw [importers_ofImporters] at hat
  refine ⟨⟨i, [], ?_⟩, ?_, ?_⟩
  · rw [importers_ofImporters]
    simp only [List.getElem?_toArray, List.getElem?_map] at hat ⊢
    rw [hat]
    rfl
  · rw [htokens]
    exact List.nil_subperm
  · intro p hp
    rw [htokens] at hp
    cases hp

/-! ### Draining the queue -/

lemma tokensOf_drain {after : Session (Watched (AtomImporter ⊕ κ))} {fatal : Option FatalCheck}
    (h : s.drain = some (fatal, after)) (place : ℕ) : after.tokensOf place = s.tokensOf place := by
  rw [tokensOf, offeredTo_drain h, tokensOf]

/-- Each packet of one atom goes to the owner of the field of timestamps, or else to the owner of
the field of batches. -/
lemma destination?_of_holdsAtom {ι : Type} [Importer ι] (s : Session ι) {p : TimedPacket}
    {payload : Bytes} (h : p.HoldsAtom payload) :
    s.destination? (PacketView.decode p.blob) =
      ((s.placeOf? PacketField.timestamp).map fun place => (place, PacketField.timestamp)).or
        ((s.placeOf? PacketField.statsdAtom).map fun place => (place, PacketField.statsdAtom)) := by
  rw [destination?_eq, h.fieldIds_eq, List.findSome?_cons, List.findSome?_singleton]
  cases s.placeOf? PacketField.timestamp <;> rfl

/-- For one field, an importer gets no more of packets than these packets. -/
lemma filter_flatMap_shareOf_sublist {ι : Type} [Importer ι] (s : Session ι) (place : ℕ)
    (queue : List TimedPacket) (field : UInt32) :
    ((queue.flatMap (s.shareOf place)).filter fun sorted => sorted.field = field).Sublist
      (queue.map (·.handedFor field)) := by
  rw [List.filter_flatMap, List.map_eq_flatMap]
  refine List.Sublist.flatMap_right queue fun p _ => ?_
  rw [shareOf]
  split
  · next found other hdest =>
    split
    · by_cases hfield : other = field
      · subst hfield
        exact List.filter_sublist
      · simp [TimedPacket.handedFor, hfield]
    · exact List.nil_sublist _
  · exact List.nil_sublist _

/-- An importer whose share of each of some queued packets is that packet was handed all of them
that do not wait still. -/
lemma subperm_handedTo_drain {ι : Type} [Importer ι] (hι : Importer.OnlyQueues ι)
    {s after : Session (Watched ι)} {fatal : Option FatalCheck}
    (h : s.drain = some (fatal, after)) {ps : List TimedPacket}
    (hps : ps.Subperm s.context.sorter.queue) {place : ℕ} {field : UInt32}
    (hshare : ∀ p ∈ ps, s.shareOf place p = [p.handedFor field]) :
    (ps.map (·.handedFor field)).Subperm
      (after.handedTo place ++ after.context.sorter.queue.map (·.handedFor field)) := by
  have hmap : ps.map (·.handedFor field) = ps.flatMap (s.shareOf place) := by
    rw [List.map_eq_flatMap]
    exact List.flatMap_congr fun p hp => (hshare p hp).symm
  have hdue : (ps.map (·.handedFor field)).Subperm (after.dues place) := by
    obtain ⟨front, hperm, hsub⟩ := hps
    have hqueued : (ps.flatMap (s.shareOf place)).Subperm
        (s.context.sorter.queue.flatMap (s.shareOf place)) :=
      ⟨_, hperm.flatMap_right _, hsub.flatMap _⟩
    rw [hmap]
    exact (hqueued.trans (List.sublist_append_right _ _).subperm).trans
      (subperm_dues_drain hι h place)
  -- of what the importer is due, only what is for this field can be one of the packets
  have hfield : (ps.map (·.handedFor field)).filter (fun sorted => sorted.field = field) =
      ps.map (·.handedFor field) := by
    refine List.filter_eq_self.mpr fun sorted hsorted => ?_
    obtain ⟨p, -, rfl⟩ := List.mem_map.mp hsorted
    exact decide_eq_true rfl
  have hfiltered := hdue.filter fun sorted => sorted.field = field
  rw [hfield, dues, List.filter_append] at hfiltered
  refine hfiltered.trans (List.Sublist.subperm ?_)
  exact List.filter_sublist.append (filter_flatMap_shareOf_sublist after place _ field)

section

variable {after : Session (Watched (AtomImporter ⊕ κ))} {fatal : Option FatalCheck}
  (hκ : Importer.OnlyQueues κ) (h : s.Keeps place)

include h in
lemma Keeps.destination? {other : ℕ} (htime : s.placeOf? PacketField.timestamp = some other)
    {p : TimedPacket} (hp : p ∈ s.tokensOf place) :
    s.destination? (PacketView.decode p.blob) = some (other, PacketField.timestamp) := by
  obtain ⟨payload, hholds⟩ := h.holds p hp
  rw [destination?_of_holdsAtom s hholds, htime]
  rfl

include hκ h in
/-- With no owner of timestamps, what the importer queued comes back to it. -/
lemma Keeps.handed_back (hdrain : s.drain = some (fatal, after))
    (htime : s.placeOf? PacketField.timestamp = none)
    (hstatsd : s.placeOf? PacketField.statsdAtom = some place) :
    ((s.tokensOf place).map (·.handedFor PacketField.statsdAtom)).Subperm
      (after.handedTo place ++
        after.context.sorter.queue.map (·.handedFor PacketField.statsdAtom)) := by
  refine subperm_handedTo_drain (AtomImporter.onlyQueues.sum hκ) hdrain h.tokens fun p hp => ?_
  obtain ⟨payload, hholds⟩ := h.holds p hp
  rw [shareOf, destination?_of_holdsAtom s hholds, htime, hstatsd]
  simp

include hκ h in
/-- An owner of timestamps is handed what the importer queued. -/
lemma Keeps.handed_away (hdrain : s.drain = some (fatal, after)) {other : ℕ}
    (htime : s.placeOf? PacketField.timestamp = some other) :
    ((s.tokensOf place).map (·.handedFor PacketField.timestamp)).Subperm
      (after.handedTo other ++
        after.context.sorter.queue.map (·.handedFor PacketField.timestamp)) := by
  refine subperm_handedTo_drain (AtomImporter.onlyQueues.sum hκ) hdrain h.tokens fun p hp => ?_
  rw [shareOf, h.destination? htime hp]
  simp

include h in
/-- Beside an owner of timestamps, none of what the importer queued comes back to it. -/
lemma Keeps.not_handed_back (hdrain : s.drain = some (fatal, after)) {other : ℕ}
    (htime : s.placeOf? PacketField.timestamp = some other) {p : TimedPacket}
    (hp : p ∈ s.tokensOf place) :
    p.handedFor PacketField.statsdAtom ∉ after.handedTo place := by
  intro hmem
  obtain ⟨i, offers, hi⟩ := h.importer
  have hnone : s.handedTo place = [] := by
    rw [handedTo, hi]
    rfl
  have hrightly : s.HandedRightly place := by
    intro sorted hsorted
    rw [hnone] at hsorted
    cases hsorted
  have hdest := hrightly.drain hdrain _ hmem
  rw [destination?_eq, placeOf?_drain hdrain, ← destination?_eq, TimedPacket.handedFor,
    h.destination? htime hp] at hdest
  simp [PacketField.statsdAtom, PacketField.timestamp] at hdest

end

/-- **Whether atoms come back.** Take importers that put packets into the queue and take none out,
neither when a packet is offered nor when one is handed back. Watching them changes nothing, and
draining the queue comes to an end at least if the others queue nothing then. Suppose it does. If no
importer owns the field of timestamps, an importer of atoms was handed back, for the field of
batches, all the packets of one atom that it queued, each as often as it queued it. If one does,
that importer was handed all of them, and the importer of atoms none. Should a check fail, the
packets behind it wait still, and the same is true of the others. -/
theorem tokens_handed_back_iff (hκ : Importer.OnlyQueues κ) {is : List (AtomImporter ⊕ κ)}
    {i : AtomImporter}
    (howner : (ofImporters is).owner? PacketField.statsdAtom = some (place, .inl i))
    (packets : List Bytes) :
    (packets.foldl push (ofImporters is)).drain =
      (packets.foldl push (ofImporters (is.map Watched.fresh))).drain.map (Prod.map id forget) ∧
    (Importer.LeavesQueue κ → ∃ fatal after,
      (packets.foldl push (ofImporters (is.map Watched.fresh))).drain = some (fatal, after)) ∧
    ∀ fatal (after : Session (Watched (AtomImporter ⊕ κ))),
      (packets.foldl push (ofImporters (is.map Watched.fresh))).drain = some (fatal, after) →
      (fatal = none →
        after.context.sorter.queue = [] ∧
        ((∀ p ∈ after.tokensOf place,
            p.handedFor PacketField.statsdAtom ∈ after.handedTo place) ↔
          (ofImporters is).placeOf? PacketField.timestamp = none ∨ after.tokensOf place = [])) ∧
      ((ofImporters is).placeOf? PacketField.timestamp = none →
        ((after.tokensOf place).map (·.handedFor PacketField.statsdAtom)).Subperm
          (after.handedTo place ++
            after.context.sorter.queue.map (·.handedFor PacketField.statsdAtom))) ∧
      ∀ other, (ofImporters is).placeOf? PacketField.timestamp = some other →
        ((after.tokensOf place).map (·.handedFor PacketField.timestamp)).Subperm
          (after.handedTo other ++
            after.context.sorter.queue.map (·.handedFor PacketField.timestamp)) ∧
        ∀ p ∈ after.tokensOf place,
          p.handedFor PacketField.statsdAtom ∉ after.handedTo place := by
  obtain ⟨s, hs⟩ : ∃ s, packets.foldl push (ofImporters (is.map Watched.fresh)) = s := ⟨_, rfl⟩
  have hforget : s.forget = packets.foldl push (ofImporters is) := by
    rw [← hs, forget_foldl_push, forget_ofImporters]
  have hplaces : s.placeOf? = (ofImporters is).placeOf? := by
    rw [← hs, placeOf?_foldl_push]
    funext field
    rw [← placeOf?_forget, forget_ofImporters]
  have hkeeps : s.Keeps place := hs ▸ (keeps_ofImporters howner).foldl_push hκ packets
  have hstatsd : s.placeOf? PacketField.statsdAtom = some place := by
    rw [hplaces, placeOf?, howner, Option.map_some]
  rw [hs, ← hforget, ← hplaces]
  refine ⟨forget_drain s,
    fun hleaves => exists_drain (AtomImporter.leavesQueue.sum hleaves).watched s,
    fun fatal after hdrain => ?_⟩
  have hback := fun htime => hkeeps.handed_back hκ hdrain htime hstatsd
  rw [tokensOf_drain hdrain]
  refine ⟨?_, hback, fun other htime => ⟨hkeeps.handed_away hκ hdrain htime, fun p hp =>
    hkeeps.not_handed_back hdrain htime hp⟩⟩
  rintro rfl
  have hempty : after.context.sorter.queue = [] :=
    Sorter.queue_eq_nil_iff.mpr (sorter_of_drain hdrain)
  refine ⟨hempty, fun hall => ?_, ?_⟩
  · cases htime : s.placeOf? PacketField.timestamp with
    | none => exact Or.inl rfl
    | some other =>
        refine Or.inr (List.eq_nil_iff_forall_not_mem.mpr fun p hp => ?_)
        exact hkeeps.not_handed_back hdrain htime hp (hall p hp)
  · rintro (htime | hnil)
    · intro p hp
      have hsub := hback htime
      rw [hempty, List.map_nil, List.append_nil] at hsub
      exact hsub.subset (List.mem_map_of_mem hp)
    · intro p hp
      rw [hnil] at hp
      cases hp

end Session

/-! ### A bystander -/

/-- An importer that owns fields and leaves every packet alone. -/
structure Bystander where
  fields : List UInt32
  deriving DecidableEq, Repr

instance : Importer Bystander where
  fields := Bystander.fields
  tokenize b context _ := (.ignored, b, context)
  parse b context _ := (none, b, context)

namespace Bystander

lemma leavesQueue : Importer.LeavesQueue Bystander := fun _ _ _ => rfl

lemma onlyQueues : Importer.OnlyQueues Bystander where
  tokenize _ _ _ := ⟨[], rfl⟩
  parse _ _ _ := ⟨[], rfl⟩

lemma atomsOnly : Importer.AtomsOnly Bystander where
  queues _ _ _ _ _ := ⟨[], rfl, by simp⟩
  parses _ _ _ _ _ _ := ⟨rfl, rfl⟩

end Bystander

namespace Session

/-- An importer of atoms, and a bystander that owns the field of timestamps. -/
def besideTimestamps : List (AtomImporter ⊕ Bystander) :=
  [.inl (.ofSchema ⟨.empty, ""⟩ defaultTrackName), .inr ⟨[PacketField.timestamp]⟩]

lemma owner?_besideTimestamps :
    (ofImporters besideTimestamps).owner? PacketField.statsdAtom =
      some (0, .inl (.ofSchema ⟨.empty, ""⟩ defaultTrackName)) := by
  simp [owner?, ofImporters, besideTimestamps, register, initial, Importer.fields, claim,
    PacketField.statsdAtom, PacketField.timestamp, Std.HashMap.getElem_insert]

lemma placeOf?_besideTimestamps :
    (ofImporters besideTimestamps).placeOf? PacketField.timestamp = some 1 := by
  simp [placeOf?, owner?, ofImporters, besideTimestamps, register, initial, Importer.fields, claim,
    PacketField.statsdAtom, PacketField.timestamp]

lemma atomsWait_besideTimestamps : (ofImporters besideTimestamps).AtomsWait := by
  rw [AtomsWait, context_ofImporters]
  exact atomsWait_initial (ι := AtomImporter)

lemma drain_besideTimestamps (packets : List Bytes) :
    ∃ after, (packets.foldl push (ofImporters besideTimestamps)).drain = some (none, after) := by
  have hatoms := AtomImporter.atomsOnly.sum Bystander.atomsOnly
  obtain ⟨after, hdrain, -⟩ := (atomsWait_besideTimestamps.foldl_push hatoms packets).drain hatoms
  exact ⟨after, hdrain⟩

/-- The atom of a packet is queued, although the bystander is offered the packet first. -/
lemma tokensOf_besideTimestamps :
    ((ofImporters (besideTimestamps.map Watched.fresh)).push
        (singletonPacket 7 [8, 1])).tokensOf 0 =
      [⟨7, ⟨0, 0⟩, singletonPacket 7 [8, 1]⟩] := by
  have hfits : FitsBatch [8, 1] := fitsBatch_of_length_lt (by decide)
  have hview := PacketView.decode_singletonPacket hfits 7
  have hbatch := Batch.decode_encode_singleton hfits
  have hread : (PacketView.decode (singletonPacket 7 [8, 1])).malformed = false := by rw [hview]
  rw [push_of_readable hread, hview]
  simp [offer, enterTime, enterSequence, entered, ofImporters, besideTimestamps, register, initial,
    Importer.fields, claim, PacketField.statsdAtom, PacketField.timestamp, owner?,
    Std.HashMap.getElem_insert, Importer.tokenize, Watched.fresh, AtomImporter.tokenize, tokensOf,
    offeredTo, AtomImporter.tokens, hbatch, Batch.resolved, Batch.stamp, AtomImporter.timedAtom]

/-- One atom, queued by its importer and handed to the bystander. -/
theorem tokens_handed_to_bystander :
    Importer.OnlyQueues Bystander ∧
      (ofImporters besideTimestamps).owner? PacketField.statsdAtom =
        some (0, .inl (.ofSchema ⟨.empty, ""⟩ defaultTrackName)) ∧
      ∃ after : Session (Watched (AtomImporter ⊕ Bystander)),
        ([singletonPacket 7 [8, 1]].foldl push
          (ofImporters (besideTimestamps.map Watched.fresh))).drain = some (none, after) ∧
        ([singletonPacket 7 [8, 1]].foldl push (ofImporters besideTimestamps)).drain =
          some (none, after.forget) ∧
        ∃ p ∈ after.tokensOf 0, p.handedFor PacketField.statsdAtom ∉ after.handedTo 0 := by
  obtain ⟨hforget, hends, hall⟩ := tokens_handed_back_iff Bystander.onlyQueues
    owner?_besideTimestamps [singletonPacket 7 [8, 1]]
  obtain ⟨fatal, after, hdrain⟩ := hends Bystander.leavesQueue
  obtain ⟨bare, hbare⟩ := drain_besideTimestamps [singletonPacket 7 [8, 1]]
  rw [hdrain, hbare] at hforget
  obtain ⟨rfl, rfl⟩ : none = fatal ∧ bare = after.forget := by
    cases hforget
    exact ⟨rfl, rfl⟩
  have htokens : after.tokensOf 0 = [⟨7, ⟨0, 0⟩, singletonPacket 7 [8, 1]⟩] := by
    rw [tokensOf_drain hdrain]
    exact tokensOf_besideTimestamps
  have hmem : ⟨7, ⟨0, 0⟩, singletonPacket 7 [8, 1]⟩ ∈ after.tokensOf 0 := by
    rw [htokens]
    exact List.mem_singleton_self _
  obtain ⟨-, -, haway⟩ := hall none after hdrain
  exact ⟨Bystander.onlyQueues, owner?_besideTimestamps, after, hdrain, hbare, _, hmem,
    (haway 1 placeOf?_besideTimestamps).2 _ hmem⟩

end Session

end AtomTimeline
