import AtomTimeline.Proofs.Session.Registering
import AtomTimeline.Proofs.Statsd.Splitting

/-!
The queue of a session whose importers queue packets of one atom and nothing else.

* `Importer.AtomsOnly` is said of such importers; those of atoms are of this kind, and two kinds of
  them make one.
* `Session.AtomsWait` is the invariant: every packet that waits is the one made of an atom and its
  own timestamp. It holds of a session without importers, and every call that adds none keeps it
  (`Session.AtomsWait.call`), whatever bytes are pushed or read and however a trace breaks off.
* `Session.run_fatal_eq_none`: so no check of the importer of atoms ever fails, in any run.
-/

namespace AtomTimeline

/-! ### Importers of atoms -/

/-- Offered a packet that was read, an importer queues packets of one atom and nothing else. Handed
one of them back, it fails no check and leaves the queue alone. -/
structure Importer.AtomsOnly (ι : Type) [Importer ι] : Prop where
  queues : ∀ (i : ι) context (o : PacketOffer) b, o.packet = PacketView.decode b →
    ∃ ps : List TimedPacket,
      (Importer.tokenize i context o).2.2.sorter = ps.foldl Sorter.push context.sorter ∧
        ∀ p ∈ ps, ∃ payload, p.HoldsAtom payload
  parses : ∀ (i : ι) context (p : TimedPacket) payload, p.HoldsAtom payload → ∀ field,
    (Importer.parse i context (p.handedFor field)).1 = none ∧
      (Importer.parse i context (p.handedFor field)).2.2.sorter = context.sorter

lemma AtomImporter.parse_eq (i : AtomImporter) (context : Context) (sorted : SortedPacket) :
    Importer.parse i context sorted =
      ((i.parse context.timeline sorted).1, (i.parse context.timeline sorted).2.1,
        { context with timeline := (i.parse context.timeline sorted).2.2 }) := rfl

lemma AtomImporter.leavesQueue : Importer.LeavesQueue AtomImporter := fun _ _ _ => rfl

theorem AtomImporter.atomsOnly : Importer.AtomsOnly AtomImporter where
  queues _ context o _ ho :=
    ⟨tokens o, sorter_tokenize context o, fun _ hp => holdsAtom_of_mem_tokens ho hp⟩
  parses i context _ _ h field := ⟨parse_fatal h i context.timeline field, rfl⟩

lemma Importer.AtomsOnly.sum {ι κ : Type} [Importer ι] [Importer κ] (hι : AtomsOnly ι)
    (hκ : AtomsOnly κ) : AtomsOnly (ι ⊕ κ) where
  queues := by
    rintro (i | k) context o b ho
    · exact hι.queues i context o b ho
    · exact hκ.queues k context o b ho
  parses := by
    rintro (i | k) context p payload h field
    · exact hι.parses i context p payload h field
    · exact hκ.parses k context p payload h field

/-! ### The queue -/

namespace Session

section

variable {ι : Type}

/-- Every packet that waits holds one atom, under the atom's timestamp. -/
def AtomsWait (s : Session ι) : Prop :=
  ∀ p ∈ s.context.sorter.queue, ∃ payload, p.HoldsAtom payload

lemma atomsWait_initial : AtomsWait (initial : Session ι) := by
  intro p hp
  cases hp

end

variable {ι : Type} [Importer ι] {s : Session ι} (hι : Importer.AtomsOnly ι)
include hι

/-- Being offered a packet that was read, an importer queues packets of one atom. -/
lemma AtomsWait.offered (h : s.AtomsWait) (place : ℕ) (i : ι) {o : PacketOffer} {b : Bytes}
    (ho : o.packet = PacketView.decode b) : (s.offered place i o).AtomsWait := by
  obtain ⟨ps, hsorter, hps⟩ := hι.queues i s.context o b ho
  intro p hp
  rw [Session.offered, hsorter, (Sorter.queue_foldl_push_perm _ _).mem_iff, List.mem_append] at hp
  exact hp.elim (h p) (hps p)

lemma AtomsWait.push (h : s.AtomsWait) (b : Bytes) : (s.push b).AtomsWait := by
  refine push_induction (P := AtomsWait) (fun _ _ _ hs => hs) ?_ ?_ s h b
  · intro s packet hs
    rw [AtomsWait, context_entered]
    exact hs
  · exact fun s o b place i ho _ hs => hs.offered hι place i ho

lemma AtomsWait.foldl_push (h : s.AtomsWait) (packets : List Bytes) :
    (packets.foldl Session.push s).AtomsWait :=
  foldl_push_induction (P := AtomsWait) (fun _ b hs => hs.push hι b) packets s h

/-- Handing back a packet that holds an atom fails no check and leaves the queue alone, whichever
importer gets it. -/
lemma parse_of_holdsAtom {p : TimedPacket} {payload : Bytes} (h : p.HoldsAtom payload)
    (s : Session ι) :
    ∃ mid, s.parse p = (none, mid) ∧ mid.context.sorter = s.context.sorter := by
  cases hr : s.recipient? (PacketView.decode p.blob) with
  | none => exact ⟨s, parse_of_no_recipient hr, rfl⟩
  | some found =>
      obtain ⟨⟨place, i⟩, field⟩ := found
      obtain ⟨hfatal, hsorter⟩ := hι.parses i s.context p payload h field
      refine ⟨s.handed place i (p.handedFor field), ?_, hsorter⟩
      rw [parse_of_recipient hr, hfatal]

/-- Draining a queue of atoms comes to an end; it fails no check and leaves nothing in the queue. -/
lemma AtomsWait.drain (h : s.AtomsWait) :
    ∃ after, s.drain = some (none, after) ∧ after.context.sorter = .empty := by
  have hstep : ∀ (s : Session ι) p sorter, s.AtomsWait →
      s.context.sorter.pop? = some (p, sorter) → ∃ mid,
        (s.withSorter sorter).parse p = (none, mid) ∧ mid.context.sorter = sorter ∧
          mid.AtomsWait := by
    intro s p sorter hs hpop
    have hqueue := Sorter.queue_of_pop? hpop
    obtain ⟨payload, hp⟩ := hs p (hqueue ▸ List.mem_cons_self)
    obtain ⟨mid, hparse, hsorter⟩ := parse_of_holdsAtom hι hp (s.withSorter sorter)
    refine ⟨mid, hparse, hsorter, fun q hq => hs q ?_⟩
    rw [hsorter] at hq
    exact hqueue ▸ List.mem_cons_of_mem p hq
  obtain ⟨after, hdrain, hempty, -⟩ := exists_drain_of_parse hstep h
  exact ⟨after, hdrain, hempty⟩

/-- A call that adds no importer comes to an end; it fails no check and leaves a queue of atoms. -/
theorem AtomsWait.call (h : s.AtomsWait) {c : Call ι} (hc : c.registered? = none) :
    ∃ after, s.call c = some (none, after) ∧ after.AtomsWait := by
  have hdrain : ∀ {s : Session ι}, s.AtomsWait →
      ∃ after, s.drain = some (none, after) ∧ after.AtomsWait := by
    intro s hs
    obtain ⟨after, hdrain, hempty⟩ := hs.drain hι
    refine ⟨after, hdrain, fun p hp => ?_⟩
    rw [hempty] at hp
    cases hp
  cases c with
  | register warns i => cases hc
  | push b => exact ⟨_, rfl, h.push hι b⟩
  | endOfFile => exact hdrain h
  | importTrace source =>
      have hpushed := h.foldl_push hι source.packets.1
      simp only [Session.call, importTrace]
      split
      · exact ⟨_, rfl, hpushed⟩
      · obtain ⟨after, hafter, hwait⟩ := hdrain hpushed
        exact ⟨after, by rw [hafter]; rfl, hwait⟩

/-- No check fails in a run in which no importer is added, and a queue of atoms is left. -/
lemma AtomsWait.run (h : s.AtomsWait) {calls : List (Call ι)}
    (hcalls : ∀ c ∈ calls, c.registered? = none) :
    ∃ after, s.run calls = some (none, after) ∧ after.AtomsWait := by
  induction calls generalizing s with
  | nil => exact ⟨s, rfl, h⟩
  | cons c calls ih =>
      obtain ⟨mid, hcall, hmid⟩ := h.call hι (hcalls c List.mem_cons_self)
      obtain ⟨after, hrun, hafter⟩ := ih hmid fun d hd => hcalls d (List.mem_cons_of_mem c hd)
      exact ⟨after, (run_of_call hcall calls).trans hrun, hafter⟩

end Session

/-! ### Sessions of importers of atoms -/

namespace Session

variable {s : Session AtomImporter} {is : List AtomImporter}

/-- Adding an importer of atoms does not fail: it lists one field. -/
lemma RegisteredAs.register_atomImporter (h : s.RegisteredAs is) (warns : Bool)
    (i : AtomImporter) : (s.register warns i).1 = none :=
  h.register_of_nodup warns (List.nodup_singleton _)

/-- A run fails no check, and a queue of atoms is left. -/
lemma AtomsWait.run_of_registeredAs (h : s.AtomsWait) (his : s.RegisteredAs is)
    (calls : List (Call AtomImporter)) :
    ∃ after, s.run calls = some (none, after) ∧ after.AtomsWait := by
  induction calls generalizing s is with
  | nil => exact ⟨s, rfl, h⟩
  | cons c calls ih =>
      obtain ⟨mid, hcall, hmid⟩ : ∃ mid, s.call c = some (none, mid) ∧ mid.AtomsWait := by
        cases c with
        | register warns i =>
            have hfatal := his.register_atomImporter warns i
            refine ⟨(s.register warns i).2, congrArg some (Prod.ext hfatal rfl), ?_⟩
            rw [AtomsWait, context_register]
            exact h
        | push b => exact h.call AtomImporter.atomsOnly rfl
        | importTrace source => exact h.call AtomImporter.atomsOnly rfl
        | endOfFile => exact h.call AtomImporter.atomsOnly rfl
      obtain ⟨after, hrun, hafter⟩ := ih hmid (his.call hcall)
      exact ⟨after, (run_of_call hcall calls).trans hrun, hafter⟩

/-- **No check ever fails** in a session whose importers are all importers of atoms: neither the
check for exactly one atom nor the one against JSON arguments, nor is an importer looked up in vain.
Every call comes to an end. Whatever was registered, pushed, read and drained before, every packet
that waits is the packet made of some atom and its own timestamp. -/
theorem run_fatal_eq_none (calls : List (Call AtomImporter)) :
    ∃ after, (initial : Session AtomImporter).run calls = some (none, after) ∧
      ∀ p ∈ after.context.sorter.queue, ∃ payload, p.blob = singletonPacket p.ts payload := by
  obtain ⟨after, hrun, hwait⟩ := atomsWait_initial.run_of_registeredAs .initial calls
  refine ⟨after, hrun, fun p hp => ?_⟩
  obtain ⟨payload, h⟩ := hwait p hp
  exact ⟨payload, h.blob_eq⟩

end Session

end AtomTimeline
