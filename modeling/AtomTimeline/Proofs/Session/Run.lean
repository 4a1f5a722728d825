import Mathlib.Tactic
import AtomTimeline.Session.Session

/-!
Runs of an import session: calls made one after the other, up to a check that fails.

* `Session.Call` are the calls, `Session.run` makes them in order.
* `Session.offered` and `Session.handed` are the two places where a session calls an importer.
  `Session.push_induction` and `Session.parse_induction` say that this is all a session does with a
  packet, apart from counting.
* `Session.placeOf?_of_replaced`: neither moves a field to another place, and so pushing packets
  does not (`Session.placeOf?_foldl_push`).
-/

namespace AtomTimeline

/-- A queued packet as it is handed back for a field. -/
def TimedPacket.handedFor (p : TimedPacket) (field : UInt32) : SortedPacket :=
  ⟨PacketView.decode p.blob, p.ts, field⟩

/-- The check that failed while a trace was taken in, if any. -/
def TraceOutcome.fatal : TraceOutcome → Option FatalCheck
  | .halted check => some check
  | _ => none

namespace Session

section

variable {ι : Type}

lemma get_count (s : Session ι) (stat : Stat) :
    (s.count stat).storage.counters.get stat = s.storage.counters.get stat + 1 := by
  simp [count, storage, Timeline.count, Timeline.mapStorage, Storage.count, Storage.countBy]

/-! ### A packet that enters -/

/-- The session once a packet that can be read has entered it, before it is offered. -/
def entered (s : Session ι) (packet : PacketView) : Session ι :=
  (({ s with packetsSeen := s.packetsSeen + 1 }.enterSequence packet).2.enterTime packet).2

@[simp] lemma context_entered (s : Session ι) (packet : PacketView) :
    (s.entered packet).context = s.context := by
  simp only [entered, enterTime]
  split <;> rfl

@[simp] lemma importers_entered (s : Session ι) (packet : PacketView) :
    (s.entered packet).importers = s.importers := by
  simp only [entered, enterTime]
  split <;> rfl

@[simp] lemma owners_entered (s : Session ι) (packet : PacketView) :
    (s.entered packet).owners = s.owners := by
  simp only [entered, enterTime]
  split <;> rfl

/-! ### Owners -/

/-- The place of the owner of a field. -/
def placeOf? (s : Session ι) (field : UInt32) : Option ℕ := (s.owner? field).map Prod.fst

/-- Once the importer in a place was replaced, the fields of that place are owned by the new one. -/
lemma owner?_of_replaced {s after : Session ι} {place : ℕ} {next : ι}
    (howners : after.owners = s.owners)
    (himporters : after.importers = s.importers.setIfInBounds place next) (field : UInt32) :
    after.owner? field =
      (s.owner? field).map fun o => if o.1 = place then (place, next) else o := by
  rw [owner?, owner?, howners, himporters]
  cases s.owners[field]? with
  | none => rfl
  | some found =>
      simp only [Array.getElem?_setIfInBounds]
      by_cases hplace : place = found
      · subst hplace
        by_cases hlt : place < s.importers.size <;> simp [hlt]
      · have hne : ¬ found = place := fun h => hplace h.symm
        cases s.importers[found]? <;> simp [hplace, hne]

/-- Replacing an importer moves no field to another place. -/
lemma placeOf?_of_replaced {s after : Session ι} {place : ℕ} {next : ι}
    (howners : after.owners = s.owners)
    (himporters : after.importers = s.importers.setIfInBounds place next) (field : UInt32) :
    after.placeOf? field = s.placeOf? field := by
  rw [placeOf?, placeOf?, owner?_of_replaced howners himporters, Option.map_map]
  congr 1
  funext o
  rw [Function.comp_apply]
  split
  · next h => rw [h]
  · rfl

lemma placeOf?_entered (s : Session ι) (packet : PacketView) :
    (s.entered packet).placeOf? = s.placeOf? := by
  funext field
  rw [placeOf?, placeOf?, owner?, owners_entered, importers_entered, ← owner?]

lemma getElem?_of_owner? {s : Session ι} {field : UInt32} {place : ℕ} {i : ι}
    (h : s.owner? field = some (place, i)) : s.importers[place]? = some i := by
  rw [owner?] at h
  cases howner : s.owners[field]? with
  | none => simp [howner] at h
  | some found =>
      simp only [howner, Option.map_eq_some_iff, Prod.mk.injEq] at h
      obtain ⟨j, hj, rfl, rfl⟩ := h
      exact hj

end

variable {ι : Type} [Importer ι]

/-! ### Calls -/

/-- A call on a session. -/
inductive Call (ι : Type) where
  | register (warns : Bool) (i : ι)
  | push (b : Bytes)
  | importTrace (source : Source)
  | endOfFile

/-- Makes a call. That a trace cannot be read is no failed check. -/
def call (s : Session ι) : Call ι → Option (Option FatalCheck × Session ι)
  | .register warns i => some (s.register warns i)
  | .push b => some (none, s.push b)
  | .importTrace source => (s.importTrace source).map (Prod.map TraceOutcome.fatal id)
  | .endOfFile => s.drain

/-- Makes calls in order, up to a check that fails or a call that does not come to an end. -/
def run (s : Session ι) : List (Call ι) → Option (Option FatalCheck × Session ι)
  | [] => some (none, s)
  | c :: calls =>
    match s.call c with
    | none => none
    | some (some fatal, s) => some (some fatal, s)
    | some (none, s) => s.run calls

lemma run_nil (s : Session ι) : s.run [] = some (none, s) := rfl

lemma run_of_call {s after : Session ι} {c : Call ι} (h : s.call c = some (none, after))
    (calls : List (Call ι)) : s.run (c :: calls) = after.run calls := by
  rw [run, h]

/-! ### Offering a packet -/

/-- The session once the importer at a place was offered a packet. -/
def offered (s : Session ι) (place : ℕ) (i : ι) (o : PacketOffer) : Session ι :=
  { s with
    context := (Importer.tokenize i s.context o).2.2
    importers := s.importers.setIfInBounds place (Importer.tokenize i s.context o).2.1 }

variable {s : Session ι} {packet : PacketView} {ts : Int64} {sequence : SequenceHandle}
  {field : UInt32} {place : ℕ} {i : ι}

lemma offer_of_no_owner (h : s.owner? field = none) (fields : List UInt32) :
    s.offer packet ts sequence (field :: fields) = s.offer packet ts sequence fields := by
  rw [offer, h]

lemma offer_of_handled (h : s.owner? field = some (place, i))
    (hverdict : (Importer.tokenize i s.context ⟨packet, ts, sequence, field⟩).1 = .handled)
    (fields : List UInt32) :
    s.offer packet ts sequence (field :: fields) =
      s.offered place i ⟨packet, ts, sequence, field⟩ := by
  simp only [offer, h, hverdict, offered]

lemma offer_of_ignored (h : s.owner? field = some (place, i))
    (hverdict : (Importer.tokenize i s.context ⟨packet, ts, sequence, field⟩).1 = .ignored)
    (fields : List UInt32) :
    s.offer packet ts sequence (field :: fields) =
      (s.offered place i ⟨packet, ts, sequence, field⟩).offer packet ts sequence fields := by
  simp only [offer, h, hverdict, offered]

/-- What being offered and counting preserve, offering a packet preserves. -/
theorem offer_induction {P : Session ι → Prop}
    (hcount : ∀ s, P s → P (s.count .packetIgnored))
    (hoffer : ∀ (s : Session ι) field place i, s.owner? field = some (place, i) → P s →
      P (s.offered place i ⟨packet, ts, sequence, field⟩))
    (fields : List UInt32) (s : Session ι) (h : P s) : P (s.offer packet ts sequence fields) := by
  induction fields generalizing s with
  | nil => exact hcount s h
  | cons field fields ih =>
      cases howner : s.owner? field with
      | none =>
          rw [offer_of_no_owner howner]
          exact ih s h
      | some found =>
          obtain ⟨place, i⟩ := found
          have hnext := hoffer s field place i howner h
          cases hverdict : (Importer.tokenize i s.context ⟨packet, ts, sequence, field⟩).1 with
          | handled =>
              rw [offer_of_handled howner hverdict]
              exact hnext
          | ignored =>
              rw [offer_of_ignored howner hverdict]
              exact ih _ hnext

lemma push_of_malformed {b : Bytes} (h : (PacketView.decode b).malformed = true) (s : Session ι) :
    s.push b = { s with packetsSeen := s.packetsSeen + 1 }.count .packetMalformed := by
  simp only [push, h, if_true]

lemma push_of_readable {b : Bytes} (h : (PacketView.decode b).malformed = false) (s : Session ι) :
    s.push b = (s.entered (PacketView.decode b)).offer (PacketView.decode b)
      (s.enterTime (PacketView.decode b)).1 (s.enterSequence (PacketView.decode b)).1
      (PacketView.decode b).fieldIds := by
  simp only [push, h, Bool.false_eq_true, if_false, entered]
  congr 1
  simp only [enterTime]
  split <;> rfl

/-- **Pushing a packet** does to a session what entering, being offered and counting do. What these
preserve, pushing preserves. -/
theorem push_induction {P : Session ι → Prop}
    (hcount : ∀ (s : Session ι) seen stat, P s → P ({ s with packetsSeen := seen }.count stat))
    (hentered : ∀ (s : Session ι) packet, P s → P (s.entered packet))
    (hoffer : ∀ (s : Session ι) o b place i, o.packet = PacketView.decode b →
      s.owner? o.field = some (place, i) → P s → P (s.offered place i o))
    (s : Session ι) (h : P s) (b : Bytes) : P (s.push b) := by
  cases hread : (PacketView.decode b).malformed with
  | true =>
      rw [push_of_malformed hread]
      exact hcount s _ _ h
  | false =>
      rw [push_of_readable hread]
      exact offer_induction (fun s hs => hcount s s.packetsSeen _ hs)
        (fun s field place i howner hs => hoffer s _ b place i rfl howner hs) _ _
        (hentered s _ h)

lemma foldl_push_induction {P : Session ι → Prop}
    (hpush : ∀ (s : Session ι) b, P s → P (s.push b)) (packets : List Bytes) (s : Session ι)
    (h : P s) : P (packets.foldl push s) := by
  induction packets generalizing s with
  | nil => exact h
  | cons b packets ih => exact ih _ (hpush s b h)

lemma placeOf?_offered (s : Session ι) (place : ℕ) (i : ι) (o : PacketOffer) :
    (s.offered place i o).placeOf? = s.placeOf? :=
  funext fun field => @placeOf?_of_replaced ι s (s.offered place i o) place _ rfl rfl field

/-- Pushing packets moves no field to another place. -/
lemma placeOf?_foldl_push (s : Session ι) (packets : List Bytes) :
    (packets.foldl push s).placeOf? = s.placeOf? := by
  refine foldl_push_induction (P := fun after => after.placeOf? = s.placeOf?) ?_ packets s rfl
  exact fun after b h => push_induction (P := fun after => after.placeOf? = s.placeOf?)
    (fun _ _ _ h => h) (fun after packet h => (placeOf?_entered after packet).trans h)
    (fun after o _ place i _ _ h => (placeOf?_offered after place i o).trans h) after h b

/-! ### Handing a packet back -/

/-- The session once the importer at a place was handed a packet back. -/
def handed (s : Session ι) (place : ℕ) (i : ι) (sorted : SortedPacket) : Session ι :=
  { s with
    context := (Importer.parse i s.context sorted).2.2
    importers := s.importers.setIfInBounds place (Importer.parse i s.context sorted).2.1 }

/-- To whom a packet is handed back, and for which field: the owner of the first of its fields that
has one. -/
def recipient? (s : Session ι) (packet : PacketView) : Option ((ℕ × ι) × UInt32) :=
  packet.fieldIds.findSome? fun field => (s.owner? field).map fun o => (o, field)

lemma placeOf?_handed (s : Session ι) (place : ℕ) (i : ι) (sorted : SortedPacket) :
    (s.handed place i sorted).placeOf? = s.placeOf? :=
  funext fun field => @placeOf?_of_replaced ι s (s.handed place i sorted) place _ rfl rfl field

lemma parse_of_recipient {p : TimedPacket}
    (h : s.recipient? (PacketView.decode p.blob) = some ((place, i), field)) :
    s.parse p =
      ((Importer.parse i s.context (p.handedFor field)).1,
        s.handed place i (p.handedFor field)) := by
  rw [recipient?] at h
  simp only [parse, h, handed, TimedPacket.handedFor]

lemma parse_of_no_recipient {p : TimedPacket}
    (h : s.recipient? (PacketView.decode p.blob) = none) : s.parse p = (none, s) := by
  rw [recipient?] at h
  simp only [parse, h]

/-- What being handed a packet preserves, parsing a packet preserves. -/
lemma parse_induction {P : Session ι → Prop}
    (hhanded : ∀ (s : Session ι) (p : TimedPacket) place i field,
      s.recipient? (PacketView.decode p.blob) = some ((place, i), field) → P s →
        P (s.handed place i (p.handedFor field)))
    (s : Session ι) (h : P s) (p : TimedPacket) : P (s.parse p).2 := by
  cases hr : s.recipient? (PacketView.decode p.blob) with
  | none =>
      rw [parse_of_no_recipient hr]
      exact h
  | some found =>
      obtain ⟨⟨place, i⟩, field⟩ := found
      rw [parse_of_recipient hr]
      exact hhanded s p place i field hr h

end Session

end AtomTimeline
