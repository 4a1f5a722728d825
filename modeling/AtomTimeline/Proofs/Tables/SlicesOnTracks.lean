import AtomTimeline.Proofs.Lists.Matched
import AtomTimeline.Proofs.Tables.Operations

/-!
Slices on a track are in the order of their starts, however tracks are mixed.

* `SliceRequest` is a slice that is asked for; `SliceRequest.Late` says that it starts before the
  latest slice granted on its track. It knows nothing of what a timeline remembers.
* `Timeline.Call` are the uses of a timeline: asking for a slice, or changing the tables in another
  way; `Timeline.run` makes them and keeps a log of what was asked for and answered.
* `Timeline.Admits`: what a timeline remembers agrees with the slices granted. It is kept by every
  use (`Timeline.Admits.ask`, `Timeline.Admits.tables`), and with it just the late slices are
  refused (`Timeline.Admits.outOfOrder_iff`).
* `Timeline.run_admits`: so after any uses the next slice is refused if and only if it is late.
-/

namespace AtomTimeline

/-! ### Requests -/

/-- A slice that is asked for. -/
structure SliceRequest where
  ts : Int64
  track : TrackId
  category : StringId
  name : StringId
  dur : Int64
  deriving DecidableEq, Repr

/-- A slice that was granted, with its number. -/
structure GrantedSlice where
  request : SliceRequest
  id : SliceId
  deriving DecidableEq, Repr

/-- The row of a granted slice: as it was asked for, at depth zero. -/
def GrantedSlice.row (slice : GrantedSlice) : SliceRow where
  id := slice.id
  ts := slice.request.ts
  dur := slice.request.dur
  track := slice.request.track
  category := slice.request.category
  name := slice.request.name
  depth := 0

/-- The starts of the slices granted on a track. -/
def startsOn (track : TrackId) (granted : List GrantedSlice) : Set Int64 :=
  { ts | ∃ slice ∈ granted, slice.request.track = track ∧ slice.request.ts = ts }

/-- The slice starts before the latest of those granted on its track. -/
def SliceRequest.Late (r : SliceRequest) (granted : List GrantedSlice) : Prop :=
  ∃ latest, IsGreatest (startsOn r.track granted) latest ∧ r.ts < latest

/-- Slices as they were granted one after the other: each starts no earlier than those before it on
its track. -/
def GrantedInOrder (granted : List GrantedSlice) : Prop :=
  granted.Pairwise fun slice later =>
    slice.request.track = later.request.track → slice.request.ts ≤ later.request.ts

/-- Slices as they were granted one after the other are in a table: each in a place behind those
before it, and numbered by the place. -/
def StandInTable (granted : List GrantedSlice) (slices : Array SliceRow) : Prop :=
  ∃ places : List ℕ, places.Pairwise (· < ·) ∧
    List.Forall₂ (fun slice place => slice.id = .ofPlace place ∧ slices[place]? = some slice.row)
      granted places

/-- The last slice granted on a track. -/
def lastOn? (track : TrackId) (granted : List GrantedSlice) : Option GrantedSlice :=
  (granted.filter fun slice => slice.request.track = track).getLast?

section

variable {granted : List GrantedSlice} {track : TrackId} {slice last : GrantedSlice}

lemma lastOn?_append_singleton (granted : List GrantedSlice) (slice : GrantedSlice)
    (track : TrackId) :
    lastOn? track (granted ++ [slice]) =
      if slice.request.track = track then some slice else lastOn? track granted := by
  rw [lastOn?, lastOn?, List.filter_append]
  by_cases h : slice.request.track = track <;> simp [h]

/-- If there is a slice on a track then there is a last one. -/
lemma exists_lastOn? (hslice : slice ∈ granted) (hon : slice.request.track = track) :
    ∃ last, lastOn? track granted = some last := by
  refine Option.ne_none_iff_exists'.mp fun hnone => ?_
  rw [lastOn?, List.getLast?_eq_none_iff, List.filter_eq_nil_iff] at hnone
  exact hnone slice hslice (decide_eq_true hon)

namespace GrantedInOrder

variable (h : GrantedInOrder granted)
include h

/-- The last slice on a track is the latest there. -/
lemma isGreatest (hlast : lastOn? track granted = some last) :
    IsGreatest (startsOn track granted) last.request.ts := by
  obtain ⟨hmem, htrack⟩ := List.mem_filter.mp (List.mem_of_getLast? hlast)
  have htrack : last.request.track = track := of_decide_eq_true htrack
  refine ⟨⟨last, hmem, htrack, rfl⟩, ?_⟩
  rintro _ ⟨slice, hslice, hon, rfl⟩
  obtain ⟨front, hfront⟩ := List.getLast?_eq_some_iff.mp hlast
  have hin : slice ∈ front ++ [last] := by
    rw [← hfront]
    exact List.mem_filter.mpr ⟨hslice, decide_eq_true hon⟩
  have horder : GrantedInOrder (front ++ [last]) := by
    rw [← hfront]
    exact List.Pairwise.filter _ h
  rcases List.mem_append.mp hin with hbefore | hself
  · have hle := (List.pairwise_append.mp horder).2.2 slice hbefore last
      (List.mem_singleton_self last)
    exact hle (hon.trans htrack.symm)
  · rw [List.mem_singleton.mp hself]
    exact Int64.le_refl _

/-- A slice is late if and only if it starts before the last one on its track. -/
lemma late_iff (r : SliceRequest) :
    r.Late granted ↔ ∃ last, lastOn? r.track granted = some last ∧ r.ts < last.request.ts := by
  constructor
  · rintro ⟨_, ⟨⟨slice, hslice, hon, rfl⟩, -⟩, hlt⟩
    obtain ⟨last, hlast⟩ := exists_lastOn? hslice hon
    have hle := (h.isGreatest hlast).2 ⟨slice, hslice, hon, rfl⟩
    exact ⟨last, hlast, Int64.lt_of_lt_of_le hlt hle⟩
  · rintro ⟨last, hlast, hlt⟩
    exact ⟨last.request.ts, h.isGreatest hlast, hlt⟩

/-- A slice that is not late goes behind the others. -/
lemma append_singleton {new : GrantedSlice} (hlate : ¬ new.request.Late granted) :
    GrantedInOrder (granted ++ [new]) := by
  refine List.pairwise_append.mpr
    ⟨h, List.pairwise_singleton _ _, fun slice hslice later hlater => ?_⟩
  rw [List.mem_singleton.mp hlater]
  intro htrack
  obtain ⟨last, hlast⟩ := exists_lastOn? hslice htrack
  have hgreatest := h.isGreatest hlast
  have hle : slice.request.ts ≤ last.request.ts := hgreatest.2 ⟨slice, hslice, htrack, rfl⟩
  have hnot : ¬ new.request.ts < last.request.ts := fun hlt => hlate ⟨_, hgreatest, hlt⟩
  exact Int64.le_trans hle (Int64.not_lt.mp hnot)

end GrantedInOrder

namespace StandInTable

variable {slices : Array SliceRow}

/-- The rows that were there stay in their places. -/
lemma mono (h : StandInTable granted slices) {grown : Array SliceRow}
    (hgrown : ∀ (place : ℕ) (row : SliceRow), slices[place]? = some row →
      grown[place]? = some row) :
    StandInTable granted grown := by
  obtain ⟨places, hplaces, hrows⟩ := h
  exact ⟨places, hplaces, hrows.imp fun slice place hrow => ⟨hrow.1, hgrown _ _ hrow.2⟩⟩

/-- A slice that goes to the end of the table is behind the others. -/
lemma push (h : StandInTable granted slices) {new : GrantedSlice}
    (hid : new.id = .ofPlace slices.size) :
    StandInTable (granted ++ [new]) (slices.push new.row) := by
  obtain ⟨places, hplaces, hrows⟩ := h
  have hlt : ∀ place ∈ places, place < slices.size := by
    intro place hplace
    obtain ⟨_, -, -, hrow⟩ := exists_counterpart hrows.flip hplace
    exact (Array.getElem?_eq_some_iff.mp hrow).1
  refine ⟨places ++ [slices.size], ?_, List.rel_append ?_ (.cons ⟨hid, ?_⟩ .nil)⟩
  · refine List.pairwise_append.mpr ⟨hplaces, List.pairwise_singleton _ _, ?_⟩
    intro place hplace last hlast
    rw [List.mem_singleton.mp hlast]
    exact hlt place hplace
  · refine hrows.imp fun slice place hrow => ⟨hrow.1, ?_⟩
    obtain ⟨hplace, hfound⟩ := Array.getElem?_eq_some_iff.mp hrow.2
    rw [Array.getElem?_push_lt hplace, hfound]
  · exact Array.getElem?_push_size

/-- As long as there are no more slices than numbers, a slice is in the place that its number is. -/
lemma getElem?_toNat (h : StandInTable granted slices) (hsize : slices.size ≤ 2 ^ 32)
    (hslice : slice ∈ granted) : slices[slice.id.val.toNat]? = some slice.row := by
  obtain ⟨places, -, hrows⟩ := h
  obtain ⟨place, -, hid, hrow⟩ := exists_counterpart hrows hslice
  obtain ⟨hlt, -⟩ := Array.getElem?_eq_some_iff.mp hrow
  rw [hid, SliceId.toNat_ofPlace_of_lt (by omega), hrow]

end StandInTable

end

/-! ### Uses of a timeline -/

namespace Timeline

/-- A slice as it goes to the end of the table. -/
def nextRow (t : Timeline) (ts : Int64) (track : TrackId) (category name : StringId)
    (dur : Int64) : SliceRow :=
  { id := .ofPlace t.storage.slices.size, ts, dur, track, category, name, depth := 0 }

lemma addSlice_of_outOfOrder {t : Timeline} {ts : Int64} {track : TrackId}
    (h : t.outOfOrder ts track = true) (category name : StringId) (dur : Int64) :
    t.addSlice ts track category name dur = (none, t.count .sliceOutOfOrder) := by
  rw [addSlice, if_pos h]
  rfl

lemma addSlice_of_inOrder {t : Timeline} {ts : Int64} {track : TrackId}
    (h : t.outOfOrder ts track = false) (category name : StringId) (dur : Int64) :
    t.addSlice ts track category name dur = (some (.ofPlace t.storage.slices.size),
      { t with
        storage :=
          { t.storage with
            slices := t.storage.slices.push (t.nextRow ts track category name dur) }
        lastStarts := t.lastStarts.insert track ts }) := by
  rw [addSlice, if_neg (by simp [h])]
  rfl

/-- Asks for a slice. -/
def ask (t : Timeline) (r : SliceRequest) : Option SliceId × Timeline :=
  t.addSlice r.ts r.track r.category r.name r.dur

/-- A use of a timeline. -/
inductive Call where
  | slice (r : SliceRequest)
  /-- Something else is done to the tables. -/
  | tables (c : Storage.Call)
  deriving DecidableEq, Repr

/-- The slice that a use asks for. -/
def Call.request? : Call → Option SliceRequest
  | .slice r => some r
  | .tables _ => none

/-- What was asked for, and the number given to it unless it was refused. -/
abbrev Log := List (SliceRequest × Option SliceId)

/-- The slices granted. -/
def granted (log : Log) : List GrantedSlice :=
  log.filterMap fun entry => entry.2.map (GrantedSlice.mk entry.1)

/-- The slices refused. -/
def refused (log : Log) : List SliceRequest :=
  log.filterMap fun entry => if entry.2 = none then some entry.1 else none

/-- Makes uses in order: the log of the slices, and the timeline left. -/
def run (t : Timeline) : List Call → Log × Timeline
  | [] => ([], t)
  | .slice r :: calls =>
    let (log, last) := (t.ask r).2.run calls
    ((r, (t.ask r).1) :: log, last)
  | .tables c :: calls => run { t with storage := t.storage.call c } calls

lemma length_granted_add (log : Log) :
    (granted log).length + (refused log).length = log.length := by
  induction log with
  | nil => rfl
  | cons entry log ih =>
      obtain ⟨r, answer⟩ := entry
      rw [granted, refused] at ih ⊢
      cases answer <;> simp <;> omega

lemma map_fst_run (t : Timeline) (calls : List Call) :
    (t.run calls).1.map Prod.fst = calls.filterMap Call.request? := by
  induction calls generalizing t with
  | nil => rfl
  | cons c calls ih =>
      cases c with
      | slice r => exact congrArg (r :: ·) (ih _)
      | tables c => exact ih _

/-- A slice that is not refused goes to the end of the table, and its start is remembered. -/
lemma ask_of_inOrder {t : Timeline} {r : SliceRequest} (h : t.outOfOrder r.ts r.track = false) :
    t.ask r = (some (.ofPlace t.storage.slices.size),
      { t with
        storage :=
          { t.storage with
            slices := t.storage.slices.push (GrantedSlice.row ⟨r, .ofPlace t.storage.slices.size⟩) }
        lastStarts := t.lastStarts.insert r.track r.ts }) :=
  addSlice_of_inOrder h r.category r.name r.dur

/-- A slice that is refused is counted, and nothing else changes. -/
lemma ask_of_outOfOrder {t : Timeline} {r : SliceRequest} (h : t.outOfOrder r.ts r.track = true) :
    t.ask r = (none,
      { t with
        storage :=
          { t.storage with counters := t.storage.counters.add .sliceOutOfOrder 1 } }) :=
  addSlice_of_outOfOrder h r.category r.name r.dur

/-! ### What a timeline remembers -/

/-- These are the slices that the timeline granted: they are in order, they stand in the table, and
the last start on a track is that of the last one there. -/
structure Admits (t : Timeline) (granted : List GrantedSlice) : Prop where
  inOrder : GrantedInOrder granted
  inTable : StandInTable granted t.storage.slices
  lastStart (track : TrackId) :
    t.lastStarts[track]? = (lastOn? track granted).map fun last => last.request.ts

namespace Admits

variable {t : Timeline} {slices : List GrantedSlice}

lemma initial (storage : Storage) (tracks : Std.HashMap StringId TrackId) :
    Admits ⟨storage, tracks, ∅⟩ [] where
  inOrder := .nil
  inTable := ⟨[], .nil, .nil⟩
  lastStart _ := Std.HashMap.getElem?_empty

/-- **Just the late slices are out of order.** -/
theorem outOfOrder_iff (h : t.Admits slices) (r : SliceRequest) :
    t.outOfOrder r.ts r.track = true ↔ r.Late slices := by
  rw [h.inOrder.late_iff, outOfOrder, h.lastStart]
  cases lastOn? r.track slices <;> simp

/-- Nothing that is done to the tables changes what was granted. -/
lemma tables (h : t.Admits slices) (c : Storage.Call) :
    Admits { t with storage := t.storage.call c } slices where
  inOrder := h.inOrder
  inTable := by
    refine h.inTable.mono fun place row hrow => ?_
    obtain ⟨hlt, -⟩ := Array.getElem?_eq_some_iff.mp hrow
    rw [← Array.getElem?_toList, Storage.slices_call,
      List.getElem?_append_left (by simpa using hlt), Array.getElem?_toList, hrow]
  lastStart := h.lastStart

/-- **One request**: what is refused leaves the slices granted as they are, what is not refused is
one more of them. -/
theorem ask (h : t.Admits slices) (r : SliceRequest) :
    (t.ask r).2.Admits (slices ++ granted [(r, (t.ask r).1)]) := by
  cases hout : t.outOfOrder r.ts r.track with
  | true =>
      have hnone : granted [(r, none)] = [] := rfl
      rw [ask_of_outOfOrder hout, hnone, List.append_nil]
      exact ⟨h.inOrder, h.inTable, h.lastStart⟩
  | false =>
      have hlate : ¬ r.Late slices := by
        rw [← h.outOfOrder_iff, hout]
        exact Bool.false_ne_true
      have hgranted : granted [(r, some (SliceId.ofPlace t.storage.slices.size))] =
          [⟨r, .ofPlace t.storage.slices.size⟩] := rfl
      rw [ask_of_inOrder hout, hgranted]
      refine ⟨h.inOrder.append_singleton hlate, h.inTable.push rfl, fun track => ?_⟩
      · rw [Std.HashMap.getElem?_insert, lastOn?_append_singleton, h.lastStart]
        by_cases htrack : r.track = track <;> simp [htrack]

/-- However a timeline is used, it goes on to remember the slices granted. -/
theorem run (h : t.Admits slices) (calls : List Call) :
    (t.run calls).2.Admits (slices ++ granted (t.run calls).1) := by
  induction calls generalizing t slices with
  | nil => simpa [Timeline.run, granted] using h
  | cons c calls ih =>
      cases c with
      | slice r =>
          have hnext := ih (h.ask r)
          rw [List.append_assoc, granted, granted, ← List.filterMap_append] at hnext
          exact hnext
      | tables c => exact ih (h.tables c)

end Admits

end Timeline

end AtomTimeline
