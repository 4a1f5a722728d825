import Mathlib.Tactic
import AtomTimeline.Tables.Records

/-!
The exported records read off the tables.

* `Storage.getD_argGroups`: grouping the arguments in one pass gives every number of a slice the
  arguments under it, in the order of the table.
* `Storage.getElem?_takeRecords`: a record has its group unless an earlier one took it.
* `Storage.SlicesInPlace.records_eq`: so where slices are numbered by their places, the first
  `2 ^ 32` records have the arguments that `Storage.argsOf` lists, and the others have none.
* `Storage.SlicesInPlace.flatMap_records`: the arguments of the records are picked out of the table
  number after number.
-/

namespace AtomTimeline

namespace SliceId

lemma toNat_ofPlace (n : ℕ) : (ofPlace n).val.toNat = n % 2 ^ 32 := UInt32.toNat_ofNat'

lemma toNat_ofPlace_le (n : ℕ) : (ofPlace n).val.toNat ≤ n := by
  rw [toNat_ofPlace]
  exact Nat.mod_le n _

lemma toNat_ofPlace_of_lt {n : ℕ} (h : n < 2 ^ 32) : (ofPlace n).val.toNat = n := by
  rw [toNat_ofPlace, Nat.mod_eq_of_lt h]

lemma eq_ofPlace_iff {id : SliceId} {n : ℕ} (h : n < 2 ^ 32) :
    id = ofPlace n ↔ id.val.toNat = n := by
  constructor
  · rintro rfl
    exact toNat_ofPlace_of_lt h
  · intro hid
    rw [← hid, ofPlace, UInt32.ofNat_toNat]

/-- Two places have the same number if `2 ^ 32` divides the way between them. -/
lemma ofPlace_eq_iff {m n : ℕ} : ofPlace m = ofPlace n ↔ m % 2 ^ 32 = n % 2 ^ 32 := by
  rw [← toNat_ofPlace, ← toNat_ofPlace, UInt32.toNat_inj]
  exact ⟨congrArg SliceId.val, fun h => congrArg SliceId.mk h⟩

end SliceId

namespace Storage

/-- An argument goes to the end of its slice's group and to no other. -/
lemma getD_addToGroup (st : Storage) (groups : ArgGroups) (row : ArgRow) (slice : SliceId) :
    ((st.addToGroup groups row).getD slice #[]).toList =
      (groups.getD slice #[]).toList ++ if row.slice = slice then [st.argRecord row] else [] := by
  rw [addToGroup, Std.HashMap.getD_eq_getD_getElem?, Std.HashMap.getD_eq_getD_getElem?,
    Std.HashMap.getElem?_alter]
  by_cases h : row.slice = slice
  · subst h
    cases groups[row.slice]? <;> simp
  · simp [h]

lemma getD_foldl_addToGroup (st : Storage) (rows : List ArgRow) (groups : ArgGroups)
    (slice : SliceId) :
    ((rows.foldl st.addToGroup groups).getD slice #[]).toList =
      (groups.getD slice #[]).toList ++
        (rows.filter fun row => row.slice = slice).map st.argRecord := by
  induction rows generalizing groups with
  | nil => simp
  | cons row rows ih =>
      rw [List.foldl_cons, ih, getD_addToGroup]
      by_cases h : row.slice = slice <;> simp [h]

/-- The group of a slice has the slice's arguments in the order of the table. -/
theorem getD_argGroups (st : Storage) (slice : SliceId) :
    (st.argGroups.getD slice #[]).toList = (st.argsOf slice).map st.argRecord := by
  rw [argGroups, ← Array.foldl_toList, getD_foldl_addToGroup]
  simp [argsOf]

/-! ### Records -/

/-- The record of a slice with the arguments there are under its number. -/
def fullRecord (st : Storage) (row : SliceRow) : SliceRecord where
  id := row.id
  ts := row.ts
  dur := row.dur
  track := st.trackName row.track
  name := st.text row.name
  args := (st.argsOf row.id).map st.argRecord

/-- The record of a slice without arguments. -/
def bareRecord (st : Storage) (row : SliceRow) : SliceRecord :=
  { st.fullRecord row with args := [] }

lemma sliceRecord_argGroups (st : Storage) (row : SliceRow) :
    st.sliceRecord st.argGroups row = st.fullRecord row := by
  rw [sliceRecord, getD_argGroups, fullRecord]

/-- A record misses its group once it was taken out, and no other group. -/
lemma sliceRecord_erase (st : Storage) (groups : ArgGroups) (id : SliceId) (row : SliceRow) :
    st.sliceRecord (groups.erase id) row =
      if id = row.id then st.bareRecord row else st.sliceRecord groups row := by
  rw [sliceRecord, Std.HashMap.getD_erase]
  by_cases h : id = row.id
  · simp [h, bareRecord, fullRecord]
  · simp [h, sliceRecord]

/-- A record has its group unless a record in front of it took that. -/
theorem getElem?_takeRecords (st : Storage) (groups : ArgGroups) (rows : List SliceRow) (n : ℕ) :
    (st.takeRecords groups rows)[n]? = rows[n]?.map fun row =>
      if row.id ∈ (rows.take n).map SliceRow.id then st.bareRecord row
      else st.sliceRecord groups row := by
  induction rows generalizing groups n with
  | nil => rfl
  | cons first rows ih =>
      rw [takeRecords]
      cases n with
      | zero => simp
      | succ n =>
          rw [List.getElem?_cons_succ, List.getElem?_cons_succ, ih]
          refine congrArg (rows[n]?.map ·) (funext fun row => ?_)
          rw [sliceRecord_erase, List.take_succ_cons, List.map_cons]
          by_cases hfirst : first.id = row.id
          · simp [hfirst]
          · have hiff : row.id ∈ first.id :: (rows.take n).map SliceRow.id ↔
                row.id ∈ (rows.take n).map SliceRow.id :=
              List.mem_cons.trans (or_iff_right fun h => hfirst h.symm)
            simp only [hiff, hfirst, if_false]

/-- There are no more strings and no more slices than there are numbers for them. -/
structure Fits (st : Storage) : Prop where
  strings : st.strings.strings.size ≤ 2 ^ 32
  slices : st.slices.size ≤ 2 ^ 32

/-- Slices are numbered by their places. -/
def SlicesInPlace (st : Storage) : Prop :=
  ∀ (n : ℕ) (row : SliceRow), st.slices[n]? = some row → row.id = .ofPlace n

namespace SlicesInPlace

variable {st : Storage} (h : st.SlicesInPlace)
include h

/-- A slice in front has the same number if and only if the place is behind the first `2 ^ 32`. -/
lemma mem_take_iff {n : ℕ} {row : SliceRow} (hrow : st.slices[n]? = some row) :
    row.id ∈ (st.slices.toList.take n).map SliceRow.id ↔ ¬ n < 2 ^ 32 := by
  obtain ⟨hn, -⟩ := Array.getElem?_eq_some_iff.1 hrow
  rw [h n row hrow, List.mem_map]
  constructor
  · rintro ⟨other, hother, hsame⟩ hlt
    obtain ⟨m, hm⟩ := List.mem_iff_getElem?.1 hother
    rw [List.getElem?_take] at hm
    obtain ⟨hmn, hm⟩ := Option.ite_none_right_eq_some.1 hm
    rw [Array.getElem?_toList] at hm
    rw [h m other hm, SliceId.ofPlace_eq_iff, Nat.mod_eq_of_lt hlt, Nat.mod_eq_of_lt (by omega)]
      at hsame
    omega
  · intro hge
    have hm : n - 2 ^ 32 < st.slices.size := by omega
    have hfound : st.slices[n - 2 ^ 32]? = some st.slices[n - 2 ^ 32] :=
      Array.getElem?_eq_getElem hm
    refine ⟨st.slices[n - 2 ^ 32], List.mem_iff_getElem?.2 ⟨n - 2 ^ 32, ?_⟩, ?_⟩
    · rw [List.getElem?_take_of_lt (by omega), Array.getElem?_toList, hfound]
    · rw [h _ _ hfound, SliceId.ofPlace_eq_iff]
      omega

/-- **The records of slices that are numbered by their places.** The first `2 ^ 32` have the
arguments there are under their numbers. By then these were taken out: the others have none. -/
theorem records_eq : st.records = st.slices.toList.zipIdx.map fun entry =>
    if entry.2 < 2 ^ 32 then st.fullRecord entry.1 else st.bareRecord entry.1 := by
  refine List.ext_getElem? fun n => ?_
  rw [records, getElem?_takeRecords, List.getElem?_map, List.getElem?_zipIdx, Nat.zero_add,
    Array.getElem?_toList]
  cases hrow : st.slices[n]? with
  | none => rfl
  | some row =>
      simp only [Option.map_some, h.mem_take_iff hrow, sliceRecord_argGroups, ite_not]

lemma records_eq_of_size_le (hsize : st.slices.size ≤ 2 ^ 32) :
    st.records = st.slices.toList.map st.fullRecord := by
  calc st.records
      = st.slices.toList.zipIdx.map fun entry => st.fullRecord entry.1 := by
        rw [h.records_eq]
        refine List.map_congr_left fun entry hentry => if_pos ?_
        have hlt := List.snd_lt_of_mem_zipIdx hentry
        rw [Array.length_toList] at hlt
        omega
    _ = (st.slices.toList.zipIdx.map Prod.fst).map st.fullRecord := by
        rw [List.map_map, Function.comp_def]
    _ = st.slices.toList.map st.fullRecord := by rw [List.zipIdx_map_fst]

/-- The arguments of the record at a place are those of the table under the number of the place. -/
lemma map_args_record {n : ℕ} {row : SliceRow} (hrow : st.slices[n]? = some row) :
    ((if n < 2 ^ 32 then st.fullRecord row else st.bareRecord row).args.map fun arg =>
        (row.id, arg)) =
      (st.args.toList.filter fun arg => arg.slice.val.toNat = n).map fun arg =>
        (arg.slice, st.argRecord arg) := by
  by_cases hn : n < 2 ^ 32
  · have hargs : st.argsOf row.id = st.args.toList.filter fun arg => arg.slice.val.toNat = n := by
      refine List.filter_congr fun arg _ => decide_eq_decide.mpr ?_
      rw [h n row hrow, SliceId.eq_ofPlace_iff hn]
    rw [if_pos hn, fullRecord, List.map_map, ← hargs]
    refine List.map_congr_left fun arg harg => ?_
    have hslice : arg.slice = row.id := of_decide_eq_true (List.mem_filter.mp harg).2
    rw [Function.comp_apply, hslice]
  · -- no number is as large as this
    have hnone : (st.args.toList.filter fun arg => arg.slice.val.toNat = n) = [] := by
      refine List.filter_eq_nil_iff.mpr fun arg _ => ?_
      have hlt : arg.slice.val.toNat < 2 ^ 32 := arg.slice.val.toNat_lt
      simp only [decide_eq_true_eq]
      omega
    rw [if_neg hn, hnone, bareRecord, List.map_nil, List.map_nil]

/-- The arguments of the records, each with the number of its record, are those of the table, number
after number. -/
theorem flatMap_records :
    (st.records.flatMap fun record => record.args.map fun arg => (record.id, arg)) =
      (List.range st.slices.size).flatMap fun n =>
        (st.args.toList.filter fun row => row.slice.val.toNat = n).map fun row =>
          (row.slice, st.argRecord row) := by
  have hplaces : st.slices.toList.zipIdx.map Prod.snd = List.range st.slices.size := by
    rw [List.zipIdx_map_snd, Array.length_toList, List.range_eq_range']
  rw [h.records_eq, List.flatMap_map, ← hplaces, List.flatMap_map]
  refine List.flatMap_congr fun entry hentry => ?_
  have hrow : st.slices[entry.2]? = some entry.1 := by
    rw [← Array.getElem?_toList]
    exact List.mem_zipIdx_iff_getElem?.mp hentry
  rw [← h.map_args_record hrow]
  split <;> rfl

end SlicesInPlace

end Storage

end AtomTimeline
