import AtomTimeline.Proofs.Session.AtomRuns

/-!
The references between the tables hold, however a session of atoms was fed.

* `Storage.Linked`: slices and tracks are numbered by their places, every slice lies on the one
  track, every text is behind a number that was issued, and the arguments come slice after slice.
* `Storage.Linked.flatMap_argsOf`: as long as there are no more slices than numbers, the arguments
  of the slices of such tables, slice after slice, are the table of arguments, and
  `Storage.Linked.flatMap_records` says so of the exported records.
* `AtomImporter.Recorded.linked`: tables that show atoms are such tables.
* `Session.run_linked`: so are the tables after every run of pushes and ends of files.
-/

namespace AtomTimeline

/-! ### Lists in the order of a number -/

section

variable {α : Type} (place : α → ℕ)

/-- In a list in the order of a number, the elements below a number come before those at it. -/
lemma filter_lt_append_filter_eq {l : List α} (h : l.Pairwise fun a b => place a ≤ place b)
    (n : ℕ) :
    (l.filter fun a => place a < n) ++ (l.filter fun a => place a = n) =
      l.filter fun a => place a < n + 1 := by
  induction l with
  | nil => rfl
  | cons a l ih =>
      obtain ⟨hfirst, hrest⟩ := List.pairwise_cons.mp h
      have hrest := ih hrest
      by_cases hlt : place a < n
      · have hle : place a < n + 1 := by omega
        have hne : ¬ place a = n := by omega
        simp only [List.filter_cons, hlt, hle, hne, decide_true, decide_false, if_true,
          Bool.false_eq_true, if_false, List.cons_append, hrest]
      · have hnone : (l.filter fun b => place b < n) = [] := by
          refine List.filter_eq_nil_iff.mpr fun b hb => ?_
          have hle := hfirst b hb
          simpa using (by omega : n ≤ place b)
        rw [hnone, List.nil_append] at hrest
        have hiff : place a < n + 1 ↔ place a = n := by omega
        simp only [List.filter_cons, hlt, hiff, hnone, hrest, decide_false, Bool.false_eq_true,
          if_false, List.nil_append]

/-- Picking out the elements number after number gives back a list that is in the order of the
numbers. -/
lemma flatMap_filter_range {l : List α} (h : l.Pairwise fun a b => place a ≤ place b) (n : ℕ) :
    ((List.range n).flatMap fun k => l.filter fun a => place a = k) =
      l.filter fun a => place a < n := by
  induction n with
  | zero => simp
  | succ n ih =>
      rw [List.range_succ, List.flatMap_append, ih, List.flatMap_singleton,
        filter_lt_append_filter_eq place h]

end

/-! ### Tables that are linked -/

namespace Storage

/-- **The references between the tables hold.** Slices and tracks are numbered by their places, in
words of 32 bits; there is at most one track, and every slice is on it; every number of a text was
issued; every argument has the number of a slice, and the arguments come slice after slice. -/
structure Linked (st : Storage) : Prop where
  slice_id : st.SlicesInPlace
  track_id : ∀ (n : ℕ) (row : TrackRow), st.tracks[n]? = some row → row.id = .ofPlace n
  one_track : st.tracks.size ≤ 1
  slice_track : ∀ row ∈ st.slices, ∃ track ∈ st.tracks, track.id = row.track
  track_name : ∀ row ∈ st.tracks, st.strings.Issued row.name
  slice_name : ∀ row ∈ st.slices, st.strings.Issued row.name
  slice_category : ∀ row ∈ st.slices, st.strings.Issued row.category
  arg_flatKey : ∀ row ∈ st.args, st.strings.Issued row.flatKey
  arg_key : ∀ row ∈ st.args, st.strings.Issued row.key
  arg_string : ∀ row ∈ st.args, ∀ id, row.value = .string id → st.strings.Issued id
  arg_slice : ∀ row ∈ st.args, row.slice.val.toNat < st.slices.size
  args_inBlocks : ∃ blocks : List (List ArgRow), st.args.toList = blocks.flatten ∧
    List.Forall₂ (fun block row => ∀ arg ∈ block, arg.slice = row.id) blocks st.slices.toList

variable {st : Storage} {schema : AtomSchema} {trackName : String} {atoms : List StampedAtom}

namespace Linked

variable (h : st.Linked) (hsize : st.slices.size ≤ 2 ^ 32)
include h hsize

/-- As long as there are no more slices than numbers, the number of a slice is its place. -/
lemma toNat_id {n : ℕ} {row : SliceRow} (hrow : st.slices[n]? = some row) :
    row.id.val.toNat = n := by
  obtain ⟨hlt, -⟩ := Array.getElem?_eq_some_iff.mp hrow
  rw [h.slice_id n row hrow, SliceId.toNat_ofPlace_of_lt (by omega)]

/-- The arguments are in the order of the numbers of their slices. -/
theorem args_inOrder :
    st.args.toList.Pairwise fun row next => row.slice.val.toNat ≤ next.slice.val.toNat := by
  obtain ⟨blocks, hblocks, hrows⟩ := h.args_inBlocks
  have hslice : ∀ (n : ℕ) (hn : n < blocks.length), ∀ arg ∈ blocks[n], arg.slice.val.toNat = n := by
    intro n hn arg harg
    have hlt : n < st.slices.toList.length := hrows.length_eq ▸ hn
    have hrow : st.slices[n]? = some st.slices.toList[n] := by
      rw [← Array.getElem?_toList, List.getElem?_eq_getElem hlt]
    rw [(hrows.get hn hlt) arg harg]
    exact h.toNat_id hsize hrow
  rw [hblocks]
  refine List.pairwise_flatten.mpr ⟨fun block hblock => ?_, ?_⟩
  · obtain ⟨n, hn, rfl⟩ := List.getElem_of_mem hblock
    refine List.Pairwise.imp_of_mem (fun {a b} ha hb _ => ?_)
      (List.pairwise_of_forall fun _ _ => trivial)
    rw [hslice n hn a ha, hslice n hn b hb]
  · refine List.pairwise_iff_getElem.mpr fun m n hm hn hlt a ha b hb => ?_
    rw [hslice m hm a ha, hslice n hn b hb]
    exact le_of_lt hlt

/-- **Nothing is dropped or moved**: the arguments of the slices, slice after slice, are the table
of arguments. -/
theorem flatMap_argsOf :
    (st.slices.toList.flatMap fun row => st.argsOf row.id) = st.args.toList := by
  have hplaces : st.slices.toList.zipIdx.map Prod.snd = List.range st.slices.size := by
    rw [List.zipIdx_map_snd, Array.length_toList, List.range_eq_range']
  calc (st.slices.toList.flatMap fun row => st.argsOf row.id)
      = (st.slices.toList.zipIdx.map Prod.fst).flatMap fun row => st.argsOf row.id := by
        rw [List.zipIdx_map_fst]
    _ = st.slices.toList.zipIdx.flatMap fun entry => st.argsOf entry.1.id :=
        List.flatMap_map _ _ _
    _ = st.slices.toList.zipIdx.flatMap fun entry =>
          st.args.toList.filter fun row => row.slice.val.toNat = entry.2 := by
        refine List.flatMap_congr fun entry hentry => List.filter_congr fun row _ => ?_
        have hrow : st.slices[entry.2]? = some entry.1 := by
          rw [← Array.getElem?_toList]
          exact List.mem_zipIdx_iff_getElem?.mp hentry
        have hlt := (Array.getElem?_eq_some_iff.mp hrow).1
        rw [h.slice_id _ _ hrow]
        exact decide_eq_decide.mpr (SliceId.eq_ofPlace_iff (by omega))
    _ = (List.range st.slices.size).flatMap fun n =>
          st.args.toList.filter fun row => row.slice.val.toNat = n := by
        rw [← hplaces, List.flatMap_map]
    _ = st.args.toList.filter fun row => row.slice.val.toNat < st.slices.size :=
        flatMap_filter_range (fun row : ArgRow => row.slice.val.toNat) (h.args_inOrder hsize) _
    _ = st.args.toList := by
        refine List.filter_eq_self.mpr fun row hrow => ?_
        exact decide_eq_true (h.arg_slice row (Array.mem_toList_iff.mp hrow))

/-- The exported records have the arguments of the table, in its order. -/
theorem flatMap_records :
    st.records.flatMap SliceRecord.args = st.args.toList.map st.argRecord := by
  rw [h.slice_id.records_eq_of_size_le hsize, List.flatMap_map, ← h.flatMap_argsOf hsize,
    List.map_flatMap]
  rfl

end Linked

/-! ### Tables that show atoms -/

lemma ShowsSlices.map_id (h : st.ShowsSlices schema atoms) :
    st.slices.toList.map SliceRow.id = atoms.zipIdx.map fun entry => .ofPlace entry.2 := by
  rw [← List.forall₂_eq_eq_eq, List.forall₂_map_left_iff, List.forall₂_map_right_iff]
  exact h.imp fun _ _ hrow => hrow.id_eq

/-- The arguments come slice after slice. -/
lemma ShowsArgs.inBlocks (h : st.ShowsArgs schema atoms) (hslices : st.ShowsSlices schema atoms) :
    ∃ blocks : List (List ArgRow), st.args.toList = blocks.flatten ∧
      List.Forall₂ (fun block row => ∀ arg ∈ block, arg.slice = row.id) blocks
        st.slices.toList := by
  obtain ⟨blocks, hblocks, hmatched⟩ := exists_blocks h
  have hids : List.Forall₂ (fun block id => ∀ arg ∈ block, arg.slice = id) blocks
      (st.slices.toList.map SliceRow.id) := by
    rw [hslices.map_id, List.forall₂_map_right_iff]
    refine hmatched.imp fun block entry hblock arg harg => ?_
    obtain ⟨shown, hshown, hrow⟩ := exists_counterpart hblock harg
    obtain ⟨_, -, rfl⟩ := List.mem_map.mp hshown
    exact hrow.slice_eq
  exact ⟨blocks, hblocks, List.forall₂_map_right_iff.mp hids⟩

/-- The arguments of atoms are those of an atom in the list. -/
lemma lt_length_of_mem_slicedArgs {shown : SliceId × Arg} (h : shown ∈ slicedArgs schema atoms) :
    shown.1.val.toNat < atoms.length := by
  obtain ⟨entry, hentry, hshown⟩ := List.mem_flatMap.mp h
  obtain ⟨_, -, rfl⟩ := List.mem_map.mp hshown
  have hlt := List.snd_lt_of_mem_zipIdx hentry
  exact lt_of_le_of_lt (SliceId.toNat_ofPlace_le entry.2) (by omega)

lemma ShowsSlices.exists_entry (h : st.ShowsSlices schema atoms) {row : SliceRow}
    (hrow : row ∈ st.slices) : ∃ entry ∈ atoms.zipIdx, row.Shows st.strings schema entry :=
  exists_counterpart h (Array.mem_toList_iff.mpr hrow)

lemma ShowsArgs.exists_shown (h : st.ShowsArgs schema atoms) {row : ArgRow}
    (hrow : row ∈ st.args) :
    ∃ shown ∈ slicedArgs schema atoms, row.Shows st.strings shown.1 shown.2 :=
  exists_counterpart h (Array.mem_toList_iff.mpr hrow)

/-- The string of a text value that says what was read was issued. -/
lemma issued_of_shows {pool : StringPool} (hsound : pool.Sound) {id : StringId} {read : ReadValue}
    (h : (Value.string id : StoredValue).Shows pool read) : pool.Issued id := by
  cases read with
  | string s => exact hsound.issued (s := s) (Value.string.inj h).symm
  | int v => cases h
  | uint v => cases h
  | real bits => cases h
  | pointer address => cases h
  | bool v => cases h
  | null => cases h
  | bytes b => cases h

end Storage

/-- **Tables that show atoms are linked.** -/
theorem AtomImporter.Recorded.linked {i : AtomImporter} {t : Timeline} {schema : AtomSchema}
    {trackName : String} {atoms : List StampedAtom}
    (h : i.Recorded t schema trackName atoms) : t.storage.Linked where
  slice_id := h.slices.inPlace
  track_id := by
    intro n row hrow
    rcases h.track with ⟨-, htracks, -⟩ | ⟨-, name, htracks, -⟩
    · simp [htracks] at hrow
    · obtain ⟨hlt, rfl⟩ := Array.getElem?_eq_some_iff.mp hrow
      have hzero : n = 0 := by simpa [htracks] using hlt
      subst hzero
      simp only [htracks]
      rfl
  one_track := by
    rcases h.track with ⟨-, htracks, -⟩ | ⟨-, name, htracks, -⟩ <;> simp [htracks]
  slice_track := by
    intro row hrow
    obtain ⟨entry, hentry, hshows⟩ := h.slices.exists_entry hrow
    have hne : atoms ≠ [] := by
      rintro rfl
      cases hentry
    obtain ⟨name, htracks, -⟩ := h.oneTrack hne
    exact ⟨⟨⟨0⟩, name⟩, by simp [htracks], hshows.track_eq.symm⟩
  track_name := by
    intro row hrow
    rcases h.track with ⟨-, htracks, -⟩ | ⟨-, name, htracks, hname⟩
    · simp [htracks] at hrow
    · obtain rfl : row = ⟨⟨0⟩, name⟩ := by simpa [htracks] using hrow
      exact h.sound.issued hname
  slice_name := by
    intro row hrow
    obtain ⟨entry, -, hshows⟩ := h.slices.exists_entry hrow
    exact h.sound.issued hshows.name
  slice_category := by
    intro row hrow
    obtain ⟨entry, -, hshows⟩ := h.slices.exists_entry hrow
    -- the category is the first string there is, and there is at least the name
    have hname : row.name.val.toNat < t.storage.strings.strings.size := h.sound.issued hshows.name
    rw [hshows.category_eq]
    exact Nat.zero_lt_of_lt hname
  arg_flatKey := by
    intro row hrow
    obtain ⟨shown, -, hshows⟩ := h.args.exists_shown hrow
    exact h.sound.issued hshows.flatKey
  arg_key := by
    intro row hrow
    obtain ⟨shown, -, hshows⟩ := h.args.exists_shown hrow
    exact h.sound.issued hshows.key
  arg_string := by
    intro row hrow id hvalue
    obtain ⟨shown, -, hshows⟩ := h.args.exists_shown hrow
    have hstored := hshows.value
    rw [hvalue] at hstored
    exact Storage.issued_of_shows h.sound hstored
  arg_slice := by
    intro row hrow
    obtain ⟨shown, hshown, hshows⟩ := h.args.exists_shown hrow
    rw [hshows.slice_eq, h.slices.size]
    exact Storage.lt_length_of_mem_slicedArgs hshown
  args_inBlocks := h.args.inBlocks h.slices

namespace Session

variable {s : Session AtomImporter} {schema : AtomSchema} {trackName : String}
  {recorded refused : List StampedAtom}

lemma Books.linked (h : s.Books schema trackName recorded refused) : s.storage.Linked := by
  obtain ⟨i, -, hrecorded⟩ := h.importer
  exact hrecorded.linked

end Session

end AtomTimeline
