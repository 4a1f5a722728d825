import AtomTimeline.Proofs.Args.Delivery
import AtomTimeline.Proofs.Statsd.AtomRecords
import AtomTimeline.Proofs.Tables.Operations

/-!
Arguments that are put on a slice, whatever calls filled the tables before.

* `Storage.GrownBy` says what putting arguments on a slice may change: the rows of that slice grow
  by rows that show the arguments, and else nothing changes but that strings are added. As long as
  there are no more strings than numbers, the new rows read as the arguments.
* `Storage.grownBy_insertArgs`: so it does as long as the index of the strings is sound.
* `Storage.run_grownBy`: so it does after any calls, whether arguments are put there by themselves
  or while a payload is read, up to the error that ends the reading.
* `Storage.reading_of_unissued_number`: a row with a number that was not issued stays, but its text
  is no longer empty once the number is issued; and once all numbers were issued, a new text gets
  the number of an old one.
-/

namespace AtomTimeline

/-- Every number of a text in the row was issued. -/
structure ArgRow.Issued (pool : StringPool) (row : ArgRow) : Prop where
  flatKey : pool.Issued row.flatKey
  key : pool.Issued row.key
  value : ∀ id, row.value = .string id → pool.Issued id

namespace Storage

/-- **Arguments were put on a slice, and nothing else was done.** The rows of the slice grow by rows
that show the arguments; all earlier rows, those of other slices, the slices, the tracks and the
counters are as they were, and every string is behind its number. As long as there are no more
strings than numbers, the new rows read as the arguments. An earlier row whose numbers were issued
reads as before, and if that holds of all rows of the slice then what they read as grows by just the
arguments. -/
structure GrownBy (st : Storage) (slice : SliceId) (args : List Arg) (after : Storage) : Prop where
  rows : ∃ rows, after.argsOf slice = st.argsOf slice ++ rows ∧
    after.args.toList = st.args.toList ++ rows ∧
    List.Forall₂ (fun row arg => row.Shows after.strings slice arg) rows args ∧
    (after.strings.strings.size ≤ 2 ^ 32 →
      rows.map after.argRecord = args.map ArgRecord.ofArg)
  others : ∀ other, other ≠ slice → after.argsOf other = st.argsOf other
  slices_eq : after.slices = st.slices
  tracks_eq : after.tracks = st.tracks
  counters_eq : after.counters = st.counters
  strings : st.strings.Extends after.strings
  earlier : ∀ row ∈ st.args, row.Issued st.strings → after.argRecord row = st.argRecord row
  reading : after.strings.strings.size ≤ 2 ^ 32 →
    (∀ row ∈ st.argsOf slice, row.Issued st.strings) →
      (after.argsOf slice).map after.argRecord =
        (st.argsOf slice).map st.argRecord ++ args.map ArgRecord.ofArg

/-- What is behind a number stays there. -/
lemma text_eq_of_extends {st after : Storage} (h : st.strings.Extends after.strings) {id : StringId}
    (hid : st.strings.Issued id) : after.text id = st.text id := by
  obtain ⟨s, hs⟩ := hid.exists_holds
  rw [text_of_holds hs, text_of_holds (h id s hs)]

/-- A row whose numbers were issued goes on to read as it does. -/
lemma argRecord_eq_of_extends {st after : Storage} (h : st.strings.Extends after.strings)
    {row : ArgRow} (hrow : row.Issued st.strings) : after.argRecord row = st.argRecord row := by
  have hvalue : after.resolve row.value = st.resolve row.value := by
    rw [resolve, resolve]
    cases hv : row.value with
    | string id => exact congrArg Value.string (text_eq_of_extends h (hrow.value id hv))
    | _ => rfl
  rw [argRecord, argRecord, hvalue, text_eq_of_extends h hrow.flatKey,
    text_eq_of_extends h hrow.key]

/-- Rows of one slice behind others are that slice's alone. -/
lemma argsOf_append {st after : Storage} {slice : SliceId} {rows : List ArgRow}
    (h : after.args.toList = st.args.toList ++ rows) (hrows : ∀ row ∈ rows, row.slice = slice)
    (other : SliceId) :
    after.argsOf other = st.argsOf other ++ if other = slice then rows else [] := by
  rw [argsOf, h, List.filter_append, ← argsOf]
  congr 1
  by_cases heq : other = slice
  · rw [if_pos heq, List.filter_eq_self]
    exact fun row hrow => decide_eq_true ((hrows row hrow).trans heq.symm)
  · rw [if_neg heq, List.filter_eq_nil_iff]
    intro row hrow hslice
    exact heq ((of_decide_eq_true hslice).symm.trans (hrows row hrow))

lemma slice_eq_of_shown {pool : StringPool} {slice : SliceId} {rows : List ArgRow} {args : List Arg}
    (h : List.Forall₂ (fun row arg => row.Shows pool slice arg) rows args) :
    ∀ row ∈ rows, row.slice = slice := by
  induction h with
  | nil => simp
  | cons hrow _ ih => exact List.forall_mem_cons.mpr ⟨hrow.slice_eq, ih⟩

/-- **Putting arguments on a slice** changes what it should and nothing else. -/
theorem grownBy_insertArgs {st : Storage} (h : st.strings.Sound) (slice : SliceId)
    (args : List Arg) : st.GrownBy slice args (st.insertArgs slice args) := by
  obtain ⟨rows, pool, hinsert, hsound, -, hext, hshown⟩ := insertArgs_spec h slice args
  generalize st.insertArgs slice args = after at hinsert
  have htable : after.args.toList = st.args.toList ++ rows := by
    rw [hinsert]
    simp
  have hstrings : after.strings = pool := by rw [hinsert]
  rw [← hstrings] at hsound hext hshown
  have hslice := slice_eq_of_shown hshown
  have hread (hsize : after.strings.strings.size ≤ 2 ^ 32) :
      rows.map after.argRecord = args.map ArgRecord.ofArg := by
    rw [← List.forall₂_eq_eq_eq, List.forall₂_map_left_iff, List.forall₂_map_right_iff]
    exact hshown.imp fun _ _ hrow => argRecord_of_shows hsound hsize hrow
  have hown : after.argsOf slice = st.argsOf slice ++ rows := by
    rw [argsOf_append htable hslice, if_pos rfl]
  refine ⟨⟨rows, hown, htable, hshown, hread⟩, fun other hother => ?_, by rw [hinsert],
    by rw [hinsert], by rw [hinsert], hext, fun row _ hrow => argRecord_eq_of_extends hext hrow,
    fun hsize hissued => ?_⟩
  · rw [argsOf_append htable hslice, if_neg hother, List.append_nil]
  · have hold : (st.argsOf slice).map after.argRecord = (st.argsOf slice).map st.argRecord :=
      List.map_congr_left fun row hrow => argRecord_eq_of_extends hext (hissued row hrow)
    rw [hown, List.map_append, hold, hread hsize]

/-- **Arguments put on a slice after any calls.** Offered one after the other, arguments are never
fatal, and the tables grow by just these. When an atom payload is read and every argument is put on
the slice as soon as it is read, the tables grow by what any delegate is given of the payload, also
where an error ends the reading; and this is how an atom is recorded. -/
theorem run_grownBy (calls : List Call) (slice : SliceId) :
    ∃ st, initial.run calls = st ∧
      (∀ args : List Arg, ∃ after, st.insertOffers slice (args.map .arg) = (none, after) ∧
        st.GrownBy slice args after) ∧
      ∀ (schema : AtomSchema) (payload : Bytes), ∃ heard error after,
        schema.deliverAtom (fun heard arg => heard ++ [arg]) payload [] = ⟨heard, error⟩ ∧
        schema.deliverAtom (fun st arg => st.insertArg slice arg) payload st = ⟨after, error⟩ ∧
        st.GrownBy slice heard after ∧
        ∀ tracks starts, AtomImporter.recordArgs ⟨st, tracks, starts⟩ slice
            (schema.parseAtom payload) =
          (none, ⟨if error.isSome then after.count .atomUnknown else after, tracks, starts⟩) := by
  have hsound : (initial.run calls).strings.Sound := sound_run StringPool.sound_initial calls
  refine ⟨_, rfl, fun args => ⟨_, insertOffers_map_arg _ slice args,
    grownBy_insertArgs hsound slice args⟩, fun schema payload => ?_⟩
  refine ⟨_, _, _, schema.heard_eq payload, schema.deliverAtom_eq _ payload _,
    grownBy_insertArgs hsound slice _, fun tracks starts => ?_⟩
  simp only [AtomImporter.recordArgs, insertOffers_map_arg]
  cases (schema.parseAtom payload).error <;> rfl

/-! ### Rows that read as something else -/

/-- The text of `n` letters. -/
def letters (n : ℕ) : String := String.ofList (List.replicate n 'a')

lemma letters_inj {m n : ℕ} : letters m = letters n ↔ m = n := by
  constructor
  · intro h
    simpa [letters] using congrArg String.length h
  · rintro rfl
    rfl

/-- Interning texts of more and more letters gives a pool of as many strings. -/
lemma run_letters (n : ℕ) :
    ∃ pool, initial.run ((List.range n).map fun k => .intern (letters (k + 1))) =
        { initial with strings := pool } ∧
      pool.Sound ∧ pool.strings.size = n + 1 ∧
      ∀ (k : ℕ) (s : String), pool.strings[k]? = some s → s = letters k := by
  induction n with
  | zero =>
      refine ⟨_, rfl, StringPool.sound_initial, rfl, fun k s hs => ?_⟩
      cases k with
      | zero => exact (Option.some.inj hs).symm
      | succ k => simp [StringPool.initial] at hs
  | succ n ih =>
      obtain ⟨pool, hrun, hsound, hsize, hletters⟩ := ih
      have hnew : pool.index[letters (n + 1)]? = none := by
        refine Option.eq_none_iff_forall_ne_some.mpr fun id hid => ?_
        obtain ⟨k, hk, -⟩ := (hsound _ id).mp hid
        obtain ⟨hlt, -⟩ := Array.getElem?_eq_some_iff.mp hk
        have hsame := letters_inj.mp (hletters k _ hk)
        omega
      refine ⟨(pool.intern (letters (n + 1))).2, ?_, hsound.intern _, ?_, fun k s hs => ?_⟩
      · rw [List.range_succ, List.map_append, run_append, hrun]
        rfl
      · rw [StringPool.intern_of_new hnew, Array.size_push, hsize]
      · rw [StringPool.intern_of_new hnew, Array.getElem?_push, hsize] at hs
        split at hs
        · next hk =>
          rw [hk]
          exact (Option.some.inj hs).symm
        · exact hletters k s hs

/-- Once all numbers were issued, a new key gets the number of the empty string, and reads as that.
-/
lemma reading_of_number_issued_twice :
    ∃ calls st after, initial.run calls = st ∧ st.args = #[] ∧
      st.insertOffers ⟨0⟩ [.arg ⟨.ofName "x", .int 5⟩] = (none, after) ∧
      (after.argsOf ⟨0⟩).map after.argRecord = [⟨"", "", .int 5⟩] := by
  obtain ⟨pool, hrun, hsound, hsize, hletters⟩ := run_letters (2 ^ 32 - 1)
  have hnew : pool.index["x"]? = none := by
    refine Option.eq_none_iff_forall_ne_some.mpr fun id hid => ?_
    obtain ⟨k, hk, -⟩ := (hsound _ id).mp hid
    have hsame := congrArg String.toList (hletters k "x" hk)
    have hx : 'x' ∈ (letters k).toList := by
      rw [← hsame]
      decide
    rw [letters, String.toList_ofList] at hx
    exact absurd (List.eq_of_mem_replicate hx) (by decide)
  have hzero : StringId.ofPlace pool.strings.size = ⟨0⟩ := by
    rw [hsize]
    rfl
  obtain ⟨last, hlast⟩ : ∃ last : StringPool,
      last = ⟨pool.strings.push "x", pool.index.insert "x" ⟨0⟩⟩ := ⟨_, rfl⟩
  have hfirst : pool.intern "x" = (⟨0⟩, last) := by
    rw [StringPool.intern_of_new hnew, hzero, hlast]
  have hknown : last.Numbers ⟨0⟩ "x" := by
    rw [hlast]
    exact Std.HashMap.getElem?_insert_self
  have hagain : last.intern "x" = (⟨0⟩, last) := StringPool.intern_of_known hknown
  have hinsert : insertArgs { initial with strings := pool } ⟨0⟩ [⟨.ofName "x", .int 5⟩] =
      { initial with strings := last, args := #[⟨⟨0⟩, ⟨0⟩, ⟨0⟩, .int 5⟩] } := by
    simp only [insertArgs, List.foldl_cons, List.foldl_nil, insertArg, store, intern_eq, Key.ofName,
      addArg, hfirst, hagain]
    rfl
  have hempty : last.Holds ⟨0⟩ "" := by
    have hlt : 0 < pool.strings.size := by omega
    have hhead : pool.strings[0]? = some (letters 0) := by
      rw [Array.getElem?_eq_getElem hlt, hletters 0 _ (Array.getElem?_eq_getElem hlt)]
    rw [StringPool.Holds, StringPool.get?, hlast]
    exact (Array.getElem?_push_lt hlt).trans ((Array.getElem?_eq_getElem hlt).symm.trans hhead)
  refine ⟨_, _, { initial with strings := last, args := #[⟨⟨0⟩, ⟨0⟩, ⟨0⟩, .int 5⟩] }, hrun, rfl,
    (insertOffers_map_arg _ ⟨0⟩ [⟨.ofName "x", .int 5⟩]).trans (by rw [hinsert]), ?_⟩
  have hargs : argsOf { initial with strings := last, args := #[⟨⟨0⟩, ⟨0⟩, ⟨0⟩, .int 5⟩] } ⟨0⟩ =
    [⟨⟨0⟩, ⟨0⟩, ⟨0⟩, .int 5⟩] := rfl
  rw [hargs, List.map_singleton, argRecord, text_of_holds hempty]
  rfl

/-- What a row reads as may change, and a new row need not read as the argument. One with a number
that was not issued reads as empty text there, until an argument of the same slice brings the text
that gets the number. And once all numbers were issued, a new key gets the number of the empty
string, and the row reads as that. -/
theorem reading_of_unissued_number :
    (∃ st after, initial.run
        [.insertSlice ⟨⟨0⟩, 0, 0, ⟨0⟩, .empty, .empty, 0⟩, .addArg ⟨⟨0⟩, ⟨1⟩, ⟨1⟩, .int 4⟩] = st ∧
      st.insertOffers ⟨0⟩ [.arg ⟨.ofName "x", .int 5⟩] = (none, after) ∧
      (st.argsOf ⟨0⟩).map st.argRecord = [⟨"", "", .int 4⟩] ∧
      (after.argsOf ⟨0⟩).map after.argRecord = [⟨"x", "x", .int 4⟩, ⟨"x", "x", .int 5⟩] ∧
      (after.argsOf ⟨0⟩).map after.argRecord ≠
        (st.argsOf ⟨0⟩).map st.argRecord ++ [ArgRecord.ofArg ⟨.ofName "x", .int 5⟩]) ∧
    ∃ calls st after, initial.run calls = st ∧ st.args = #[] ∧
      st.insertOffers ⟨0⟩ [.arg ⟨.ofName "x", .int 5⟩] = (none, after) ∧
      (after.argsOf ⟨0⟩).map after.argRecord = [⟨"", "", .int 5⟩] ∧
      (after.argsOf ⟨0⟩).map after.argRecord ≠ [ArgRecord.ofArg ⟨.ofName "x", .int 5⟩] := by
  refine ⟨?_, ?_⟩
  · have hnew : StringPool.initial.index["x"]? = none := by simp [StringPool.initial]
    obtain ⟨pool, hpool⟩ : ∃ pool : StringPool,
        pool = ⟨#["", "x"], StringPool.initial.index.insert "x" ⟨1⟩⟩ := ⟨_, rfl⟩
    have hfirst : StringPool.initial.intern "x" = (⟨1⟩, pool) :=
      (StringPool.intern_of_new hnew).trans (by rw [hpool]; rfl)
    have hknown : pool.Numbers ⟨1⟩ "x" := by
      rw [hpool]
      exact Std.HashMap.getElem?_insert_self
    have hagain : pool.intern "x" = (⟨1⟩, pool) := StringPool.intern_of_known hknown
    refine ⟨_, { strings := pool
                 counters := .zero
                 tracks := #[]
                 slices := #[⟨⟨0⟩, 0, 0, ⟨0⟩, .empty, .empty, 0⟩]
                 args := #[⟨⟨0⟩, ⟨1⟩, ⟨1⟩, .int 4⟩, ⟨⟨0⟩, ⟨1⟩, ⟨1⟩, .int 5⟩] },
      rfl, ?_, rfl, ?_, ?_⟩
    · refine (insertOffers_map_arg _ ⟨0⟩ [⟨.ofName "x", .int 5⟩]).trans ?_
      simp only [insertArgs, List.foldl_cons, List.foldl_nil, insertArg, store, intern_eq,
        Key.ofName, run_cons, run_nil, call, insertSlice, addArg, initial, hfirst, hagain]
      rfl
    · rw [hpool]
      rfl
    · rw [hpool]
      decide +kernel
  · obtain ⟨calls, st, after, hrun, hargs, hinsert, hreading⟩ := reading_of_number_issued_twice
    refine ⟨calls, st, after, hrun, hargs, hinsert, hreading, ?_⟩
    rw [hreading]
    decide

end Storage

end AtomTimeline
