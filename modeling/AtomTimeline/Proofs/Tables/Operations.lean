import AtomTimeline.Proofs.Tables.Exports
import AtomTimeline.Proofs.Tables.Strings

/-!
The tables after any calls, in whatever order they are made.

* `Storage.Call` are the calls that change the tables, `Storage.run` makes them. Numbers in rows may
  be any numbers, issued or not.
* `Storage.args_run`, `Storage.slices_run`: a table has the rows that were put into it, in order; a
  slice is numbered by its place, whatever number it came with.
* `Storage.slicesInPlace_run`: so slices are numbered by their places. `Storage.sound_run`: the
  index of the strings stays sound.
-/

namespace AtomTimeline

namespace Storage

/-- A call that changes the tables. -/
inductive Call where
  | intern (s : String)
  | count (stat : Stat) (n : Int64)
  | insertTrack (name : StringId)
  | insertSlice (row : SliceRow)
  | addArg (row : ArgRow)
  deriving DecidableEq, Repr

/-- The slice a call puts into its table, as it is given. -/
def Call.slice? : Call → Option SliceRow
  | .insertSlice row => some row
  | _ => none

/-- The argument a call puts into its table. -/
def Call.arg? : Call → Option ArgRow
  | .addArg row => some row
  | _ => none

/-- Makes one call. -/
def call (st : Storage) : Call → Storage
  | .intern s => (st.intern s).2
  | .count stat n => st.countBy stat n
  | .insertTrack name => (st.insertTrack name).2
  | .insertSlice row => (st.insertSlice row).2
  | .addArg row => st.addArg row

/-- Makes calls in order. -/
def run (st : Storage) (calls : List Call) : Storage := calls.foldl call st

@[simp] lemma run_nil (st : Storage) : st.run [] = st := rfl

@[simp] lemma run_cons (st : Storage) (c : Call) (calls : List Call) :
    st.run (c :: calls) = (st.call c).run calls := rfl

lemma run_append (st : Storage) (calls more : List Call) :
    st.run (calls ++ more) = (st.run calls).run more := List.foldl_append

/-! ### One call -/

lemma args_call (st : Storage) (c : Call) :
    (st.call c).args.toList = st.args.toList ++ c.arg?.toList := by
  cases c with
  | addArg row => exact Array.toList_push
  | _ => exact (List.append_nil _).symm

lemma slices_call (st : Storage) (c : Call) :
    (st.call c).slices.toList =
      st.slices.toList ++
        c.slice?.toList.map fun row => { row with id := .ofPlace st.slices.size } := by
  cases c with
  | insertSlice row => exact Array.toList_push
  | _ => exact (List.append_nil _).symm

lemma sound_call {st : Storage} (h : st.strings.Sound) (c : Call) : (st.call c).strings.Sound := by
  cases c with
  | intern s => exact h.intern s
  | _ => exact h

/-! ### Many calls -/

/-- The arguments are those that were added, in order. -/
lemma args_run (st : Storage) (calls : List Call) :
    (st.run calls).args.toList = st.args.toList ++ calls.filterMap Call.arg? := by
  induction calls generalizing st with
  | nil => simp
  | cons c calls ih =>
      rw [run_cons, ih, args_call, List.append_assoc]
      cases harg : c.arg? <;> simp [harg]

/-- The slices are those that were inserted, in order, each numbered by its place. -/
lemma slices_run (st : Storage) (calls : List Call) :
    (st.run calls).slices.toList =
      st.slices.toList ++ (calls.filterMap Call.slice?).mapIdx fun n row =>
        { row with id := .ofPlace (st.slices.size + n) } := by
  induction calls generalizing st with
  | nil => simp
  | cons c calls ih =>
      have hcall := slices_call st c
      have hsize : (st.call c).slices.size = st.slices.size + c.slice?.toList.length := by
        rw [← Array.length_toList, hcall, List.length_append, List.length_map,
          Array.length_toList]
      rw [run_cons, ih, hcall, hsize, List.append_assoc]
      cases hslice : c.slice? with
      | none => simp [hslice]
      | some row =>
          rw [List.filterMap_cons_some hslice, List.mapIdx_cons]
          simp [Nat.add_assoc, Nat.add_comm 1]

lemma sound_run {st : Storage} (h : st.strings.Sound) (calls : List Call) :
    (st.run calls).strings.Sound := by
  induction calls generalizing st with
  | nil => exact h
  | cons c calls ih => exact ih (sound_call h c)

/-- The slices there are after any calls, numbered by their places. -/
lemma slices_run_initial (calls : List Call) :
    (initial.run calls).slices.toList =
      (calls.filterMap Call.slice?).mapIdx fun n row => { row with id := .ofPlace n } := by
  rw [slices_run]
  simp [initial]

lemma slicesInPlace_run (calls : List Call) : (initial.run calls).SlicesInPlace := by
  intro n row hrow
  rw [← Array.getElem?_toList, slices_run_initial, List.getElem?_mapIdx] at hrow
  obtain ⟨given, -, rfl⟩ := Option.map_eq_some_iff.mp hrow
  rfl

end Storage

end AtomTimeline
