import AtomTimeline.Proofs.Tables.Operations
import AtomTimeline.Proofs.Lists.FirstAppearance

/-!
The numbers of interned strings, in whatever order and however often they are interned.

* `StringPool.internAll` interns strings one after the other. `StringPool.Lists`: a pool is sound
  and has just the strings that were interned, and the empty one in front, in the order of their
  first appearance; `StringPool.Lists.intern` is the step and `StringPool.Lists.internAll` the run.
* `StringPool.Lists.numbers_iff`: so the number of a string is its place among them, as far as a
  word holds it.
* `Storage.strings_run`: whatever else is done to the tables, their pool is the one that has the
  strings interned.
* `StringPool.internAll_initial`: what all this says of the pool that is new, as long as there are
  no more strings than numbers.
-/

namespace AtomTimeline

namespace StringPool

/-! ### The order of first appearance -/

/-- Interns strings one after the other. -/
def internAll (pool : StringPool) : List String → List StringId × StringPool
  | [] => ([], pool)
  | s :: calls =>
    let (id, pool) := pool.intern s
    let (ids, pool) := internAll pool calls
    (id :: ids, pool)

/-- The number of a string, by its place among those that were interned, each at its first
appearance. -/
def place (calls : List String) (s : String) : StringId :=
  .ofPlace (("" :: calls).eraseDups.idxOf s)

/-- The pool has just the strings that were interned, each at its first appearance. -/
structure Lists (pool : StringPool) (calls : List String) : Prop where
  sound : pool.Sound
  strings_eq : pool.strings.toList = ("" :: calls).eraseDups

variable {pool : StringPool} {calls : List String}

lemma lists_initial : initial.Lists [] := ⟨sound_initial, rfl⟩

/-- What is listed keeps its place. -/
lemma place_append {s : String} (h : s ∈ "" :: calls) (more : List String) :
    place (calls ++ more) s = place calls s := by
  rw [place, place, ← List.cons_append, idxOf_eraseDups_append h]

lemma place_empty (calls : List String) : place calls "" = .empty := by
  rw [place, List.eraseDups_cons, List.idxOf_cons_self]
  rfl

namespace Lists

/-- A string that was interned is listed under the number of its place, and no other string is
listed. -/
lemma numbers_iff (h : pool.Lists calls) {id : StringId} {s : String} :
    pool.Numbers id s ↔ s ∈ "" :: calls ∧ id = place calls s := by
  have hplace : s ∈ "" :: calls → pool.Numbers (place calls s) s := by
    intro hs
    have hmem : s ∈ ("" :: calls).eraseDups := List.mem_eraseDups.mpr hs
    refine (h.sound s _).mpr ⟨_, ?_, rfl⟩
    rw [← Array.getElem?_toList, h.strings_eq,
      List.getElem?_eq_getElem (List.idxOf_lt_length_of_mem hmem), List.getElem_idxOf]
  constructor
  · intro hid
    obtain ⟨n, hn, -⟩ := (h.sound s id).mp hid
    rw [← Array.getElem?_toList, h.strings_eq] at hn
    have hs : s ∈ "" :: calls := List.mem_eraseDups.mp (List.mem_of_getElem? hn)
    have hsame := hplace hs
    rw [Numbers, hid] at hsame
    exact ⟨hs, Option.some.inj hsame⟩
  · rintro ⟨hs, rfl⟩
    exact hplace hs

lemma numbers_place (h : pool.Lists calls) {s : String} (hs : s ∈ "" :: calls) :
    pool.Numbers (place calls s) s := h.numbers_iff.mpr ⟨hs, rfl⟩

lemma size_le (h : pool.Lists calls) : pool.strings.size ≤ calls.length + 1 := by
  rw [← Array.length_toList, h.strings_eq]
  exact (eraseDups_sublist _).length_le

/-- As long as there are fewer calls than numbers, a string that was interned is behind the number
of its place. -/
lemma holds_iff (h : pool.Lists calls) (hfits : calls.length < 2 ^ 32) {id : StringId}
    {s : String} :
    pool.Holds id s ↔ s ∈ "" :: calls ∧ id = place calls s := by
  have hsize := h.size_le
  rw [h.sound.holds_iff (by omega), h.numbers_iff]

/-- Different strings have different places. -/
lemma place_inj (h : pool.Lists calls) (hfits : calls.length < 2 ^ 32) {r s : String}
    (hr : r ∈ "" :: calls) (hs : s ∈ "" :: calls) : place calls r = place calls s ↔ r = s := by
  refine ⟨fun hsame => ?_, fun hsame => by rw [hsame]⟩
  have hheld : pool.Holds (place calls r) r := (h.holds_iff hfits).mpr ⟨hr, rfl⟩
  have hother : pool.Holds (place calls s) s := (h.holds_iff hfits).mpr ⟨hs, rfl⟩
  rw [hsame, Holds, hother] at hheld
  exact (Option.some.inj hheld).symm

/-- **One string more** gets its place, behind those that are there if it is new. -/
lemma intern (h : pool.Lists calls) (s : String) :
    (pool.intern s).1 = place (calls ++ [s]) s ∧ (pool.intern s).2.Lists (calls ++ [s]) := by
  have hlists : (pool.intern s).2.Lists (calls ++ [s]) := by
    refine ⟨h.sound.intern s, ?_⟩
    rw [← List.cons_append, eraseDups_append_singleton, ← h.strings_eq]
    cases hs : pool.index[s]? with
    | some id =>
        have hmem : s ∈ pool.strings.toList := by
          rw [h.strings_eq]
          exact List.mem_eraseDups.mpr (h.numbers_iff.mp hs).1
        rw [intern_of_known hs, if_pos (List.contains_iff_mem.mpr hmem)]
    | none =>
        have hnew : ¬ s ∈ pool.strings.toList := by
          intro hmem
          rw [h.strings_eq, List.mem_eraseDups] at hmem
          have hlisted := h.numbers_place hmem
          rw [Numbers, hs] at hlisted
          cases hlisted
        rw [intern_of_new hs, if_neg (mt List.contains_iff_mem.mp hnew), Array.toList_push]
  exact ⟨(hlists.numbers_iff.mp (numbers_intern pool s)).2, hlists⟩

/-- **Many strings more** get their places. -/
theorem internAll {earlier : List String} (h : pool.Lists earlier) (calls : List String) :
    (pool.internAll calls).1 = calls.map (place (earlier ++ calls)) ∧
      (pool.internAll calls).2.Lists (earlier ++ calls) := by
  induction calls generalizing pool earlier with
  | nil => exact ⟨rfl, by rwa [List.append_nil]⟩
  | cons s calls ih =>
      obtain ⟨hfirst, hlists⟩ := h.intern s
      obtain ⟨hrest, hall⟩ := ih hlists
      rw [List.append_assoc, List.singleton_append] at hrest hall
      refine ⟨?_, hall⟩
      have hkept : place (earlier ++ s :: calls) s = (pool.intern s).1 := by
        have hmem : s ∈ "" :: (earlier ++ [s]) := by simp
        rw [hfirst, ← place_append hmem calls, List.append_assoc, List.singleton_append]
      rw [StringPool.internAll, List.map_cons, hkept, ← hrest]

end Lists

lemma extends_internAll (pool : StringPool) (calls : List String) :
    pool.Extends (pool.internAll calls).2 := by
  induction calls generalizing pool with
  | nil => exact .refl pool
  | cons s calls ih => exact (extends_intern pool s).trans (ih (pool.intern s).2)

end StringPool

/-! ### Strings of the tables -/

namespace Storage

/-- The string a call interns. -/
def Call.string? : Call → Option String
  | .intern s => some s
  | _ => none

/-- Of all calls, the pool is changed by those that intern. -/
lemma strings_run (st : Storage) (calls : List Call) :
    (st.run calls).strings = (st.strings.internAll (calls.filterMap Call.string?)).2 := by
  induction calls generalizing st with
  | nil => rfl
  | cons c calls ih =>
      rw [run_cons, ih]
      cases c <;> rfl

end Storage

/-! ### The pool that was new -/

namespace StringPool

/-- **The numbers of interned strings.** Numbers are words of 32 bits, and fewer than `2 ^ 32 - 1`
strings are interned. Then two strings get the same number if and only if they are equal. The number
is the place of the string among those interned, each at its first appearance, behind the empty
string, which is number 0; the pool has just these. Behind the number of a string is the string, at
once and whatever is interned later; and the index lists just the strings that are held, each under
its number. And the tables, whatever else is done to them, hold the pool of the strings interned. -/
theorem internAll_initial {calls : List String} (h : calls.length < 2 ^ 32 - 1) :
    ∃ ids pool, initial.internAll calls = (ids, pool) ∧
      ids.length = calls.length ∧
      (∀ i < calls.length, ∀ j < calls.length, ids[i]? = ids[j]? ↔ calls[i]? = calls[j]?) ∧
      ids = calls.map (fun s => .ofPlace (pool.strings.toList.idxOf s)) ∧
      ids.map (fun id => id.val.toNat) = calls.map (fun s => pool.strings.toList.idxOf s) ∧
      pool.strings.toList = ("" :: calls).eraseDups ∧
      (pool.strings.toList.Pairwise fun r s => ("" :: calls).idxOf r < ("" :: calls).idxOf s) ∧
      (∀ i : ℕ, calls[i]? = some "" → ids[i]? = some .empty) ∧
      pool.intern "" = (.empty, pool) ∧
      ids.map pool.get? = calls.map some ∧
      (∀ s : String, (pool.intern s).2.get? (pool.intern s).1 = some s) ∧
      (∀ (later : List String) (id : StringId) (s : String),
        pool.get? id = some s → (pool.internAll later).2.get? id = some s) ∧
      (∀ (s : String) (id : StringId), pool.index[s]? = some id ↔ pool.get? id = some s) ∧
      ∀ tableCalls : List Storage.Call, tableCalls.filterMap Storage.Call.string? = calls →
        ∃ st, Storage.initial.run tableCalls = st ∧ st.strings = pool ∧
          ids.map st.text = calls := by
  obtain ⟨hids, hlists⟩ := lists_initial.internAll calls
  rw [List.nil_append] at hids hlists
  generalize hpool : (initial.internAll calls).2 = pool at hlists
  have hrun : initial.internAll calls = (calls.map (place calls), pool) := Prod.ext hids hpool
  have hfits : calls.length < 2 ^ 32 := by omega
  have hsize := hlists.size_le
  have hheld : ∀ s ∈ calls, pool.Holds (place calls s) s := fun s hs =>
    (hlists.holds_iff hfits).mpr ⟨List.mem_cons_of_mem "" hs, rfl⟩
  refine ⟨_, pool, hrun, List.length_map _, fun i hi j hj => ?_, ?_, ?_, hlists.strings_eq, ?_,
    fun i hi => ?_, ?_, ?_, fun s => ?_, fun later id s hs => extends_internAll pool later id s hs,
    fun s id => (hlists.sound.holds_iff (by omega)).symm, fun tableCalls hcalls => ?_⟩
  · rw [List.getElem?_map, List.getElem?_map, List.getElem?_eq_getElem hi,
      List.getElem?_eq_getElem hj, Option.map_some, Option.map_some, Option.some.injEq,
      Option.some.injEq]
    exact hlists.place_inj hfits (List.mem_cons_of_mem "" (List.getElem_mem hi))
      (List.mem_cons_of_mem "" (List.getElem_mem hj))
  · exact List.map_congr_left fun s _ => by rw [place, hlists.strings_eq]
  · rw [List.map_map]
    refine List.map_congr_left fun s hs => ?_
    have hmem : s ∈ pool.strings.toList := by
      rw [hlists.strings_eq]
      exact List.mem_eraseDups.mpr (List.mem_cons_of_mem "" hs)
    have hlt := List.idxOf_lt_length_of_mem hmem
    rw [Array.length_toList] at hlt
    rw [Function.comp_apply, place, ← hlists.strings_eq, StringId.toNat_ofPlace_of_lt (by omega)]
  · rw [hlists.strings_eq]
    exact pairwise_eraseDups _
  · rw [List.getElem?_map, hi, Option.map_some, place_empty]
  · rw [intern_of_known (hlists.numbers_place List.mem_cons_self), place_empty]
  · rw [List.map_map]
    exact List.map_congr_left hheld
  · have hnext := (hlists.intern s).2
    have hmore := hnext.size_le
    rw [List.length_append, List.length_singleton] at hmore
    exact (hnext.sound.holds_iff (by omega)).mpr (numbers_intern pool s)
  · have hstrings : (Storage.initial.run tableCalls).strings = pool := by
      rw [Storage.strings_run, hcalls, ← hpool]
      rfl
    refine ⟨_, rfl, hstrings, ?_⟩
    rw [List.map_map]
    refine (List.map_congr_left fun s hs => ?_).trans (List.map_id _)
    exact Storage.text_of_holds (hstrings ▸ hheld s hs)

/-- A string that is interned again gets the number it has, and the empty one gets number 0. -/
theorem internAll_initial_of_repeated :
    ["b", "", "a", "b"].length < 2 ^ 32 - 1 ∧
      ∃ pool, initial.internAll ["b", "", "a", "b"] = ([⟨1⟩, ⟨0⟩, ⟨2⟩, ⟨1⟩], pool) ∧
        pool.strings.toList = ["", "b", "a"] := by
  have hshort : ["b", "", "a", "b"].length < 2 ^ 32 - 1 := by decide
  obtain ⟨ids, pool, hrun, -, -, hids, -, hstrings, -⟩ := internAll_initial hshort
  have hlisted : pool.strings.toList = ["", "b", "a"] := hstrings.trans (by decide)
  rw [hlisted] at hids
  have hnumbers : ids = [⟨1⟩, ⟨0⟩, ⟨2⟩, ⟨1⟩] := hids.trans (by decide)
  exact ⟨hshort, pool, hnumbers ▸ hrun, hlisted⟩

end StringPool

end AtomTimeline
