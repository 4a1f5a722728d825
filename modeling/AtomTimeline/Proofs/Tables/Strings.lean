import Mathlib.Tactic
import AtomTimeline.Timeline

/-!
Interned strings: the number of a string stays its number.

* `StringPool.Numbers`: a string is listed under a number; `StringPool.Holds`: it is the one behind
  the number; `StringPool.Issued`: there is a string behind the number. `StringPool.Sound`: the
  index of a pool lists just its strings, each under the number of its place.
* `StringPool.Sound.intern`: interning keeps a pool sound, lists the string under the number it
  gives, and every string under its number (`StringPool.Keeps`); what is behind a number stays there
  (`StringPool.Extends`). All this holds of pools of any size.
* `StringPool.Sound.holds_iff`: in a pool of no more than `2 ^ 32` strings, the string listed under
  a number is the one behind it.
* `ArgRow.Shows`: a row of the table of arguments says what an argument says, its texts being listed
  under its numbers; `Storage.insertArgs_spec`: arguments that are put into the table are shown
  there, in order, behind the rows that were there, and nothing else changes but the strings.
-/

namespace AtomTimeline

/-! ### Pools -/

namespace StringId

lemma toNat_ofPlace (n : ℕ) : (ofPlace n).val.toNat = n % 2 ^ 32 := UInt32.toNat_ofNat'

lemma toNat_ofPlace_le (n : ℕ) : (ofPlace n).val.toNat ≤ n := by
  rw [toNat_ofPlace]
  exact Nat.mod_le n _

lemma toNat_ofPlace_of_lt {n : ℕ} (h : n < 2 ^ 32) : (ofPlace n).val.toNat = n := by
  rw [toNat_ofPlace, Nat.mod_eq_of_lt h]

lemma ofPlace_toNat (id : StringId) : ofPlace id.val.toNat = id := by
  rw [ofPlace, UInt32.ofNat_toNat]

end StringId

namespace StringPool

/-- The string is the one behind the number. -/
def Holds (pool : StringPool) (id : StringId) (s : String) : Prop := pool.get? id = some s

/-- The string is listed under the number: this is what interning gives. -/
def Numbers (pool : StringPool) (id : StringId) (s : String) : Prop := pool.index[s]? = some id

/-- There is a string behind the number. -/
def Issued (pool : StringPool) (id : StringId) : Prop := id.val.toNat < pool.strings.size

/-- The index lists the strings of the pool, each under the number of its place. -/
def Sound (pool : StringPool) : Prop :=
  ∀ s id, pool.Numbers id s ↔ ∃ n, pool.strings[n]? = some s ∧ id = .ofPlace n

/-- Every string is still behind its number. -/
def Extends (pool grown : StringPool) : Prop := ∀ id s, pool.Holds id s → grown.Holds id s

/-- Every string is still listed under its number, and there are no fewer strings. -/
structure Keeps (pool grown : StringPool) : Prop where
  numbers {id : StringId} {s : String} : pool.Numbers id s → grown.Numbers id s
  size_le : pool.strings.size ≤ grown.strings.size

variable {pool : StringPool}

lemma Issued.exists_holds {id : StringId} (h : pool.Issued id) : ∃ s, pool.Holds id s :=
  ⟨_, Array.getElem?_eq_getElem h⟩

lemma Extends.refl (pool : StringPool) : pool.Extends pool := fun _ _ h => h

lemma Extends.trans {grown last : StringPool} (h : pool.Extends grown) (h' : grown.Extends last) :
    pool.Extends last := fun id s hs => h' id s (h id s hs)

lemma Keeps.refl (pool : StringPool) : pool.Keeps pool := ⟨id, le_rfl⟩

lemma Keeps.trans {grown last : StringPool} (h : pool.Keeps grown) (h' : grown.Keeps last) :
    pool.Keeps last := ⟨fun hs => h'.numbers (h.numbers hs), h.size_le.trans h'.size_le⟩

namespace Sound

variable {id : StringId} {s : String} (h : pool.Sound)
include h

/-- Some string is behind every number that is given. -/
lemma issued (hs : pool.Numbers id s) : pool.Issued id := by
  obtain ⟨n, hn, rfl⟩ := (h s id).1 hs
  obtain ⟨hlt, -⟩ := Array.getElem?_eq_some_iff.1 hn
  exact lt_of_le_of_lt (StringId.toNat_ofPlace_le n) hlt

lemma numbers_of_holds (hs : pool.Holds id s) : pool.Numbers id s :=
  (h s id).2 ⟨id.val.toNat, hs, id.ofPlace_toNat.symm⟩

/-- As long as there are no more strings than numbers, the string listed under a number is the one
behind it. -/
theorem holds_iff (hsize : pool.strings.size ≤ 2 ^ 32) : pool.Holds id s ↔ pool.Numbers id s := by
  refine ⟨h.numbers_of_holds, fun hs => ?_⟩
  obtain ⟨n, hn, rfl⟩ := (h s id).1 hs
  obtain ⟨hlt, -⟩ := Array.getElem?_eq_some_iff.1 hn
  rw [Holds, get?, StringId.toNat_ofPlace_of_lt (by omega), hn]

/-- A string that is not listed is not in the pool. -/
lemma ne_of_index_eq_none (hs : pool.index[s]? = none) (n : ℕ) : pool.strings[n]? ≠ some s := by
  intro hn
  have hlisted : pool.Numbers (.ofPlace n) s := (h s _).2 ⟨n, hn, rfl⟩
  rw [Numbers, hs] at hlisted
  cases hlisted

end Sound

lemma sound_initial : initial.Sound := by
  intro s id
  rw [Numbers, initial, Std.HashMap.getElem?_insert]
  by_cases hs : s = ""
  · subst hs
    constructor
    · intro hid
      have hempty : .empty = id := by simpa using hid
      exact ⟨0, rfl, hempty.symm⟩
    · rintro ⟨_ | n, hn, rfl⟩
      · rfl
      · simp at hn
  · have hne : ¬ "" = s := fun h => hs h.symm
    constructor
    · intro hid
      simp [hne] at hid
    · rintro ⟨_ | n, hn, rfl⟩
      · exact absurd (Option.some.inj hn) hne
      · simp at hn

lemma intern_of_known {s : String} {id : StringId} (hs : pool.Numbers id s) :
    pool.intern s = (id, pool) := by
  rw [Numbers] at hs
  simp only [intern, hs]

lemma intern_of_new {s : String} (hs : pool.index[s]? = none) :
    pool.intern s = (.ofPlace pool.strings.size,
      { strings := pool.strings.push s
        index := pool.index.insert s (.ofPlace pool.strings.size) }) := by
  simp only [intern, hs]

/-- A string that was interned is listed under the number that was given. -/
lemma numbers_intern (pool : StringPool) (s : String) :
    (pool.intern s).2.Numbers (pool.intern s).1 s := by
  cases hs : pool.index[s]? with
  | some id => rwa [intern_of_known hs]
  | none =>
      rw [intern_of_new hs, Numbers]
      exact Std.HashMap.getElem?_insert_self

lemma keeps_intern (pool : StringPool) (s : String) : pool.Keeps (pool.intern s).2 := by
  cases hs : pool.index[s]? with
  | some id =>
      rw [intern_of_known hs]
      exact .refl pool
  | none =>
      rw [intern_of_new hs]
      refine ⟨fun {id r} hr => ?_, by simp⟩
      have hne : ¬ s = r := by
        rintro rfl
        rw [Numbers, hs] at hr
        cases hr
      rw [Numbers, Std.HashMap.getElem?_insert, if_neg (by simpa using hne)]
      exact hr

/-- The pool holds its strings as before, and perhaps one more behind them. -/
lemma extends_intern (pool : StringPool) (s : String) : pool.Extends (pool.intern s).2 := by
  intro id r hr
  cases hs : pool.index[s]? with
  | some found => rwa [intern_of_known hs]
  | none =>
      obtain ⟨hlt, -⟩ := Array.getElem?_eq_some_iff.1 hr
      rw [intern_of_new hs, Holds, get?, Array.getElem?_push_lt hlt,
        ← Array.getElem?_eq_getElem hlt]
      exact hr

/-- **Interning** keeps a pool sound. -/
theorem Sound.intern (h : pool.Sound) (s : String) : (pool.intern s).2.Sound := by
  cases hs : pool.index[s]? with
  | some id => rwa [intern_of_known hs]
  | none =>
      rw [intern_of_new hs]
      intro r id
      rw [Numbers, Std.HashMap.getElem?_insert]
      simp only [Array.getElem?_push]
      by_cases hr : s = r
      · -- the string that is pushed is nowhere else
        subst hr
        have hplace : ∀ n, (if n = pool.strings.size then some s else pool.strings[n]?) = some s ↔
            n = pool.strings.size := by
          intro n
          by_cases hn : n = pool.strings.size
          · simp [hn]
          · simp [hn, h.ne_of_index_eq_none hs n]
        simp only [hplace, beq_self_eq_true, if_true, Option.some.injEq, exists_eq_left, eq_comm]
      · have hplace : ∀ n, (if n = pool.strings.size then some s else pool.strings[n]?) = some r ↔
            pool.strings[n]? = some r := by
          intro n
          by_cases hn : n = pool.strings.size
          · simp [hn, hr]
          · simp [hn]
        simp only [hplace, beq_iff_eq, hr, if_false]
        exact h r id

end StringPool

/-! ### Values and rows -/

/-- A stored value says what was read: its text is listed under its number, of its bytes it has the
length. -/
def Value.Shows (pool : StringPool) (stored : StoredValue) (read : ReadValue) : Prop :=
  stored.map some id = read.map (fun s => pool.index[s]?) List.length

/-- A row of the table says what an argument of a slice says. -/
structure ArgRow.Shows (pool : StringPool) (row : ArgRow) (slice : SliceId) (arg : Arg) : Prop where
  slice_eq : row.slice = slice
  flatKey : pool.Numbers row.flatKey arg.key.flat
  key : pool.Numbers row.key arg.key.full
  value : row.value.Shows pool arg.value

lemma Value.Shows.mono {pool grown : StringPool} (hkeeps : pool.Keeps grown) {stored : StoredValue}
    {read : ReadValue} (h : stored.Shows pool read) : stored.Shows grown read := by
  cases stored <;> cases read <;> simp only [Value.Shows, Value.map, Value.string.injEq,
    Value.int.injEq, Value.uint.injEq, Value.real.injEq, Value.pointer.injEq, Value.bool.injEq,
    Value.bytes.injEq, reduceCtorEq] at h ⊢ <;> first | exact h | exact (hkeeps.numbers h.symm).symm

lemma ArgRow.Shows.mono {pool grown : StringPool} (hkeeps : pool.Keeps grown) {row : ArgRow}
    {slice : SliceId} {arg : Arg} (h : row.Shows pool slice arg) : row.Shows grown slice arg :=
  ⟨h.slice_eq, hkeeps.numbers h.flatKey, hkeeps.numbers h.key, h.value.mono hkeeps⟩

namespace Storage

variable {st : Storage}

lemma intern_eq (st : Storage) (s : String) :
    st.intern s = ((st.strings.intern s).1, { st with strings := (st.strings.intern s).2 }) := rfl

lemma text_of_holds {id : StringId} {s : String} (h : st.strings.Holds id s) : st.text id = s := by
  rw [text, h, Option.getD_some]

/-- The text under a number reads back, as long as there are no more texts than numbers. -/
lemma text_of_numbers (h : st.strings.Sound) (hsize : st.strings.strings.size ≤ 2 ^ 32)
    {id : StringId} {s : String} (hs : st.strings.Numbers id s) : st.text id = s :=
  text_of_holds ((h.holds_iff hsize).2 hs)

/-- A stored value reads back as what was read, less the bytes themselves. -/
lemma resolve_of_shows (h : st.strings.Sound) (hsize : st.strings.strings.size ≤ 2 ^ 32)
    {stored : StoredValue} {read : ReadValue} (hshows : stored.Shows st.strings read) :
    st.resolve stored = read.map id List.length := by
  cases stored <;> cases read <;> simp only [Value.Shows, Value.map, Value.string.injEq,
    Value.int.injEq, Value.uint.injEq, Value.real.injEq, Value.pointer.injEq, Value.bool.injEq,
    Value.bytes.injEq, id_eq, reduceCtorEq] at hshows <;> simp [resolve, Value.map, hshows]
  exact text_of_numbers h hsize hshows.symm

/-- Storing a value changes the strings alone, and the stored value says what was read. -/
lemma store_spec (h : st.strings.Sound) (v : ReadValue) :
    ∃ stored pool, st.store v = (stored, { st with strings := pool }) ∧ pool.Sound ∧
      st.strings.Keeps pool ∧ st.strings.Extends pool ∧ stored.Shows pool v := by
  cases v with
  | string s =>
      exact ⟨_, _, rfl, h.intern s, StringPool.keeps_intern _ s, StringPool.extends_intern _ s,
        congrArg Value.string (StringPool.numbers_intern _ s).symm⟩
  | int v => exact ⟨_, _, rfl, h, .refl _, .refl _, rfl⟩
  | uint v => exact ⟨_, _, rfl, h, .refl _, .refl _, rfl⟩
  | real bits => exact ⟨_, _, rfl, h, .refl _, .refl _, rfl⟩
  | pointer address => exact ⟨_, _, rfl, h, .refl _, .refl _, rfl⟩
  | bool v => exact ⟨_, _, rfl, h, .refl _, .refl _, rfl⟩
  | null => exact ⟨_, _, rfl, h, .refl _, .refl _, rfl⟩
  | bytes b => exact ⟨_, _, rfl, h, .refl _, .refl _, rfl⟩

/-- Putting an argument into the table adds one row that shows it, and else changes the strings
alone. -/
lemma insertArg_spec (h : st.strings.Sound) (slice : SliceId) (arg : Arg) :
    ∃ row pool, st.insertArg slice arg = { st with strings := pool, args := st.args.push row } ∧
      pool.Sound ∧ st.strings.Keeps pool ∧ st.strings.Extends pool ∧ row.Shows pool slice arg := by
  obtain ⟨stored, pool, hstore, hsound, hkeeps, hext, hshows⟩ := store_spec h arg.value
  have hflat := pool.numbers_intern arg.key.flat
  have hkeeps₁ := pool.keeps_intern arg.key.flat
  have hkey := (pool.intern arg.key.flat).2.numbers_intern arg.key.full
  have hkeeps₂ := (pool.intern arg.key.flat).2.keeps_intern arg.key.full
  refine ⟨⟨slice, (pool.intern arg.key.flat).1, ((pool.intern arg.key.flat).2.intern
    arg.key.full).1, stored⟩, _, ?_, (hsound.intern _).intern _,
    (hkeeps.trans hkeeps₁).trans hkeeps₂,
    (hext.trans (StringPool.extends_intern _ _)).trans (StringPool.extends_intern _ _),
    rfl, hkeeps₂.numbers hflat, hkey, (hshows.mono hkeeps₁).mono hkeeps₂⟩
  simp only [insertArg, hstore, intern_eq, addArg]

/-- Putting arguments into the table adds the rows that show them, in order, and else changes the
strings alone. -/
theorem insertArgs_spec (h : st.strings.Sound) (slice : SliceId) (args : List Arg) :
    ∃ rows pool, st.insertArgs slice args =
        { st with strings := pool, args := st.args ++ rows.toArray } ∧
      pool.Sound ∧ st.strings.Keeps pool ∧ st.strings.Extends pool ∧
      List.Forall₂ (fun row arg => row.Shows pool slice arg) rows args := by
  induction args generalizing st with
  | nil => exact ⟨[], st.strings, by simp [insertArgs], h, .refl _, .refl _, .nil⟩
  | cons arg args ih =>
      obtain ⟨row, pool, hrow, hsound, hkeeps, hext, hshows⟩ := insertArg_spec h slice arg
      obtain ⟨rows, last, hrows, hsound', hkeeps', hext', hshows'⟩ :=
        @ih { st with strings := pool, args := st.args.push row } hsound
      refine ⟨row :: rows, last, ?_, hsound', hkeeps.trans hkeeps', hext.trans hext',
        .cons (hshows.mono hkeeps') hshows'⟩
      rw [insertArgs, List.foldl_cons, hrow, ← insertArgs, hrows]
      simp

lemma keeps_store (st : Storage) (v : ReadValue) : st.strings.Keeps (st.store v).2.strings := by
  cases v with
  | string s => exact StringPool.keeps_intern _ s
  | _ => exact .refl _

lemma keeps_insertArg (st : Storage) (slice : SliceId) (arg : Arg) :
    st.strings.Keeps (st.insertArg slice arg).strings :=
  ((keeps_store st arg.value).trans (StringPool.keeps_intern _ arg.key.flat)).trans
    (StringPool.keeps_intern _ arg.key.full)

lemma keeps_insertArgs (st : Storage) (slice : SliceId) (args : List Arg) :
    st.strings.Keeps (st.insertArgs slice args).strings := by
  induction args generalizing st with
  | nil => exact .refl _
  | cons arg args ih => exact (keeps_insertArg st slice arg).trans (ih _)

/-- Arguments that were read are never fatal: offered, they are put into the table. -/
theorem insertOffers_map_arg (st : Storage) (slice : SliceId) (args : List Arg) :
    st.insertOffers slice (args.map .arg) = (none, st.insertArgs slice args) := by
  induction args generalizing st with
  | nil => rfl
  | cons arg args ih =>
      rw [List.map_cons, insertOffers]
      exact ih _

end Storage

end AtomTimeline
