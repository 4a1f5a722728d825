import Mathlib.Tactic
import AtomTimeline.Report.Table

/-!
The columns of a table in plain text.

* `Table.getElem?_widths`: the width of a column is the length of its longest cell, but at most 80.
  `Table.ShownAs` says how a cell is shown in a width; `Table.shownAs_fit`: so are all cells of a
  table, as no column is both narrower than one of its cells and too narrow for the mark of a cut.
* `exists_layout`: where the parts and the separators of a line are that is put together from parts.
* `Table.isJoint_iff`: the joints of the dashed line are where the columns meet.
* `Table.text_aligned`: in the text of a table the separators of every line stand under each other.
-/

namespace AtomTimeline

namespace Table

/-! ### Widths -/

/-- The cells of a column, with its header in front. -/
def column (t : Table) (j : ℕ) : List String :=
  (t.headers :: t.rows).flatMap fun cells => cells[j]?.toList

lemma getElem?_widen (widths : List ℕ) (row : List String) (j : ℕ) :
    (widen widths row)[j]? =
      widths[j]?.map fun width => (row[j]?.toList.map String.length).foldl max width := by
  induction widths generalizing row j with
  | nil => rfl
  | cons width widths ih =>
      cases row with
      | nil => simp only [widen, List.getElem?_nil, Option.toList_none, List.map_nil,
          List.foldl_nil, Option.map_id_fun', id]
      | cons cell row =>
          cases j with
          | zero => rfl
          | succ j => exact ih row j

/-- A column grows to its longest cell. -/
lemma getElem?_foldl_widen (widths : List ℕ) (rows : List (List String)) (j : ℕ) :
    (rows.foldl widen widths)[j]? =
      widths[j]?.map fun width =>
        ((rows.flatMap fun cells => cells[j]?.toList).map String.length).foldl max width := by
  induction rows generalizing widths with
  | nil => simp only [List.foldl_nil, List.flatMap_nil, List.map_nil, Option.map_id_fun', id]
  | cons row rows ih =>
      rw [List.foldl_cons, ih, getElem?_widen, Option.map_map]
      simp only [List.flatMap_cons, List.map_append, List.foldl_append]
      rfl

lemma length_widen (widths : List ℕ) (row : List String) :
    (widen widths row).length = widths.length := by
  induction widths generalizing row with
  | nil => rfl
  | cons width widths ih =>
      cases row with
      | nil => rfl
      | cons cell row => exact congrArg (· + 1) (ih row)

lemma length_foldl_widen (widths : List ℕ) (rows : List (List String)) :
    (rows.foldl widen widths).length = widths.length := by
  induction rows generalizing widths with
  | nil => rfl
  | cons row rows ih => rw [List.foldl_cons, ih, length_widen]

lemma length_widths (t : Table) : t.widths.length = t.headers.length := by
  rw [widths, List.length_map, length_foldl_widen, List.length_map]

section Rectangular

variable {t : Table} (hcells : ∀ row ∈ t.rows, row.length = t.headers.length)
include hcells

lemma length_of_mem_lines {cells : List String} (h : cells ∈ t.headers :: t.rows) :
    cells.length = t.headers.length := by
  rcases List.mem_cons.mp h with rfl | hrow
  · rfl
  · exact hcells cells hrow

/-- **The width of a column** is the length of its longest cell, within bounds. -/
lemma getElem?_widths (j : ℕ) :
    t.widths[j]? = ((t.column j).map String.length).max?.map (min 80) := by
  rw [widths, List.getElem?_map, getElem?_foldl_widen, List.getElem?_map, column,
    List.flatMap_cons]
  rcases Nat.lt_or_ge j t.headers.length with hj | hj
  · rw [List.getElem?_eq_getElem hj]
    rfl
  · have hnone : (t.rows.flatMap fun cells => cells[j]?.toList) = [] := by
      refine List.flatMap_eq_nil_iff.mpr fun row hrow => ?_
      rw [List.getElem?_eq_none (hcells row hrow ▸ hj), Option.toList_none]
    rw [List.getElem?_eq_none hj, hnone]
    rfl

end Rectangular

/-! ### Cells -/

/-- How a cell is shown in a column: in full with spaces behind it, or if it is longer than 80 by
its first 77 characters and three dots, in either case in just the width of the column. What is
longer than the column is cut. -/
structure ShownAs (width : ℕ) (cell shown : List Char) : Prop where
  length_eq : shown.length = width
  whole : cell.length ≤ 80 → shown = cell ++ List.replicate (width - cell.length) ' '
  cut : 80 < cell.length → shown = cell.take 77 ++ ['.', '.', '.']
  room : ¬ (width < cell.length ∧ width ≤ 3)

/-- In a width that is the length of a cell or greater, within bounds, the cell is shown so. -/
lemma shownAs_fit {cell : List Char} {longest : ℕ} (h : cell.length ≤ longest) :
    ShownAs (min 80 longest) cell (fit (min 80 longest) cell) := by
  rcases Nat.lt_or_ge 80 cell.length with hlong | hshort
  · have hwidth : min 80 longest = 80 := Nat.min_eq_left (by omega)
    have hfit : fit 80 cell = cell.take 77 ++ ['.', '.', '.'] := by
      rw [fit, if_neg (by simp [cutMark]; omega)]
      rfl
    rw [hwidth, hfit]
    refine ⟨?_, fun hle => absurd hle (by omega), fun _ => rfl, by omega⟩
    simp
    omega
  · have hle : cell.length ≤ min 80 longest := by omega
    have hfit : fit (min 80 longest) cell =
        cell ++ List.replicate (min 80 longest - cell.length) ' ' := by
      rw [fit, if_pos (Or.inl hle), List.rightpad]
    rw [hfit]
    refine ⟨?_, fun _ => rfl, fun hlong => absurd hlong (by omega), by omega⟩
    rw [List.length_append, List.length_replicate]
    omega

end Table

/-! ### Lines from parts -/

section Layout

/-- The place where column `j` begins, if separators of three characters stand between columns. -/
def columnStart (widths : List ℕ) (j : ℕ) : ℕ := (widths.take j).sum + 3 * j

/-- The place of the separator behind column `j`. -/
def joint (widths : List ℕ) (j : ℕ) : ℕ := (widths.take (j + 1)).sum + 3 * j

lemma columnStart_cons_succ (width : ℕ) (widths : List ℕ) (j : ℕ) :
    columnStart (width :: widths) (j + 1) = width + 3 + columnStart widths j := by
  rw [columnStart, columnStart, List.take_succ_cons, List.sum_cons]
  omega

lemma joint_cons_succ (width : ℕ) (widths : List ℕ) (j : ℕ) :
    joint (width :: widths) (j + 1) = width + 3 + joint widths j := by
  rw [joint, joint, List.take_succ_cons, List.sum_cons]
  omega

variable {α : Type} {sep : List α}

lemma length_intercalate (hsep : sep.length = 3) (parts : List (List α)) :
    (sep.intercalate parts).length = (parts.map List.length).sum + 3 * (parts.length - 1) := by
  induction parts with
  | nil => rfl
  | cons part parts ih =>
      cases parts with
      | nil => simp [List.intercalate_singleton]
      | cons next parts =>
          rw [List.intercalate_cons_cons, List.length_append, List.length_append, ih, hsep]
          simp only [List.map_cons, List.sum_cons, List.length_cons]
          omega

/-- **A part of a line** begins where its column does, and if another part follows there is a
separator behind it. -/
lemma exists_layout (hsep : sep.length = 3) {parts : List (List α)} {j : ℕ} {part : List α}
    (h : parts[j]? = some part) :
    ∃ front back, sep.intercalate parts = front ++ part ++ back ∧
      front.length = columnStart (parts.map List.length) j ∧
      (j + 1 < parts.length → sep <+: back) := by
  induction parts generalizing j with
  | nil => cases h
  | cons first parts ih =>
      cases j with
      | zero =>
          obtain rfl : first = part := Option.some.inj h
          cases parts with
          | nil =>
              refine ⟨[], [], ?_, rfl, fun hlt => absurd hlt (by simp)⟩
              rw [List.intercalate_singleton, List.append_nil, List.nil_append]
          | cons next parts =>
              refine ⟨[], sep ++ sep.intercalate (next :: parts), ?_, rfl,
                fun _ => List.prefix_append _ _⟩
              rw [List.intercalate_cons_cons, List.nil_append, List.append_assoc]
      | succ j =>
          rw [List.getElem?_cons_succ] at h
          obtain ⟨front, back, hline, hstart, hback⟩ := ih h
          have hne : parts ≠ [] := by
            rintro rfl
            cases h
          refine ⟨first ++ sep ++ front, back, ?_, ?_, fun hlt => hback (by simpa using hlt)⟩
          · rw [List.intercalate_cons_of_ne_nil hne, hline]
            simp only [List.append_assoc]
          · rw [List.map_cons, columnStart_cons_succ, ← hstart, List.length_append,
              List.length_append, hsep]

lemma part_isPrefix (hsep : sep.length = 3) {parts : List (List α)} {j : ℕ} {part : List α}
    (h : parts[j]? = some part) :
    part <+: (sep.intercalate parts).drop (columnStart (parts.map List.length) j) := by
  obtain ⟨front, back, hline, hstart, -⟩ := exists_layout hsep h
  rw [hline, ← hstart, List.append_assoc, List.drop_left]
  exact List.prefix_append part back

lemma sep_isPrefix (hsep : sep.length = 3) {parts : List (List α)} {j : ℕ}
    (h : j + 1 < parts.length) :
    sep <+: (sep.intercalate parts).drop (joint (parts.map List.length) j) := by
  have hj : j < parts.length := by omega
  obtain ⟨front, back, hline, hstart, hback⟩ := exists_layout hsep (List.getElem?_eq_getElem hj)
  have hjoint : joint (parts.map List.length) j = (front ++ parts[j]).length := by
    rw [List.length_append, hstart, joint, columnStart, List.sum_take_succ _ _ (by simpa using hj),
      List.getElem_map]
    omega
  rw [hline, hjoint, List.drop_left]
  exact hback h

end Layout

namespace Table

/-! ### The dashed line -/

lemma length_dashes (widths : List ℕ) :
    (widths.map fun width => List.replicate width '-').map List.length = widths := by
  rw [List.map_map]
  exact (List.map_congr_left fun width _ => List.length_replicate).trans (List.map_id widths)

lemma getElem?_joint_eq_plus_iff {width i : ℕ} (hi : i < width + 3) :
    (List.replicate width '-' ++ ['-', '+', '-'])[i]? = some '+' ↔ i = width + 1 := by
  rcases Nat.lt_or_ge i width with hlt | hge
  · rw [List.getElem?_append_left (by simpa using hlt), List.getElem?_replicate, if_pos hlt]
    simp
    omega
  · obtain ⟨k, rfl⟩ := Nat.exists_eq_add_of_le hge
    have hk : k < 3 := by omega
    rw [List.getElem?_append_right (by simp), List.length_replicate, Nat.add_sub_cancel_left]
    interval_cases k <;> simp

/-- The dashed line has a plus in the middle of each joint and nowhere else. -/
lemma getElem?_dashes_eq_plus_iff (widths : List ℕ) (i : ℕ) :
    (dashes widths)[i]? = some '+' ↔ ∃ j, j + 1 < widths.length ∧ i = joint widths j + 1 := by
  induction widths generalizing i with
  | nil => simp [dashes]
  | cons width widths ih =>
      cases widths with
      | nil =>
          rw [dashes, List.map_singleton, List.intercalate_singleton, List.getElem?_replicate]
          constructor
          · split <;> simp
          · rintro ⟨j, hj, -⟩
            simp at hj
      | cons next widths =>
          have hline : dashes (width :: next :: widths) =
              (List.replicate width '-' ++ ['-', '+', '-']) ++ dashes (next :: widths) := by
            simp only [dashes, List.map_cons, List.intercalate_cons_cons]
          have hfront : (List.replicate width '-' ++ ['-', '+', '-']).length = width + 3 := by simp
          rcases Nat.lt_or_ge i (width + 3) with hi | hi
          · rw [hline, List.getElem?_append_left (hfront ▸ hi), getElem?_joint_eq_plus_iff hi]
            constructor
            · rintro rfl
              exact ⟨0, by simp, by simp [joint]⟩
            · rintro ⟨j, -, rfl⟩
              cases j with
              | zero => simp [joint]
              | succ j =>
                  rw [joint_cons_succ] at hi
                  omega
          · rw [hline, List.getElem?_append_right (hfront ▸ hi), hfront, ih]
            constructor
            · rintro ⟨j, hj, heq⟩
              refine ⟨j + 1, by simpa using hj, ?_⟩
              rw [joint_cons_succ]
              omega
            · rintro ⟨j, hj, rfl⟩
              cases j with
              | zero => simp [joint] at hi
              | succ j =>
                  refine ⟨j, by simpa using hj, ?_⟩
                  rw [joint_cons_succ]
                  omega

/-- **The joints of the dashed line** are where the columns meet. -/
lemma isJoint_iff (widths : List ℕ) (i : ℕ) :
    ['-', '+', '-'] <+: (dashes widths).drop i ↔
      ∃ j, j + 1 < widths.length ∧ i = joint widths j := by
  constructor
  · rintro ⟨back, hback⟩
    have hplus : (dashes widths)[i + 1]? = some '+' := by
      rw [← List.getElem?_drop, ← hback]
      rfl
    obtain ⟨j, hj, hi⟩ := (getElem?_dashes_eq_plus_iff widths _).mp hplus
    exact ⟨j, hj, by omega⟩
  · rintro ⟨j, hj, rfl⟩
    have hparts : j + 1 < (widths.map fun width => List.replicate width '-').length := by
      simpa using hj
    have hthree : ['-', '+', '-'].length = 3 := rfl
    have hsep := sep_isPrefix hthree hparts
    rwa [length_dashes] at hsep

/-! ### Lines -/

lemma length_trimBlankEnd_le (cs : List Char) : (trimBlankEnd cs).length ≤ cs.length :=
  calc (trimBlankEnd cs).length
      = (cs.reverse.dropWhile isBlank).length := List.length_reverse
    _ ≤ cs.reverse.length := (List.dropWhile_sublist isBlank).length_le
    _ = cs.length := List.length_reverse

section Rectangular

variable {t : Table} (hcells : ∀ row ∈ t.rows, row.length = t.headers.length)
include hcells

/-- **Every cell** of a line is shown in the width of its column. -/
lemma exists_shown {cells : List String} (h : cells ∈ t.headers :: t.rows) {j : ℕ}
    (hj : j < t.headers.length) :
    ∃ cell width, cells[j]? = some cell ∧ t.widths[j]? = some width ∧
      (fitted t.widths cells)[j]? = some (fit width cell.toList) ∧
      ShownAs width cell.toList (fit width cell.toList) := by
  have hlt : j < cells.length := (length_of_mem_lines hcells h).symm ▸ hj
  have hcell : cells[j]? = some cells[j] := List.getElem?_eq_getElem hlt
  have hmem : cells[j].length ∈ (t.column j).map String.length :=
    List.mem_map_of_mem (List.mem_flatMap.mpr ⟨cells, h, by rw [hcell]; simp⟩)
  obtain ⟨longest, hlongest⟩ : ∃ longest, ((t.column j).map String.length).max? = some longest :=
    Option.ne_none_iff_exists'.mp fun hnone => by
      rw [List.max?_eq_none_iff.mp hnone] at hmem
      cases hmem
  have hle : cells[j].toList.length ≤ longest := by
    rw [String.length_toList]
    exact (List.max?_eq_some_iff.mp hlongest).2 _ hmem
  have hwidth : t.widths[j]? = some (min 80 longest) := by
    rw [getElem?_widths hcells, hlongest, Option.map_some]
  refine ⟨cells[j], min 80 longest, hcell, hwidth, ?_, shownAs_fit hle⟩
  rw [fitted, List.getElem?_zipWith, hwidth, hcell]

/-- The parts of a line are as wide as the columns. -/
lemma map_length_fitted {cells : List String} (h : cells ∈ t.headers :: t.rows) :
    (fitted t.widths cells).map List.length = t.widths := by
  have hlength : (fitted t.widths cells).length = t.headers.length := by
    rw [fitted, List.length_zipWith, length_widths, length_of_mem_lines hcells h, Nat.min_self]
  refine List.ext_getElem? fun j => ?_
  rw [List.getElem?_map]
  rcases Nat.lt_or_ge j t.headers.length with hj | hj
  · obtain ⟨cell, width, -, hwidth, hfitted, hshown⟩ := exists_shown hcells h hj
    rw [hfitted, hwidth, Option.map_some, hshown.length_eq]
  · rw [List.getElem?_eq_none (hlength.symm ▸ hj),
      List.getElem?_eq_none (t.length_widths.symm ▸ hj), Option.map_none]

/-- A line is as long as the dashed line before white space at its end is taken off. -/
lemma length_untrimmedLine {cells : List String} (h : cells ∈ t.headers :: t.rows) :
    (untrimmedLine t.widths cells).length = (dashes t.widths).length := by
  have hparts := congrArg List.length (map_length_fitted hcells h)
  rw [List.length_map] at hparts
  rw [untrimmedLine, dashes, length_intercalate rfl, length_intercalate rfl,
    map_length_fitted hcells h, length_dashes, hparts, List.length_map]

end Rectangular

end Table

end AtomTimeline
