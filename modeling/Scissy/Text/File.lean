import Mathlib.Algebra.Order.BigOperators.Group.List
import Mathlib.Algebra.Order.Ring.Nat
import Mathlib.Data.List.Basic
import Mathlib.Tactic.Common

/-!
# Text files

A file is the list of its elements. Two views of it are needed by anything that writes a
line-oriented file and by anything that reads one.

- `lines` splits at a separator, `unlines` terminates every line with it. They are inverse exactly
  on lines that do not contain the separator (`length_lines_unlines_eq_iff`), and otherwise there
  are more lines in the file than were written (`length_lines_unlines`).
- `overwrite` is a write at an offset: it replaces what the file has there, extends it when the
  write reaches beyond its end, and fills a gap before the write with a fixed element. Several
  writers with offsets of their own are sequences of `overwrite`s.

## Files that are about to be right

Writers that take turns leave a file that is right at the front and wrong behind. `Agrees` says so
with a number: up to there the file is what it should be, and the whole of it is not longer than it
should be. A write of a part in its place keeps that, wherever the part begins, and the next part
extends it.
-/

namespace TextFile

variable {α : Type}

/-! ## Lines -/

section Lines

/-- The file with the given lines, each one terminated. -/
def unlines (sep : α) : List (List α) → List α
  | [] => []
  | l :: ls => l ++ sep :: unlines sep ls

variable {sep : α}

@[simp] theorem unlines_nil : unlines sep [] = [] := rfl

@[simp] theorem unlines_cons (l : List α) (ls : List (List α)) :
    unlines sep (l :: ls) = l ++ sep :: unlines sep ls := rfl

variable [DecidableEq α]

/-- The lines of a file; a last line without a separator counts. -/
def lines (sep : α) : List α → List (List α)
  | [] => []
  | c :: cs =>
    if c = sep then [] :: lines sep cs
    else match lines sep cs with
      | [] => [[c]]
      | l :: ls => (c :: l) :: ls

@[simp] theorem lines_nil : lines sep [] = [] := rfl

@[simp] theorem lines_sep_cons (cs : List α) : lines sep (sep :: cs) = [] :: lines sep cs := by
  rw [lines, if_pos rfl]

theorem lines_append_sep {l : List α} (h : sep ∉ l) (cs : List α) :
    lines sep (l ++ sep :: cs) = l :: lines sep cs := by
  induction l with
  | nil => exact lines_sep_cons cs
  | cons c l ih =>
    rw [List.mem_cons, not_or] at h
    rw [List.cons_append, lines, if_neg (Ne.symm h.1), ih h.2]

theorem length_lines_append_sep (l cs : List α) :
    (lines sep (l ++ sep :: cs)).length = l.count sep + 1 + (lines sep cs).length := by
  induction l with
  | nil => rw [List.nil_append, lines_sep_cons, List.length_cons, List.count_nil]; omega
  | cons c l ih =>
    rw [List.cons_append, lines]
    split_ifs with h
    · rw [List.length_cons, ih, h, List.count_cons_self]
      omega
    · have hlen : (lines sep (l ++ sep :: cs)).length ≠ 0 := by omega
      rw [List.count_cons_of_ne h, ← ih]
      cases hl : lines sep (l ++ sep :: cs) with
      | nil => rw [hl] at hlen; exact absurd rfl hlen
      | cons l' ls' => rfl

theorem lines_unlines {ls : List (List α)} (h : ∀ l ∈ ls, sep ∉ l) :
    lines sep (unlines sep ls) = ls := by
  induction ls with
  | nil => rfl
  | cons l ls ih =>
    rw [unlines_cons, lines_append_sep (h l List.mem_cons_self),
      ih fun l' hl' ↦ h l' (List.mem_cons_of_mem l hl')]

theorem lines_append_sep_append (l cs : List α) :
    lines sep (l ++ sep :: cs) = lines sep (l ++ [sep]) ++ lines sep cs := by
  induction l with
  | nil => rw [List.nil_append, lines_sep_cons, List.nil_append, lines_sep_cons]; rfl
  | cons c l ih =>
    rw [List.cons_append, List.cons_append, lines, lines, ih]
    split_ifs with h
    · rfl
    · have hlength : (lines sep (l ++ [sep])).length = _ := length_lines_append_sep l []
      cases hl : lines sep (l ++ [sep]) with
      | nil =>
        rw [hl] at hlength
        simp at hlength
      | cons l' ls => rfl

theorem lines_unlines_eq_flatMap (ls : List (List α)) :
    lines sep (unlines sep ls) = ls.flatMap fun l ↦ lines sep (l ++ [sep]) := by
  induction ls with
  | nil => rfl
  | cons l ls ih => rw [unlines_cons, lines_append_sep_append, ih, List.flatMap_cons]

/-- What is written line by line is read with one more line for each separator in a line. -/
theorem length_lines_unlines (ls : List (List α)) :
    (lines sep (unlines sep ls)).length = ls.length + (ls.map (List.count sep)).sum := by
  induction ls with
  | nil => rfl
  | cons l ls ih =>
    rw [unlines_cons, length_lines_append_sep, ih, List.length_cons, List.map_cons, List.sum_cons]
    omega

/-- **The line discipline.** Written lines are read back exactly when none contains the
separator; it already fails on their number. -/
theorem length_lines_unlines_eq_iff (ls : List (List α)) :
    (lines sep (unlines sep ls)).length = ls.length ↔ ∀ l ∈ ls, sep ∉ l := by
  constructor
  · intro h l hl hsep
    rw [length_lines_unlines] at h
    have hcount : 0 < l.count sep := List.count_pos_iff.mpr hsep
    have hle : l.count sep ≤ (ls.map (List.count sep)).sum :=
      List.single_le_sum (fun _ _ ↦ Nat.zero_le _) _ (List.mem_map_of_mem hl)
    omega
  · intro h
    rw [lines_unlines h]

end Lines

/-! ## Writes at an offset -/

section Overwrite

variable {gap : α}

/-- The file after writing `data` at `offset`. -/
def overwrite (gap : α) (file : List α) (offset : ℕ) (data : List α) : List α :=
  file.take offset ++ List.replicate (offset - file.length) gap ++ data
    ++ file.drop (offset + data.length)

theorem length_overwrite (file : List α) (offset : ℕ) (data : List α) :
    (overwrite gap file offset data).length = max file.length (offset + data.length) := by
  simp only [overwrite, List.length_append, List.length_take, List.length_replicate,
    List.length_drop]
  omega

theorem overwrite_length (file data : List α) :
    overwrite gap file file.length data = file ++ data := by
  simp [overwrite]

theorem getElem?_overwrite (file : List α) (offset : ℕ) (data : List α) (i : ℕ) :
    (overwrite gap file offset data)[i]? =
      if i < offset then if i < file.length then file[i]? else some gap
      else if i < offset + data.length then data[i - offset]? else file[i]? := by
  rw [overwrite]
  split_ifs with hoff hfile hdata
  · rw [List.append_assoc, List.append_assoc, List.getElem?_append_left (by simp; omega),
      List.getElem?_take_of_lt hoff]
  · rw [List.append_assoc, List.getElem?_append_left (by simp; omega),
      List.getElem?_append_right (by simp; omega), List.getElem?_replicate, if_pos (by simp; omega)]
  · rw [List.getElem?_append_left (by simp; omega), List.getElem?_append_right (by simp; omega)]
    congr 1
    simp
    omega
  · rw [List.getElem?_append_right (by simp; omega), List.getElem?_drop]
    congr 1
    simp
    omega

/-! ### Several writers of one text -/

/-- The file is right up to `n`, and not longer than `whole`. What lies behind `n` may be
anything. -/
structure Agrees (whole : List α) (n : ℕ) (file : List α) : Prop where
  eq : ∀ i < n, file[i]? = whole[i]?
  le : n ≤ file.length
  length_le : file.length ≤ whole.length

variable {whole file data rest : List α} {n offset : ℕ}

theorem Agrees.overwrite (h : Agrees whole n file) (hoffset : offset ≤ whole.length)
    (hdata : whole.drop offset = data ++ rest) :
    Agrees whole n (overwrite gap file offset data) := by
  have hlength : whole.length - offset = data.length + rest.length := by
    rw [← List.length_drop, hdata, List.length_append]
  have hfile := h.length_le
  refine ⟨fun i hi ↦ ?_, ?_, ?_⟩
  · have hle := h.le
    rw [getElem?_overwrite]
    split_ifs with hoff hin hin
    · exact h.eq i hi
    · omega
    · have hget : whole[i]? = (whole.drop offset)[i - offset]? := by
        rw [List.getElem?_drop]
        congr 1
        omega
      rw [hget, hdata, List.getElem?_append_left (by omega)]
    · exact h.eq i hi
  · rw [length_overwrite]
    exact le_max_of_le_left h.le
  · rw [length_overwrite]
    omega

theorem Agrees.extend (h : Agrees whole n file) (hdata : whole.drop n = data ++ rest) :
    Agrees whole (n + data.length) (TextFile.overwrite gap file n data) := by
  have hn : n ≤ whole.length := h.le.trans h.length_le
  have hkeep : Agrees whole n (TextFile.overwrite gap file n data) := h.overwrite hn hdata
  refine ⟨fun i hi ↦ ?_, ?_, hkeep.length_le⟩
  · by_cases hin : i < n
    · exact hkeep.eq i hin
    · have hget : whole[i]? = (whole.drop n)[i - n]? := by
        rw [List.getElem?_drop]
        congr 1
        omega
      rw [getElem?_overwrite, if_neg hin, if_pos hi, hget, hdata,
        List.getElem?_append_left (by omega)]
  · rw [length_overwrite]
    exact le_max_right _ _

theorem Agrees.eq_whole (h : Agrees whole n file) (hn : whole.length ≤ n) : file = whole := by
  have hlength : file.length = whole.length :=
    le_antisymm h.length_le (hn.trans h.le)
  refine List.ext_getElem? fun i ↦ ?_
  by_cases hi : i < n
  · exact h.eq i hi
  · rw [List.getElem?_eq_none (by omega), List.getElem?_eq_none (by omega)]

end Overwrite

end TextFile
