import Mathlib.Data.List.Basic

/-!
# Prepared statements

A statement that selects rows is given its parameters and then stepped through them. While it is
running, new parameters are refused, and neither the old ones nor the cursor change. So a loop that
gives the statement its parameters again before every step still goes through the rows once, from
the first to the last (`Stmt.fetchAll_bound`).

The rows of a statement are those of the moment at which it was bound. A program that changes the
tables between two steps is outside of what this describes.
-/

namespace Relational

/-- A statement that selects rows. -/
inductive Stmt (ρ : Type)
  /-- Not stepped yet, with the rows its parameters select. -/
  | bound (rows : List ρ)
  /-- Stepped, with the rows that are left. -/
  | running (left : List ρ)

namespace Stmt

variable {ρ : Type}

/-- Give the statement parameters that select these rows; refused while it is running. -/
def bind (rows : List ρ) : Stmt ρ → Stmt ρ
  | bound _ => bound rows
  | running left => running left

/-- The rows that have not been fetched. -/
def left : Stmt ρ → List ρ
  | bound rows => rows
  | running left => left

/-- The next row, if there is one. -/
def fetch (s : Stmt ρ) : Option ρ × Stmt ρ := (s.left.head?, running s.left.tail)

theorem left_of_fetch {s s' : Stmt ρ} {row : ρ} (h : s.fetch = (some row, s')) :
    s.left = row :: s'.left ∧ ∀ rows, s'.bind rows = s' := by
  obtain ⟨hhead, rfl⟩ := Prod.mk.inj h
  exact ⟨List.eq_cons_of_mem_head? hhead, fun _ ↦ rfl⟩

/-- `while (stmt.bind(…).fetch(…))`: the rows for which the body is entered. -/
def fetchAll (rows : List ρ) (s : Stmt ρ) : List ρ :=
  match _h : (s.bind rows).fetch with
  | (none, _) => []
  | (some row, s') => row :: fetchAll rows s'
termination_by (s.bind rows).left.length
decreasing_by
  obtain ⟨hleft, hbind⟩ := left_of_fetch _h
  rw [hleft, hbind, List.length_cons]
  exact Nat.lt_succ_self _

theorem fetchAll_running (rows left : List ρ) : fetchAll rows (running left) = left := by
  induction left with
  | nil => rw [fetchAll]; rfl
  | cons row left ih => rw [fetchAll]; exact congrArg (row :: ·) ih

/-- **The loop**, over a statement that has not been stepped. -/
theorem fetchAll_bound (rows rows' : List ρ) : fetchAll rows (bound rows') = rows := by
  rw [fetchAll]
  cases rows with
  | nil => rfl
  | cons row rows => exact congrArg (row :: ·) (fetchAll_running _ rows)

end Stmt

end Relational
