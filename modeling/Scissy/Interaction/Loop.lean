import Mathlib.Data.Nat.Init
import Mathlib.Order.Defs.LinearOrder
import Mathlib.Tactic.Common

/-!
# Loops of a shell script

`while guard; do body; done` in a script that ends at the first command that fails. The body of the
loop is a function into `Option`, with `none` for a command that fails, and the loop is run for a
number of rounds, since nothing in it says that it ends.

`Ends` says that it does, and how. There is at most one such end (`Ends.unique`), there is one if
the body makes a measure smaller (`exists_ends`), and an invariant of the body holds in it
(`Ends.invariant`).

## Two kinds of end

A loop that has failed has ended as well, in no state. So `Ends` is about an `Option`, and a script
goes on behind the loop only if there is a state. A loop that runs forever has no end of either
kind, and the number of rounds is never a part of a statement about a loop.
-/

namespace Interaction

variable {S : Type*} (guard : S → Bool) (body : S → Option S)

/-- The end of the loop within a number of rounds, which is `none` where a command has failed. -/
def whileLoop : ℕ → S → Option (Option S)
  | 0, _ => none
  | fuel + 1, s =>
    if guard s then
      match body s with
      | some s' => whileLoop fuel s'
      | none => some none
    else
      some (some s)

/-- The loop ends, in this state or by a command that fails. -/
def Ends (s : S) (r : Option S) : Prop := ∃ fuel, whileLoop guard body fuel s = some r

variable {guard body} {s s' : S} {r r' : Option S}

theorem whileLoop_done (hguard : guard s = false) (fuel : ℕ) :
    whileLoop guard body (fuel + 1) s = some (some s) := by
  rw [whileLoop, hguard]
  rfl

theorem whileLoop_failed (hguard : guard s = true) (hbody : body s = none) (fuel : ℕ) :
    whileLoop guard body (fuel + 1) s = some none := by
  rw [whileLoop, hguard, hbody]
  rfl

theorem whileLoop_again (hguard : guard s = true) (hbody : body s = some s') (fuel : ℕ) :
    whileLoop guard body (fuel + 1) s = whileLoop guard body fuel s' := by
  rw [whileLoop, hguard, hbody]
  rfl

theorem Ends.done (hguard : guard s = false) : Ends guard body s (some s) :=
  ⟨1, whileLoop_done hguard 0⟩

theorem Ends.failed (hguard : guard s = true) (hbody : body s = none) : Ends guard body s none :=
  ⟨1, whileLoop_failed hguard hbody 0⟩

theorem Ends.again (hguard : guard s = true) (hbody : body s = some s')
    (h : Ends guard body s' r) : Ends guard body s r := by
  obtain ⟨fuel, hrun⟩ := h
  exact ⟨fuel + 1, (whileLoop_again hguard hbody fuel).trans hrun⟩

/-- The rule for a property of the ends of a loop, by induction on the rounds. -/
theorem Ends.induction {motive : S → Option S → Prop}
    (done : ∀ s, guard s = false → motive s (some s))
    (failed : ∀ s, guard s = true → body s = none → motive s none)
    (again : ∀ s s' r, guard s = true → body s = some s' → motive s' r → motive s r)
    (h : Ends guard body s r) : motive s r := by
  obtain ⟨fuel, hrun⟩ := h
  induction fuel generalizing s with
  | zero => cases hrun
  | succ fuel ih =>
    cases hguard : guard s with
    | false =>
      rw [whileLoop_done hguard] at hrun
      cases hrun
      exact done s hguard
    | true =>
      cases hbody : body s with
      | none =>
        rw [whileLoop_failed hguard hbody] at hrun
        cases hrun
        exact failed s hguard hbody
      | some s' =>
        rw [whileLoop_again hguard hbody] at hrun
        exact again s s' r hguard hbody (ih hrun)

/-- More rounds change nothing. -/
theorem whileLoop_mono {n m : ℕ} (hle : n ≤ m) (h : whileLoop guard body n s = some r) :
    whileLoop guard body m s = some r := by
  induction n generalizing s m with
  | zero => cases h
  | succ n ih =>
    obtain ⟨m, rfl⟩ := Nat.exists_eq_add_of_le' (Nat.le_of_add_left_le hle)
    cases hguard : guard s with
    | false => rwa [whileLoop_done hguard] at h ⊢
    | true =>
      cases hbody : body s with
      | none => rwa [whileLoop_failed hguard hbody] at h ⊢
      | some s' =>
        rw [whileLoop_again hguard hbody] at h ⊢
        exact ih (Nat.le_of_add_le_add_right hle) h

theorem Ends.unique (h : Ends guard body s r) (h' : Ends guard body s r') : r = r' := by
  obtain ⟨n, hn⟩ := h
  obtain ⟨m, hm⟩ := h'
  rcases Nat.le_total n m with hle | hle
  · exact Option.some_inj.mp ((whileLoop_mono hle hn).symm.trans hm)
  · exact Option.some_inj.mp (hn.symm.trans (whileLoop_mono hle hm))

theorem exists_ends (measure : S → ℕ)
    (hdec : ∀ s s', guard s = true → body s = some s' → measure s' < measure s) (s : S) :
    ∃ r, Ends guard body s r := by
  induction hn : measure s using Nat.strongRecOn generalizing s with
  | ind n ih =>
    cases hguard : guard s with
    | false => exact ⟨_, .done hguard⟩
    | true =>
      cases hbody : body s with
      | none => exact ⟨_, .failed hguard hbody⟩
      | some s' =>
        obtain ⟨r, hr⟩ := ih _ (hn ▸ hdec s s' hguard hbody) s' rfl
        exact ⟨r, hr.again hguard hbody⟩

theorem Ends.invariant {I : S → Prop}
    (hround : ∀ s s', I s → guard s = true → body s = some s' → I s')
    (h : Ends guard body s r) (hs : I s) : ∀ s' ∈ r, I s' := by
  refine h.induction (motive := fun s r ↦ I s → ∀ s' ∈ r, I s') ?_ ?_ ?_ hs
  · rintro s - hs s' ⟨⟩
    exact hs
  · rintro s - - - s' ⟨⟩
  · exact fun s s' r hguard hbody ih hs ↦ ih (hround s s' hs hguard hbody)

end Interaction
