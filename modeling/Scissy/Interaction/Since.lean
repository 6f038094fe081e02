import Mathlib.Data.List.Basic
import Mathlib.Tactic.Common

/-!
# Since

A past-time operator on histories, oldest event first. `Since P Q` is what a flag says that one
kind of event raises and another kind lowers: there was a `P`, and no `Q` after it.

A machine has such a flag when each of its steps raises or lowers it as `since_cons` does. The
equation looks at the *first* event, so it fits machines that are run from the front: whatever the
flag was before, after a history it is up exactly if the history raised it since, or it was up and
nothing in the history lowered it.
-/

namespace Interaction

variable {α : Type} {P Q : α → Prop}

/-- Some event satisfies `P`, and no later one satisfies `Q`. -/
def Since (P Q : α → Prop) (history : List α) : Prop :=
  ∃ before x after, history = before ++ x :: after ∧ P x ∧ ∀ y ∈ after, ¬ Q y

theorem not_since_nil : ¬ Since P Q [] := by
  rintro ⟨before, x, after, h, -⟩
  cases List.append_eq_nil_iff.mp h.symm |>.2

theorem since_cons {x : α} {history : List α} :
    Since P Q (x :: history) ↔ (P x ∧ ∀ y ∈ history, ¬ Q y) ∨ Since P Q history := by
  constructor
  · rintro ⟨before, y, after, h, hP, hQ⟩
    rcases List.cons_eq_append_iff.mp h with ⟨rfl, h⟩ | ⟨before, rfl, rfl⟩
    · obtain ⟨rfl, rfl⟩ := List.cons.inj h
      exact Or.inl ⟨hP, hQ⟩
    · exact Or.inr ⟨before, y, after, rfl, hP, hQ⟩
  · rintro (⟨hP, hQ⟩ | ⟨before, y, after, rfl, hP, hQ⟩)
    · exact ⟨[], x, history, rfl, hP, hQ⟩
    · exact ⟨x :: before, y, after, rfl, hP, hQ⟩

/-- The step of a flag: it is up after an event if the event raises it, or if it was up and the
event does not lower it. -/
theorem since_step {x : α} {history : List α} {up up' : Prop} (h : up' ↔ P x ∨ up ∧ ¬ Q x) :
    Since P Q history ∨ (up' ∧ ∀ y ∈ history, ¬ Q y) ↔
      Since P Q (x :: history) ∨ (up ∧ ∀ y ∈ x :: history, ¬ Q y) := by
  rw [since_cons, List.forall_mem_cons, h]
  tauto

end Interaction
