import Mathlib.Data.List.Basic
import Mathlib.Tactic.Common

/-!
# Runs of a machine

A machine is a function `step : S → A → S`. `reached` lists the states a run goes through, its first
one included, and `Along` says that every step of a run meets a condition on the state it starts
from.

`forall_reached_iff` is the rule for a safety property that a machine keeps exactly under such a
condition: it is enough to look at one step, from a state that has the property and satisfies an
invariant of the machine.

The invariant is kept by every step, and the property is not. So the run goes on from states without
the property too, and there the condition may be met or not: the rule only has to find the first
step at which either of the two is lost.
-/

namespace Interaction

variable {S : Type*} {A : Type*}

/-- The states a run goes through. -/
def reached (step : S → A → S) : S → List A → List S
  | c, [] => [c]
  | c, a :: as => c :: reached step (step c a) as

/-- Every step of the run meets the condition. -/
def Along (step : S → A → S) (ok : S → A → Prop) : S → List A → Prop
  | _, [] => True
  | c, a :: as => ok c a ∧ Along step ok (step c a) as

variable {step : S → A → S} {ok : S → A → Prop} {I P : S → Prop}

theorem mem_reached_self (c : S) (as : List A) : c ∈ reached step c as := by
  cases as with
  | nil => exact List.mem_singleton_self c
  | cons a as => exact List.mem_cons_self

/-- **Safety under a condition.** The property holds in every state of a run exactly if every step
meets the condition. -/
theorem forall_reached_iff (hI : ∀ c a, I c → I (step c a))
    (hstep : ∀ c a, I c → P c → (P (step c a) ↔ ok c a)) {c : S} (hc : I c) (h : P c)
    (as : List A) : (∀ v ∈ reached step c as, P v) ↔ Along step ok c as := by
  induction as generalizing c with
  | nil => exact iff_of_true (List.forall_mem_singleton.mpr h) trivial
  | cons a as ih =>
    rw [reached, List.forall_mem_cons, Along, and_iff_right h]
    by_cases hok : ok c a
    · rw [and_iff_right hok]
      exact ih (hI c a hc) ((hstep c a hc h).mpr hok)
    · refine iff_of_false (fun hall ↦ hok ?_) fun hboth ↦ hok hboth.1
      exact (hstep c a hc h).mp (hall _ (mem_reached_self _ _))

end Interaction
