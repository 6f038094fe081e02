import Scissy.Model.World

/-!
# Statements that fail

A statement that changes a table may fail for a reason outside the tables (`Env.fault`), and a
`select` may fail as well: it delivers some rows of its result and then an error instead of the
next one. The server only asks whether there is a further row, and cannot tell an error from the
end of the result.

The server is the same program as before, and its operations have a second meaning here, in an
environment that may let a `select` fail (`FailingEnv`). As long as it does not the two meanings
agree (`run_failing_of_served`).

## Why two meanings

What a handler does when a `select` fails matters where the answer to a client is the question. For
what a request may do to the tables it does not: a `select` that fails shows less than it should,
and no check before a statement is passed because of it. Most results are about the latter, over
schedules of many requests, and they would carry an environment that they have no use for.
-/

open Interaction

namespace Scissy

/-- The environment's part in one operation, which may be a `select` that fails. -/
structure FailingEnv extends Env where
  /-- The number of rows a failing `select` delivers. -/
  served : Option ℕ := none

/-- The rows of a result that are delivered. -/
def FailingEnv.deliver {β : Type} (e : FailingEnv) (rows : List β) : List β :=
  e.served.elim rows rows.take

section Deliver

variable {β : Type} {e : FailingEnv} {rows : List β}

theorem FailingEnv.deliver_subset (e : FailingEnv) (rows : List β) : e.deliver rows ⊆ rows := by
  rw [deliver]
  cases e.served with
  | none => exact fun _ h ↦ h
  | some n => exact List.take_subset n rows

theorem FailingEnv.head?_deliver_eq_some_iff {b : β} :
    (e.deliver rows).head? = some b ↔ rows.head? = some b ∧ e.served ≠ some 0 := by
  rw [deliver]
  cases e.served with
  | none => simp
  | some n =>
    cases n with
    | zero => simp
    | succ n => cases rows <;> simp

end Deliver

/-- An operation of the server, when a `select` may fail. -/
structure FailingOp (β : Type) where
  op : Op β

/-- What an operation answers and does. -/
def FailingOp.exec : {β : Type} → Op β → FailingEnv → World → β × World
  | _, .query q, e, w => (e.deliver (q.rows e.pick w.db), w)
  | _, op, e, w => op.exec e.toEnv w

instance : Interp FailingOp FailingEnv World := ⟨fun o ↦ FailingOp.exec o.op⟩

/-- A program of the server, when a `select` may fail. -/
def failing {α : Type} (p : Prog Op α) : Prog FailingOp α := p.translate .mk

section Exec

variable (e : FailingEnv) (w : World)

@[simp] theorem failing_exec_query {β : Type} (q : Query β) :
    Interp.exec (FailingOp.mk (.query q)) e w = (e.deliver (q.rows e.pick w.db), w) := rfl

@[simp] theorem failing_exec_write (s : Write) :
    Interp.exec (FailingOp.mk (.write s)) e w = w.write e.toEnv s := rfl

end Exec

theorem failing_exec_of_served {β : Type} (op : Op β) {e : FailingEnv} (he : e.served = none)
    (w : World) : Interp.exec (FailingOp.mk op) e w = Interp.exec op e.toEnv w := by
  cases op with
  | query q =>
    rw [failing_exec_query, exec_query, FailingEnv.deliver, he]
    rfl
  | _ => rfl

/-- **Without failing `select`s** the server does what it always does. -/
theorem run_failing_of_served {α : Type} (p : Prog Op α) {env : ℕ → FailingEnv}
    (henv : ∀ n, (env n).served = none) (w : World) :
    (failing p).run env w = p.run (fun n ↦ (env n).toEnv) w := by
  induction p generalizing env w with
  | done a => rfl
  | call op next ih =>
    rw [failing, Prog.translate_call, Prog.run_call, Prog.run_call,
      failing_exec_of_served op (henv 0) w]
    exact ih _ (fun n ↦ henv (n + 1)) _

end Scissy
