import Scissy.Server.Footprint

/-!
# Requests without a session

`AUTHENTICATE_USER` is meant to end a handler with `kInvalidSession` when the cookies of the
request identify nobody. It asks the helper `userGetSession`, which copies the thread's session and
returns true whether the session has a user or not. A request without a session therefore goes on
as the user with the id `0`: `RejectsSession` never holds (`not_rejectsSession`), and what stops
such a request is a later check or a foreign key, after other writes have been made.

That no call ends so is a property of the handlers alone, whatever the operations answer, and so it
is one of the bounds of `Server/Footprint`. What is added here is an example of the damage.
-/

open Relational Interaction Interaction.Prog

namespace Scissy

/-- The cookies carry no pair of a login and a token that is stored. -/
def Database.Unauthenticated (db : Database) (cookies : Cookies) : Prop :=
  ∀ u ∈ db.users.rows, ∀ a ∈ db.usersAuths.rows, u.1 = a.userId →
    ¬ (cookies.user = some u.2.login ∧ cookies.token = some a.token)

/-- The call ends with `kInvalidSession`, and tables, directories and keys are as they were. -/
def RejectsSession (before after : World) (reply : Reply) : Prop :=
  reply.outcome.status = some .kInvalidSession ∧ after.db = before.db ∧
    after.repositories = before.repositories ∧ after.authKeys = before.authKeys

/-- **No call is ever rejected for its session**, whatever its cookies are. -/
theorem not_rejectsSession (d : Deployment) (cookies : Cookies) (isSsl : Bool) (rpc : Rpc)
    (env : ℕ → Env) (w : World) :
    ¬ RejectsSession w ((sessionHandle d cookies isSsl rpc).run env w).2
      ((sessionHandle d cookies isSsl rpc).run env w).1 :=
  fun h ↦ (sessionHandle_within d cookies isSsl rpc).run_value env w h.1

/-- Nobody creates a repository: the status is another one, and its directory stays behind. -/
theorem anonymous_repoCreate :
    let rpc := Rpc.repoCreate { name := text "r", desc := [], isPublic := false }
    let r := (sessionHandle .plain {} false rpc).run (fun _ ↦ {}) World.initial
    Reachable .plain World.initial ∧ World.initial.db.Unauthenticated {} ∧
      r.1.outcome.status = some .kFailed ∧
      (r.2.repositories (Repositories.getRepoPath .plain 1)).isSome = true ∧
      (World.initial.repositories (Repositories.getRepoPath .plain 1)).isSome = false ∧
      ¬ RejectsSession World.initial r.2 r.1 := by
  intro rpc r
  have hstatus : r.1.outcome.status = some .kFailed := rfl
  refine ⟨⟨_, .refl, rfl⟩, nofun, hstatus, rfl, rfl, fun h ↦ ?_⟩
  exact nomatch hstatus.symm.trans h.1

end Scissy
