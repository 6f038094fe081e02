import Scissy.Model.World

/-!
# The upgrade of the database

`migrate-1-2.sql` renames `users` to `users_1`, creates `users` anew, and copies the accounts
without their passwords. SQLite lets the `references` clauses of the other tables follow a table
that is renamed, so afterwards they name `users_1`, which the server knows nothing of. A write into
one of these tables is then checked against `users_1` (`Write.applyIn`).

The server is the same program as before, and its operations have a second meaning here, on a
world whose clauses need not be those of `model.sql` (`UpgradedWorld`). With the clauses of
`model.sql` the two meanings agree (`run_upgraded_of_modelSql`).

## Clauses as data

The `references` clauses of an ordinary database are part of what a statement means, since nothing
changes them. Here they are changed, so they are a value: for each column that refers to a user, the
table of accounts that it names. `alter table … rename to …` is then a function on clauses, and the
script is a function from a database of version 1 to one of version 2 with its clauses.
-/

open Relational Interaction

namespace Scissy

/-! ## References to users -/

/-- The tables with accounts. -/
inductive UserTable
  | users | users1
  deriving DecidableEq

/-- The table each of the columns names in its `references` clause. -/
abbrev Clauses := UserReference → UserTable

/-- The clauses of `model.sql`. -/
def Clauses.modelSql : Clauses := fun _ ↦ .users

/-- What `alter table … rename to …` does to the clauses of the other tables. -/
def Clauses.rename (clauses : Clauses) (old new : UserTable) : Clauses :=
  fun column ↦ if clauses column = old then new else clauses column

/-! ## Version 1 -/

/-- A row of `users` in a database of version 1. -/
structure UserV1 (π : Type) where
  login : Bytes
  email : Bytes
  roleId : ℤ
  /-- The columns the upgrade does not read, the old password among them. -/
  rest : π

/-- A database of version 1. -/
structure DatabaseV1 (π : Type) where
  users : AutoTable (UserV1 π) maxRowid
  usersSshKeys : AutoTable UserSshKey maxRowid
  usersAuths : KeyTable UserAuth.key
  groups : AutoTable Group maxRowid
  groupsUsers : KeyTable GroupUser.key
  repos : AutoTable Repo maxRowid
  reposGroups : KeyTable RepoGroup.key
  reposUsers : KeyTable RepoUser.key

variable {π : Type}

/-- The unique columns of `users`, and the references to it. -/
structure DatabaseV1.Valid (v1 : DatabaseV1 π) : Prop where
  login_unique : UniqueColumn v1.users.rows (·.2.login)
  email_unique : UniqueColumn v1.users.rows (·.2.email)
  usersSshKeys_user : References v1.usersSshKeys.rows (·.2.userId) v1.users.ids
  usersAuths_user : References v1.usersAuths.rows (·.userId) v1.users.ids
  groupsUsers_user : References v1.groupsUsers.rows (·.userId) v1.users.ids
  reposUsers_user : References v1.reposUsers.rows (·.userId) v1.users.ids

/-! ## The script -/

/-- The columns the script selects for an account. -/
def UserV1.copied (user : UserV1 π) : User :=
  ⟨user.login, user.email, text "NEW-PASS", [], [], user.roleId⟩

/-- `insert into users … select … from users_1`, from the rows copied so far. A row that violates
a constraint fails the statement. -/
def copyUsers : List (ℤ × UserV1 π) → AutoTable User maxRowid → Option (AutoTable User maxRowid)
  | [], users => some users
  | (userId, user) :: rows, users =>
    if freeAccount users user.login user.email then
      (users.insertAs userId user.copied).bind (copyUsers rows)
    else none

/-- A database of version 2, with the old accounts and the clauses that refer to users. -/
structure Upgraded (π : Type) where
  db : Database
  users1 : AutoTable (UserV1 π) maxRowid
  clauses : Clauses

/-- `migrate-1-2.sql` -/
def DatabaseV1.migrate (v1 : DatabaseV1 π) : Option (Upgraded π) := do
  let users ← copyUsers v1.users.rows (.empty maxRowid_nonneg)
  return {
    db := { v1 with users }
    users1 := v1.users
    clauses := Clauses.modelSql.rename .users .users1 }

/-! ## The server on an upgraded database -/

/-- A world, with the old accounts and the clauses that refer to users. -/
structure UpgradedWorld (π : Type) extends World where
  users1 : AutoTable (UserV1 π) maxRowid
  clauses : Clauses

/-- The upgraded database in the place of the one of a world. -/
def Upgraded.start (u : Upgraded π) (w : World) : UpgradedWorld π :=
  { w with db := u.db, users1 := u.users1, clauses := u.clauses }

namespace UpgradedWorld

/-- The numbers of the accounts in a table. -/
def ids (w : UpgradedWorld π) : UserTable → List ℤ
  | .users => w.db.users.ids
  | .users1 => w.users1.ids

/-- The accounts that a column may refer to. -/
def parents (w : UpgradedWorld π) (column : UserReference) : List ℤ := w.ids (w.clauses column)

/-- Run a write on the connection. -/
def write (w : UpgradedWorld π) (e : Env) (s : Write) : ResultCode × UpgradedWorld π :=
  match e.fault with
  | some err => (.error err, w)
  | none =>
    let r := s.applyIn w.parents e.now w.db
    let rowid := if r.1 = .done then s.newRowid e.rowid w.db else none
    (r.1, { w with db := r.2, lastInsertRowid := rowid.getD w.lastInsertRowid })

/-- What an operation answers and does. -/
def exec : {β : Type} → Op β → Env → UpgradedWorld π → β × UpgradedWorld π
  | _, .write s, e, w => w.write e s
  | _, op, e, w => ((op.exec e w.toWorld).1, { w with toWorld := (op.exec e w.toWorld).2 })

end UpgradedWorld

/-- An operation of the server, on an upgraded database. -/
structure UpgradedOp (π : Type) (β : Type) where
  op : Op β

instance : Interp (UpgradedOp π) Env (UpgradedWorld π) := ⟨fun o ↦ UpgradedWorld.exec o.op⟩

/-- A program of the server, on an upgraded database. -/
def upgraded {α : Type} (p : Prog Op α) : Prog (UpgradedOp π) α := p.translate .mk

section Exec

variable (e : Env) (w : UpgradedWorld π)

@[simp] theorem upgraded_exec_write (s : Write) :
    Interp.exec (UpgradedOp.mk (.write s)) e w = w.write e s := rfl

@[simp] theorem upgraded_exec_query {β : Type} (q : Query β) :
    Interp.exec (UpgradedOp.mk (.query q)) e w = (q.rows e.pick w.db, w) := rfl

theorem upgraded_exec_of_modelSql {β : Type} (op : Op β) (hclauses : w.clauses = .modelSql) :
    Interp.exec (UpgradedOp.mk op) e w =
      ((Interp.exec op e w.toWorld).1, { w with toWorld := (Interp.exec op e w.toWorld).2 }) := by
  have hparents : w.parents = fun _ ↦ w.db.users.ids := by
    funext column
    rw [UpgradedWorld.parents, hclauses]
    rfl
  cases op with
  | write s =>
    rw [upgraded_exec_write, Scissy.exec_write, UpgradedWorld.write, World.write, hparents,
      Write.applyIn_users]
    cases e.fault <;> rfl
  | _ => rfl

end Exec

/-- **The old meaning is a case of the new one.** On a database with the clauses of `model.sql` the
server runs as it always does. -/
theorem run_upgraded_of_modelSql {α : Type} (p : Prog Op α) (env : ℕ → Env) (w : UpgradedWorld π)
    (hclauses : w.clauses = .modelSql) :
    (upgraded p).run env w =
      ((p.run env w.toWorld).1, { w with toWorld := (p.run env w.toWorld).2 }) := by
  induction p generalizing env w with
  | done a => rfl
  | call op next ih =>
    have hop := upgraded_exec_of_modelSql (env 0) w op hclauses
    rw [upgraded, Prog.translate_call, Prog.run_call, hop, Prog.run_call]
    exact ih _ _ _ hclauses

end Scissy
