import Mathlib.Data.List.Dedup
import Mathlib.Data.List.Sort
import Scissy.Model.Database

/-!
# The statements

Every SQL statement the server prepares, one constructor each, with its effect on the tables.

`Query` is the type of the `select`s, indexed by the columns they return, and `Query.rows` the rows
of the complete result. `Write` is the type of the statements that change a table. `Write.apply`
is what SQLite does with one when nothing outside the statement goes wrong: the change, or the
result code of a violated constraint and no change.

## What SQL leaves open

* An aggregate without `group by` takes its other columns from any of the rows. The choice is the
  argument `pick` of `Query.rows`.
* A `select` without `order by` may deliver its rows in any order. `Query.rows` delivers them in the
  order of their insertion, and SQLite in the order of the index that it reads. The two differ for
  `userGetSshKeys`, `genAuthorizedKeys` and `groupListMembers`, whose rows are copied into an answer
  or a file one by one, and for `repoGetUserRole`, of whose rows the server takes the maximum. The
  other ones have at most one row.

## What a write can do

`Write.Effect` states the change alone, guards included. `Write.apply_spec` says that a write
either returns `SQLITE_DONE` and has its effect or returns another code and has none, and every
fact about what writes preserve is a case analysis over `Effect`, never over `apply`.
-/

open Relational

namespace Scissy

/-! ## Result codes -/

/-- The primary result codes of a failing statement other than `SQLITE_CONSTRAINT`. -/
inductive SqliteError
  | error | internal | perm | abort | busy | locked | nomem | readonly | interrupt | ioerr
  | corrupt | full | cantopen | protocol | schema | toobig | mismatch | misuse
  deriving DecidableEq

def SqliteError.code : SqliteError → ℤ
  | error => 1
  | internal => 2
  | perm => 3
  | abort => 4
  | busy => 5
  | locked => 6
  | nomem => 7
  | readonly => 8
  | interrupt => 9
  | ioerr => 10
  | corrupt => 11
  | full => 13
  | cantopen => 14
  | protocol => 15
  | schema => 17
  | toobig => 18
  | mismatch => 20
  | misuse => 21

/-- What `step` returns for a statement without rows. -/
inductive ResultCode
  | done
  | constraint
  | error (e : SqliteError)
  deriving DecidableEq

/-- `SQLITE_DONE`, `SQLITE_CONSTRAINT`, or the error's code. -/
def ResultCode.code : ResultCode → ℤ
  | done => 101
  | constraint => 19
  | error e => e.code

/-- No outcome of `step` is zero, so as a C++ condition every outcome is true. -/
theorem ResultCode.code_ne_zero (rc : ResultCode) : rc.code ≠ 0 := by
  rcases rc with _ | _ | e
  · decide
  · decide
  · cases e <;> decide

/-! ## Queries -/

/-- The `select` statements, indexed by the type of one row of the result. -/
inductive Query : Type → Type
  /-- `select user_id from users where login = ?` -/
  | userGetId (login : Bytes) : Query ℤ
  /-- `select role_id = 3 from users where user_id = ?` -/
  | userIsAdmin (userId : ℤ) : Query Bool
  /-- `select role_id from groups_users where group_id = ? and user_id = ?` -/
  | groupGetUserRole (groupId userId : ℤ) : Query ℤ
  /-- `select group_id from groups where name = ?` -/
  | groupGetId (name : Bytes) : Query ℤ
  /-- `select repo_id from repos where name = ?` -/
  | repoGetId (name : Bytes) : Query ℤ
  /-- `select role_id from repos_users where repo_id = ? and user_id = ?
  union select min(repos_groups.role_id, groups_users.role_id)
  from repos_groups natural join groups_users where repo_id = ? and user_id = ?` -/
  | repoGetUserRole (repoId userId : ℤ) : Query ℤ
  /-- `select is_public from repos where repo_id = ?` -/
  | repoIsPublic (repoId : ℤ) : Query Bool
  /-- `select role_id, user_id, email from users natural join users_auths
  where login = ? and token = ?` -/
  | sessionAuth (login token : Bytes) : Query (ℤ × ℤ × Bytes)
  /-- `select password_type, password_salt, password_hash from users where login = ?` -/
  | builtinAuth (login : Bytes) : Query (Bytes × Bytes × Bytes)
  /-- `select ssh_key_id, key_type, key, desc from users_ssh_keys where user_id = ?` -/
  | userGetSshKeys (userId : ℤ) : Query (ℤ × ℤ × Bytes × Bytes)
  /-- `select user_id, key_type, key from users_ssh_keys` -/
  | genAuthorizedKeys : Query (ℤ × ℤ × Bytes)
  /-- `select name, desc, group_id, count(user_id) from groups natural left outer join groups_users
  group by group_id order by name` -/
  | groupsList : Query (Bytes × Bytes × ℤ × ℕ)
  /-- `select name, desc, group_id, count(*) from groups natural join groups_users
  where group_id = ? or name = ? limit 1`. The first three columns are null when nothing joins. -/
  | groupGetInfo (grpId : ℤ) (grp : Bytes) : Query (Option (Bytes × Bytes × ℤ) × ℕ)
  /-- `select login, user_id, groups_users.role_id
  from groups natural join groups_users join users using (user_id)
  where group_id = ? or name = ?` -/
  | groupListMembers (grpId : ℤ) (grp : Bytes) : Query (Bytes × ℤ × ℤ)
  /-- `select name, desc, repo_id, is_public from repos order by name` -/
  | reposList : Query (Bytes × Bytes × ℤ × Bool)
  /-- `select name, desc, is_public from repos where repo_id = ?` -/
  | repoGetInfo (repoId : ℤ) : Query (Bytes × Bytes × Bool)
  /-- `select group_id, name, repos_groups.role_id from repos_groups join groups using (group_id)
  where repo_id = ? order by name` -/
  | repoListGroups (repoId : ℤ) : Query (ℤ × Bytes × ℤ)
  /-- `select user_id, login, repos_users.role_id from repos_users join users using (user_id)
  where repo_id = ? order by login` -/
  | repoListUsers (repoId : ℤ) : Query (ℤ × Bytes × ℤ)

/-- `order by` a text column. -/
def orderBy {α : Type} (col : α → Bytes) (rows : List α) : List α :=
  rows.insertionSort fun a b ↦ col a ≤ col b

namespace Database

/-- `repos_groups natural join groups_users`: the two tables share `group_id` *and* `role_id`. -/
def reposGroupsNaturalJoinGroupsUsers (db : Database) : List (RepoGroup × GroupUser) :=
  join (fun g m ↦ decide (g.groupId = m.groupId ∧ g.roleId = m.roleId))
    db.reposGroups.rows db.groupsUsers.rows

/-- `users natural join users_auths`, which share `user_id`. -/
def usersNaturalJoinUsersAuths (db : Database) : List ((ℤ × User) × UserAuth) :=
  join (fun u a ↦ decide (u.1 = a.userId)) db.users.rows db.usersAuths.rows

/-- `groups natural join groups_users`, which share `group_id`. -/
def groupsNaturalJoinGroupsUsers (db : Database) : List ((ℤ × Group) × GroupUser) :=
  join (fun g m ↦ decide (g.1 = m.groupId)) db.groups.rows db.groupsUsers.rows

/-- The rows `repoGetUserRole` steps through. -/
def userRoleRows (db : Database) (repoId userId : ℤ) : List ℤ :=
  ((db.reposUsers.rows.filter fun r ↦ decide (r.repoId = repoId ∧ r.userId = userId)).map
      (·.roleId) ++
    (db.reposGroupsNaturalJoinGroupsUsers.filter fun r ↦
        decide (r.1.repoId = repoId ∧ r.2.userId = userId)).map
      fun r ↦ min r.1.roleId r.2.roleId).dedup

end Database

/-- The rows of the complete result, in the order of their insertion where the statement asks for
none. `pick` chooses the row an aggregate without `group by` takes its other columns from. -/
def Query.rows (pick : ℕ) (db : Database) : {β : Type} → Query β → List β
  | _, userGetId login => (db.users.rows.filter (·.2.login = login)).map (·.1)
  | _, userIsAdmin userId =>
    (db.users.rows.filter (·.1 = userId)).map fun r ↦ decide (r.2.roleId = 3)
  | _, groupGetUserRole groupId userId =>
    (db.groupsUsers.rows.filter fun r ↦ decide (r.groupId = groupId ∧ r.userId = userId)).map
      (·.roleId)
  | _, groupGetId name => (db.groups.rows.filter (·.2.name = name)).map (·.1)
  | _, repoGetId name => (db.repos.rows.filter (·.2.name = name)).map (·.1)
  | _, repoGetUserRole repoId userId => db.userRoleRows repoId userId
  | _, repoIsPublic repoId => (db.repos.rows.filter (·.1 = repoId)).map (·.2.isPublic)
  | _, sessionAuth login token =>
    (db.usersNaturalJoinUsersAuths.filter fun r ↦
        decide (r.1.2.login = login ∧ r.2.token = token)).map
      fun r ↦ (r.1.2.roleId, r.1.1, r.1.2.email)
  | _, builtinAuth login =>
    (db.users.rows.filter (·.2.login = login)).map fun r ↦
      (r.2.passwordType, r.2.passwordSalt, r.2.passwordHash)
  | _, userGetSshKeys userId =>
    (db.usersSshKeys.rows.filter (·.2.userId = userId)).map fun r ↦
      (r.1, r.2.keyType, r.2.key, r.2.desc)
  | _, genAuthorizedKeys => db.usersSshKeys.rows.map fun r ↦ (r.2.userId, r.2.keyType, r.2.key)
  | _, groupsList =>
    orderBy (·.1) <| db.groups.rows.map fun g ↦
      (g.2.name, g.2.desc, g.1, (db.groupsUsers.rows.filter (·.groupId = g.1)).length)
  | _, groupGetInfo grpId grp =>
    let joined := db.groupsNaturalJoinGroupsUsers.filter fun r ↦
      decide (r.1.1 = grpId ∨ r.1.2.name = grp)
    [(joined[pick % joined.length]?.map fun r ↦ (r.1.2.name, r.1.2.desc, r.1.1), joined.length)]
  | _, groupListMembers grpId grp =>
    (join (fun r u ↦ decide (r.2.userId = u.1))
        (db.groupsNaturalJoinGroupsUsers.filter fun r ↦
          decide (r.1.1 = grpId ∨ r.1.2.name = grp)) db.users.rows).map
      fun r ↦ (r.2.2.login, r.1.2.userId, r.1.2.roleId)
  | _, reposList =>
    orderBy (·.1) <| db.repos.rows.map fun r ↦ (r.2.name, r.2.desc, r.1, r.2.isPublic)
  | _, repoGetInfo repoId =>
    (db.repos.rows.filter (·.1 = repoId)).map fun r ↦ (r.2.name, r.2.desc, r.2.isPublic)
  | _, repoListGroups repoId =>
    orderBy (·.2.1) <| (join (fun r g ↦ decide (r.groupId = g.1))
        (db.reposGroups.rows.filter (·.repoId = repoId)) db.groups.rows).map
      fun r ↦ (r.1.groupId, r.2.2.name, r.1.roleId)
  | _, repoListUsers repoId =>
    orderBy (·.2.1) <| (join (fun r u ↦ decide (r.userId = u.1))
        (db.reposUsers.rows.filter (·.repoId = repoId)) db.users.rows).map
      fun r ↦ (r.1.userId, r.2.2.login, r.1.roleId)

/-! ## Writes -/

/-- The statements that change a table. -/
inductive Write
  /-- `insert or fail into users (login, email, password_type, password_salt, password_hash)` -/
  | insertUser (login email passwordType passwordSalt passwordHash : Bytes)
  /-- `insert or fail into users_auths (user_id, token, ts_start)` -/
  | insertUserAuth (userId : ℤ) (token : Bytes) (tsStart : ℤ)
  /-- `delete from users_auths where user_id = ? and token = ?` -/
  | deleteUserAuth (userId : ℤ) (token : Bytes)
  /-- `insert into users_ssh_keys (user_id, key_type, key, desc, ts_created)
  values (?, ?, ?, ?, datetime('now'))` -/
  | insertUserSshKey (userId keyType : ℤ) (key desc : Bytes)
  /-- `delete from users_ssh_keys where user_id = ? and ssh_key_id = ?` -/
  | deleteUserSshKey (userId sshKeyId : ℤ)
  /-- `insert or fail into groups (name, desc)` -/
  | insertGroup (name desc : Bytes)
  /-- `delete from groups where group_id = ?` -/
  | deleteGroup (groupId : ℤ)
  /-- `insert into groups_users (group_id, user_id, role_id)` -/
  | insertGroupUser (groupId userId roleId : ℤ)
  /-- `delete from groups_users where group_id = ? and user_id = ?` -/
  | deleteGroupUser (groupId userId : ℤ)
  /-- `insert or fail into repos (name, desc, is_public)` -/
  | insertRepo (name desc : Bytes) (isPublic : Bool)
  /-- `update repos set name = ?, desc = ?, is_public = ? where repo_id = ?` -/
  | updateRepo (name desc : Bytes) (isPublic : Bool) (repoId : ℤ)
  /-- `delete from repos where name = ?` -/
  | deleteRepoByName (name : Bytes)
  /-- `delete from repos where repo_id = ?` -/
  | deleteRepo (repoId : ℤ)
  /-- `insert into repos_users (repo_id, user_id, role_id)` -/
  | insertRepoUser (repoId userId roleId : ℤ)
  /-- `delete from repos_users where repo_id = ? and user_id = ?` -/
  | deleteRepoUser (repoId userId : ℤ)
  /-- `insert into repos_groups (repo_id, group_id, role_id)` -/
  | insertRepoGroup (repoId groupId roleId : ℤ)
  /-- `delete from repos_groups where repo_id = ? and group_id = ?` -/
  | deleteRepoGroup (repoId groupId : ℤ)

namespace Write

/-- An insert: refused with `refused` when the table itself does not take the row, and with
`SQLITE_CONSTRAINT` unless `allowed`. SQLite finds the number of a new row before it checks the
constraints, so it is out of numbers first. -/
def insertInto {τ : Type} (db : Database) (allowed : Prop) [Decidable allowed]
    (refused : ResultCode) (t : Option τ) (set : τ → Database) : ResultCode × Database :=
  match t with
  | none => (refused, db)
  | some t => if allowed then (.done, set t) else (.constraint, db)

/-- What SQLite does with a statement: its result code and the tables afterwards. -/
def apply (now : ℤ) (db : Database) : Write → ResultCode × Database
  | insertUser login email passwordType passwordSalt passwordHash =>
    insertInto db (login ∉ db.users.rows.map (·.2.login) ∧ email ∉ db.users.rows.map (·.2.email))
      -- the schema's default role is 2
      (.error .full)
      (db.users.insert ⟨login, email, passwordType, passwordSalt, passwordHash, 2⟩)
      fun t ↦ { db with users := t }
  | insertUserAuth userId token tsStart =>
    insertInto db (userId ∈ db.users.ids) .constraint
      (db.usersAuths.insert ⟨userId, token, tsStart⟩)
      fun t ↦ { db with usersAuths := t }
  | deleteUserAuth userId token =>
    let kept := db.usersAuths.filter fun r ↦ !decide (r.userId = userId ∧ r.token = token)
    (.done, { db with usersAuths := kept })
  | insertUserSshKey userId keyType key desc =>
    insertInto db (userId ∈ db.users.ids ∧
        (userId, key, keyType) ∉ db.usersSshKeys.rows.map (·.2.uniqueKey))
      (.error .full) (db.usersSshKeys.insert ⟨userId, keyType, key, desc, now⟩)
      fun t ↦ { db with usersSshKeys := t }
  | deleteUserSshKey userId sshKeyId =>
    let kept := db.usersSshKeys.filter fun r ↦ !decide (r.2.userId = userId ∧ r.1 = sshKeyId)
    (.done, { db with usersSshKeys := kept })
  | insertGroup name desc =>
    insertInto db (name ∉ db.groups.rows.map (·.2.name)) (.error .full)
      (db.groups.insert ⟨name, desc⟩) fun t ↦ { db with groups := t }
  | deleteGroup groupId => (.done, db.deleteGroups fun r ↦ !decide (r.1 = groupId))
  | insertGroupUser groupId userId roleId =>
    insertInto db (groupId ∈ db.groups.ids ∧ userId ∈ db.users.ids ∧ roleId ∈ roleIds) .constraint
      (db.groupsUsers.insert ⟨groupId, userId, roleId⟩) fun t ↦ { db with groupsUsers := t }
  | deleteGroupUser groupId userId =>
    let kept := db.groupsUsers.filter fun r ↦ !decide (r.groupId = groupId ∧ r.userId = userId)
    (.done, { db with groupsUsers := kept })
  | insertRepo name desc isPublic =>
    insertInto db (name ∉ db.repos.rows.map (·.2.name)) (.error .full)
      (db.repos.insert ⟨name, desc, isPublic⟩) fun t ↦ { db with repos := t }
  | updateRepo name desc isPublic repoId =>
    -- another row of that name only matters when there is a row to update
    if repoId ∈ db.repos.ids ∧ ∃ r ∈ db.repos.rows, r.1 ≠ repoId ∧ r.2.name = name then
      (.constraint, db)
    else (.done, { db with repos := db.repos.modify repoId fun _ ↦ ⟨name, desc, isPublic⟩ })
  | deleteRepoByName name => (.done, db.deleteRepos fun r ↦ !decide (r.2.name = name))
  | deleteRepo repoId => (.done, db.deleteRepos fun r ↦ !decide (r.1 = repoId))
  | insertRepoUser repoId userId roleId =>
    insertInto db (repoId ∈ db.repos.ids ∧ userId ∈ db.users.ids ∧ roleId ∈ roleIds) .constraint
      (db.reposUsers.insert ⟨repoId, userId, roleId⟩) fun t ↦ { db with reposUsers := t }
  | deleteRepoUser repoId userId =>
    let kept := db.reposUsers.filter fun r ↦ !decide (r.repoId = repoId ∧ r.userId = userId)
    (.done, { db with reposUsers := kept })
  | insertRepoGroup repoId groupId roleId =>
    insertInto db (repoId ∈ db.repos.ids ∧ groupId ∈ db.groups.ids ∧ roleId ∈ roleIds) .constraint
      (db.reposGroups.insert ⟨repoId, groupId, roleId⟩) fun t ↦ { db with reposGroups := t }
  | deleteRepoGroup repoId groupId =>
    let kept := db.reposGroups.filter fun r ↦ !decide (r.repoId = repoId ∧ r.groupId = groupId)
    (.done, { db with reposGroups := kept })

/-! ## The effect of a write -/

/-- The change a successful statement makes, with the conditions under which it succeeds. -/
def Effect (now : ℤ) (db db' : Database) : Write → Prop
  | insertUser login email passwordType passwordSalt passwordHash =>
    login ∉ db.users.rows.map (·.2.login) ∧ email ∉ db.users.rows.map (·.2.email) ∧
      ∃ t, db.users.insert ⟨login, email, passwordType, passwordSalt, passwordHash, 2⟩ = some t ∧
        db' = { db with users := t }
  | insertUserAuth userId token tsStart =>
    userId ∈ db.users.ids ∧ ∃ t, db.usersAuths.insert ⟨userId, token, tsStart⟩ = some t ∧
      db' = { db with usersAuths := t }
  | deleteUserAuth userId token =>
    let kept := db.usersAuths.filter fun r ↦ !decide (r.userId = userId ∧ r.token = token)
    db' = { db with usersAuths := kept }
  | insertUserSshKey userId keyType key desc =>
    userId ∈ db.users.ids ∧ (userId, key, keyType) ∉ db.usersSshKeys.rows.map (·.2.uniqueKey) ∧
      ∃ t, db.usersSshKeys.insert ⟨userId, keyType, key, desc, now⟩ = some t ∧
        db' = { db with usersSshKeys := t }
  | deleteUserSshKey userId sshKeyId =>
    let kept := db.usersSshKeys.filter fun r ↦ !decide (r.2.userId = userId ∧ r.1 = sshKeyId)
    db' = { db with usersSshKeys := kept }
  | insertGroup name desc =>
    name ∉ db.groups.rows.map (·.2.name) ∧ ∃ t, db.groups.insert ⟨name, desc⟩ = some t ∧
      db' = { db with groups := t }
  | deleteGroup groupId => db' = db.deleteGroups fun r ↦ !decide (r.1 = groupId)
  | insertGroupUser groupId userId roleId =>
    groupId ∈ db.groups.ids ∧ userId ∈ db.users.ids ∧ roleId ∈ roleIds ∧
      ∃ t, db.groupsUsers.insert ⟨groupId, userId, roleId⟩ = some t ∧
        db' = { db with groupsUsers := t }
  | deleteGroupUser groupId userId =>
    let kept := db.groupsUsers.filter fun r ↦ !decide (r.groupId = groupId ∧ r.userId = userId)
    db' = { db with groupsUsers := kept }
  | insertRepo name desc isPublic =>
    name ∉ db.repos.rows.map (·.2.name) ∧ ∃ t, db.repos.insert ⟨name, desc, isPublic⟩ = some t ∧
      db' = { db with repos := t }
  | updateRepo name desc isPublic repoId =>
    (repoId ∈ db.repos.ids → ∀ r ∈ db.repos.rows, r.1 ≠ repoId → r.2.name ≠ name) ∧
      db' = { db with repos := db.repos.modify repoId fun _ ↦ ⟨name, desc, isPublic⟩ }
  | deleteRepoByName name => db' = db.deleteRepos fun r ↦ !decide (r.2.name = name)
  | deleteRepo repoId => db' = db.deleteRepos fun r ↦ !decide (r.1 = repoId)
  | insertRepoUser repoId userId roleId =>
    repoId ∈ db.repos.ids ∧ userId ∈ db.users.ids ∧ roleId ∈ roleIds ∧
      ∃ t, db.reposUsers.insert ⟨repoId, userId, roleId⟩ = some t ∧
        db' = { db with reposUsers := t }
  | deleteRepoUser repoId userId =>
    let kept := db.reposUsers.filter fun r ↦ !decide (r.repoId = repoId ∧ r.userId = userId)
    db' = { db with reposUsers := kept }
  | insertRepoGroup repoId groupId roleId =>
    repoId ∈ db.repos.ids ∧ groupId ∈ db.groups.ids ∧ roleId ∈ roleIds ∧
      ∃ t, db.reposGroups.insert ⟨repoId, groupId, roleId⟩ = some t ∧
        db' = { db with reposGroups := t }
  | deleteRepoGroup repoId groupId =>
    let kept := db.reposGroups.filter fun r ↦ !decide (r.repoId = repoId ∧ r.groupId = groupId)
    db' = { db with reposGroups := kept }

theorem insertInto_spec {τ : Type} {db : Database} {allowed : Prop} [Decidable allowed]
    {refused : ResultCode} {t : Option τ} {set : τ → Database} (hrefused : refused ≠ .done) :
    (insertInto db allowed refused t set).1 = .done ∧
        (allowed ∧ ∃ x, t = some x ∧ (insertInto db allowed refused t set).2 = set x) ∨
      (insertInto db allowed refused t set).1 ≠ .done ∧
        (insertInto db allowed refused t set).2 = db := by
  cases t with
  | none => exact Or.inr ⟨hrefused, rfl⟩
  | some x =>
    rw [insertInto]
    split_ifs with h
    · exact Or.inl ⟨rfl, h, x, rfl, rfl⟩
    · exact Or.inr ⟨nofun, rfl⟩

/-- When an insert goes through. -/
theorem insertInto_done_iff {τ : Type} {db : Database} {allowed : Prop} [Decidable allowed]
    {refused : ResultCode} {t? : Option τ} {set : τ → Database} (hrefused : refused ≠ .done) :
    (insertInto db allowed refused t? set).1 = .done ↔ allowed ∧ ∃ t, t? = some t := by
  cases t? with
  | none => exact iff_of_false hrefused fun hboth ↦ Option.some_ne_none _ hboth.2.choose_spec.symm
  | some t =>
    rw [insertInto]
    split_ifs with h
    · exact iff_of_true rfl ⟨h, t, rfl⟩
    · exact iff_of_false nofun fun hboth ↦ h hboth.1

/-- **The contract of a write.** It returns `SQLITE_DONE` and has its effect, or it returns
another code and changes nothing. -/
theorem apply_spec (s : Write) (now : ℤ) (db : Database) :
    (s.apply now db).1 = .done ∧ s.Effect now db (s.apply now db).2 ∨
      (s.apply now db).1 ≠ .done ∧ (s.apply now db).2 = db := by
  cases s with
  | insertUser | insertUserAuth | insertUserSshKey | insertGroup | insertGroupUser | insertRepo
  | insertRepoUser | insertRepoGroup =>
    refine (insertInto_spec (by decide)).imp_left fun ⟨hdone, heffect⟩ ↦ ⟨hdone, ?_⟩
    simpa only [Effect, apply, and_assoc] using heffect
  | updateRepo name desc isPublic repoId =>
    simp only [apply, Effect]
    split_ifs with h
    · exact Or.inr ⟨nofun, rfl⟩
    · push Not at h
      exact Or.inl ⟨rfl, h, rfl⟩
  | _ => exact Or.inl ⟨rfl, rfl⟩

/-! ### Writes keep the schema -/

variable {now : ℤ} {db db' : Database} {s : Write}

/-- Every write keeps the unique columns unique and the references satisfied. -/
theorem Effect.valid (h : s.Effect now db db') (hdb : db.Valid) : db'.Valid := by
  cases s with
  | insertUser =>
    obtain ⟨hlogin, hemail, t, ht, rfl⟩ := h
    obtain ⟨hrows, -⟩ := AutoTable.rows_of_insert ht
    have hids : db.users.ids ⊆ t.ids := AutoTable.ids_subset_of_insert ht
    exact { hdb with
      login_unique := hrows ▸ hdb.login_unique.append_singleton hlogin
      email_unique := hrows ▸ hdb.email_unique.append_singleton hemail
      usersSshKeys_user := hdb.usersSshKeys_user.mono hids
      usersAuths_user := hdb.usersAuths_user.mono hids
      groupsUsers_user := hdb.groupsUsers_user.mono hids
      reposUsers_user := hdb.reposUsers_user.mono hids }
  | insertUserAuth =>
    obtain ⟨huser, t, ht, rfl⟩ := h
    obtain ⟨hrows, -⟩ := KeyTable.rows_of_insert ht
    exact { hdb with usersAuths_user := hrows ▸ hdb.usersAuths_user.append_singleton huser }
  | deleteUserAuth =>
    obtain rfl := h
    exact { hdb with usersAuths_user := hdb.usersAuths_user.subset (KeyTable.filter_subset _) }
  | insertUserSshKey =>
    obtain ⟨huser, hkey, t, ht, rfl⟩ := h
    obtain ⟨hrows, -⟩ := AutoTable.rows_of_insert ht
    exact { hdb with
      sshKey_unique := hrows ▸ hdb.sshKey_unique.append_singleton hkey
      usersSshKeys_user := hrows ▸ hdb.usersSshKeys_user.append_singleton huser }
  | deleteUserSshKey =>
    obtain rfl := h
    exact { hdb with
      sshKey_unique := hdb.sshKey_unique.sublist (AutoTable.filter_sublist _)
      usersSshKeys_user := hdb.usersSshKeys_user.subset (AutoTable.filter_sublist _).subset }
  | insertGroup =>
    obtain ⟨hname, t, ht, rfl⟩ := h
    obtain ⟨hrows, -⟩ := AutoTable.rows_of_insert ht
    have hids : db.groups.ids ⊆ t.ids := AutoTable.ids_subset_of_insert ht
    exact { hdb with
      groupName_unique := hrows ▸ hdb.groupName_unique.append_singleton hname
      groupsUsers_group := hdb.groupsUsers_group.mono hids
      reposGroups_group := hdb.reposGroups_group.mono hids }
  | deleteGroup =>
    obtain rfl := h
    exact hdb.deleteGroups _
  | insertGroupUser =>
    obtain ⟨hgroup, huser, hrole, t, ht, rfl⟩ := h
    obtain ⟨hrows, -⟩ := KeyTable.rows_of_insert ht
    exact { hdb with
      groupsUsers_group := hrows ▸ hdb.groupsUsers_group.append_singleton hgroup
      groupsUsers_user := hrows ▸ hdb.groupsUsers_user.append_singleton huser
      groupsUsers_role := hrows ▸ hdb.groupsUsers_role.append_singleton hrole }
  | deleteGroupUser =>
    obtain rfl := h
    exact { hdb with
      groupsUsers_group := hdb.groupsUsers_group.subset (KeyTable.filter_subset _)
      groupsUsers_user := hdb.groupsUsers_user.subset (KeyTable.filter_subset _)
      groupsUsers_role := hdb.groupsUsers_role.subset (KeyTable.filter_subset _) }
  | insertRepo =>
    obtain ⟨hname, t, ht, rfl⟩ := h
    obtain ⟨hrows, -⟩ := AutoTable.rows_of_insert ht
    have hids : db.repos.ids ⊆ t.ids := AutoTable.ids_subset_of_insert ht
    exact { hdb with
      repoName_unique := hrows ▸ hdb.repoName_unique.append_singleton hname
      reposGroups_repo := hdb.reposGroups_repo.mono hids
      reposUsers_repo := hdb.reposUsers_repo.mono hids }
  | updateRepo name desc isPublic repoId =>
    obtain ⟨hname, rfl⟩ := h
    exact { hdb with
      repoName_unique := hdb.unique_repoName_modify hname
      reposGroups_repo := (AutoTable.modify_ids repoId _).symm ▸ hdb.reposGroups_repo
      reposUsers_repo := (AutoTable.modify_ids repoId _).symm ▸ hdb.reposUsers_repo }
  | deleteRepoByName | deleteRepo =>
    obtain rfl := h
    exact hdb.deleteRepos _
  | insertRepoUser =>
    obtain ⟨hrepo, huser, hrole, t, ht, rfl⟩ := h
    obtain ⟨hrows, -⟩ := KeyTable.rows_of_insert ht
    exact { hdb with
      reposUsers_repo := hrows ▸ hdb.reposUsers_repo.append_singleton hrepo
      reposUsers_user := hrows ▸ hdb.reposUsers_user.append_singleton huser
      reposUsers_role := hrows ▸ hdb.reposUsers_role.append_singleton hrole }
  | deleteRepoUser =>
    obtain rfl := h
    exact { hdb with
      reposUsers_repo := hdb.reposUsers_repo.subset (KeyTable.filter_subset _)
      reposUsers_user := hdb.reposUsers_user.subset (KeyTable.filter_subset _)
      reposUsers_role := hdb.reposUsers_role.subset (KeyTable.filter_subset _) }
  | insertRepoGroup =>
    obtain ⟨hrepo, hgroup, hrole, t, ht, rfl⟩ := h
    obtain ⟨hrows, -⟩ := KeyTable.rows_of_insert ht
    exact { hdb with
      reposGroups_repo := hrows ▸ hdb.reposGroups_repo.append_singleton hrepo
      reposGroups_group := hrows ▸ hdb.reposGroups_group.append_singleton hgroup
      reposGroups_role := hrows ▸ hdb.reposGroups_role.append_singleton hrole }
  | deleteRepoGroup =>
    obtain rfl := h
    exact { hdb with
      reposGroups_repo := hdb.reposGroups_repo.subset (KeyTable.filter_subset _)
      reposGroups_group := hdb.reposGroups_group.subset (KeyTable.filter_subset _)
      reposGroups_role := hdb.reposGroups_role.subset (KeyTable.filter_subset _) }

theorem apply_valid (s : Write) (now : ℤ) (hdb : db.Valid) : (s.apply now db).2.Valid := by
  rcases s.apply_spec now db with ⟨-, h⟩ | ⟨-, h⟩
  · exact h.valid hdb
  · rwa [h]

/-- The tables after several statements. -/
def applyAll (now : ℤ) (db : Database) (l : List Write) : Database :=
  l.foldl (fun db s ↦ (s.apply now db).2) db

theorem applyAll_valid (now : ℤ) (hdb : db.Valid) (l : List Write) : (applyAll now db l).Valid := by
  induction l generalizing db with
  | nil => exact hdb
  | cons s l ih => exact ih (apply_valid s now hdb)

end Write

/-! ## References to other accounts -/

/-- The columns `user_id` that refer to a user, by their tables. -/
inductive UserReference
  | usersSshKeys | usersAuths | groupsUsers | reposUsers

namespace Write

/-- What SQLite does with a statement when the rows the columns may refer to are `parents`. -/
def applyIn (parents : UserReference → List ℤ) (now : ℤ) (db : Database) :
    Write → ResultCode × Database
  | insertUserAuth userId token tsStart =>
    insertInto db (userId ∈ parents .usersAuths) .constraint
      (db.usersAuths.insert ⟨userId, token, tsStart⟩)
      fun t ↦ { db with usersAuths := t }
  | insertUserSshKey userId keyType key desc =>
    insertInto db (userId ∈ parents .usersSshKeys ∧
        (userId, key, keyType) ∉ db.usersSshKeys.rows.map (·.2.uniqueKey))
      (.error .full) (db.usersSshKeys.insert ⟨userId, keyType, key, desc, now⟩)
      fun t ↦ { db with usersSshKeys := t }
  | insertGroupUser groupId userId roleId =>
    insertInto db (groupId ∈ db.groups.ids ∧ userId ∈ parents .groupsUsers ∧ roleId ∈ roleIds)
      .constraint (db.groupsUsers.insert ⟨groupId, userId, roleId⟩)
      fun t ↦ { db with groupsUsers := t }
  | insertRepoUser repoId userId roleId =>
    insertInto db (repoId ∈ db.repos.ids ∧ userId ∈ parents .reposUsers ∧ roleId ∈ roleIds)
      .constraint (db.reposUsers.insert ⟨repoId, userId, roleId⟩)
      fun t ↦ { db with reposUsers := t }
  | s => s.apply now db

/-- With the references of `model.sql` a statement does what it always does. -/
theorem applyIn_users (now : ℤ) (db : Database) (s : Write) :
    s.applyIn (fun _ ↦ db.users.ids) now db = s.apply now db := by
  cases s <;> rfl

/-- Whom a row may refer to makes no difference to the accounts. -/
theorem applyIn_users_eq (s : Write) (parents : UserReference → List ℤ) (now : ℤ)
    (db : Database) : (s.applyIn parents now db).2.users = (s.apply now db).2.users := by
  have hinsert {τ : Type} (allowed : Prop) [Decidable allowed] (refused : ResultCode)
      (t : Option τ) (set : τ → Database) (hset : ∀ x, (set x).users = db.users) :
      (insertInto db allowed refused t set).2.users = db.users := by
    cases t with
    | none => rfl
    | some x =>
      rw [insertInto]
      split_ifs
      · exact hset x
      · rfl
  cases s with
  | insertUserAuth | insertUserSshKey | insertGroupUser | insertRepoUser =>
    rw [applyIn, apply, hinsert, hinsert]
    · exact fun _ ↦ rfl
    · exact fun _ ↦ rfl
  | _ => rfl

end Write

/-- No account has the login or the email. -/
def freeAccount (users : AutoTable User maxRowid) (login email : Bytes) : Bool :=
  decide (login ∉ users.rows.map (·.2.login) ∧ email ∉ users.rows.map (·.2.email))

/-! ### Frames -/

inductive Table
  | users | usersSshKeys | usersAuths | groups | groupsUsers | repos | reposGroups | reposUsers
  deriving DecidableEq

/-- The two databases agree on one table. -/
def Table.Same (db db' : Database) : Table → Prop
  | users => db'.users = db.users
  | usersSshKeys => db'.usersSshKeys = db.usersSshKeys
  | usersAuths => db'.usersAuths = db.usersAuths
  | groups => db'.groups = db.groups
  | groupsUsers => db'.groupsUsers = db.groupsUsers
  | repos => db'.repos = db.repos
  | reposGroups => db'.reposGroups = db.reposGroups
  | reposUsers => db'.reposUsers = db.reposUsers

theorem Table.Same.refl (t : Table) (db : Database) : t.Same db db := by cases t <;> rfl

theorem Table.Same.trans {t : Table} {db₁ db₂ db₃ : Database} (h : t.Same db₁ db₂)
    (h' : t.Same db₂ db₃) : t.Same db₁ db₃ := by
  cases t <;> exact Eq.trans h' h

namespace Write

/-- The tables a statement may change, the cascaded ones included. -/
@[simp] def touches : Write → List Table
  | insertUser .. => [.users]
  | insertUserAuth .. | deleteUserAuth .. => [.usersAuths]
  | insertUserSshKey .. | deleteUserSshKey .. => [.usersSshKeys]
  | insertGroup .. => [.groups]
  | deleteGroup .. => [.groups, .groupsUsers, .reposGroups]
  | insertGroupUser .. | deleteGroupUser .. => [.groupsUsers]
  | insertRepo .. | updateRepo .. => [.repos]
  | deleteRepoByName .. | deleteRepo .. => [.repos, .reposGroups, .reposUsers]
  | insertRepoUser .. | deleteRepoUser .. => [.reposUsers]
  | insertRepoGroup .. | deleteRepoGroup .. => [.reposGroups]

variable {now : ℤ} {db db' : Database} {s : Write} {t : Table}

theorem Effect.same (h : s.Effect now db db') (ht : t ∉ s.touches) : t.Same db db' := by
  cases s with
  | insertUserAuth | insertGroup | insertRepo =>
    obtain ⟨-, _, -, rfl⟩ := h
    cases t <;> first | rfl | simp [touches] at ht
  | insertUser | insertUserSshKey =>
    obtain ⟨-, -, _, -, rfl⟩ := h
    cases t <;> first | rfl | simp [touches] at ht
  | insertGroupUser | insertRepoUser | insertRepoGroup =>
    obtain ⟨-, -, -, _, -, rfl⟩ := h
    cases t <;> first | rfl | simp [touches] at ht
  | updateRepo =>
    obtain ⟨-, rfl⟩ := h
    cases t <;> first | rfl | simp [touches] at ht
  | _ =>
    obtain rfl := h
    cases t <;> first | rfl | simp [touches] at ht

end Write

end Scissy
