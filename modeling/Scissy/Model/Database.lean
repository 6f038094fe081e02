import Scissy.Model.Message
import Scissy.Relational.Table

/-!
# The database

The tables of `model.sql`, with the columns the server reads or writes. An `integer primary key
autoincrement` column is the row number of an `AutoTable`; a composite `primary key` is the key of
a `KeyTable`. Both are therefore part of the type. What the remaining clauses of the schema
promise (unique columns, references) is `Database.Valid`.

The table `roles` is not stored: `model.sql` fills it with four rows and no statement of the
server writes it, so a reference to it is membership in `roleIds`.

## Why validity is a predicate

A primary key concerns one table, and belongs to the type of the table. A reference concerns two,
and a type of valid databases would need a proof with every change of either. It is kept apart, and
every write keeps it (`Write.Effect.valid`). A result about a program then starts from a valid
database, and so do all states the program goes through.

## Deleting with cascade

Every reference is declared `on delete cascade`, and the only tables whose rows the server deletes
while others refer to them are `groups` and `repos`. `Database.deleteGroups` and
`Database.deleteRepos` delete the referring rows along with the referred ones. No call deletes a
user, so the references to users never cascade.
-/

open Relational

namespace Scissy

/-! ## Rows -/

/-- The largest row number SQLite gives out. -/
def maxRowid : ℤ := 2 ^ 63 - 1

theorem maxRowid_nonneg : 0 ≤ maxRowid := by decide

/-- The rows `model.sql` puts into `roles`. -/
def roleIds : List ℤ := [0, 1, 2, 3]

structure User where
  login : Bytes
  email : Bytes
  passwordType : Bytes
  passwordSalt : Bytes
  passwordHash : Bytes
  roleId : ℤ
  deriving DecidableEq

structure UserSshKey where
  userId : ℤ
  keyType : ℤ
  key : Bytes
  desc : Bytes
  tsCreated : ℤ
  deriving DecidableEq

structure UserAuth where
  userId : ℤ
  token : Bytes
  tsStart : ℤ
  deriving DecidableEq

structure Group where
  name : Bytes
  desc : Bytes
  deriving DecidableEq

structure GroupUser where
  groupId : ℤ
  userId : ℤ
  roleId : ℤ
  deriving DecidableEq

structure Repo where
  name : Bytes
  desc : Bytes
  isPublic : Bool
  deriving DecidableEq

structure RepoGroup where
  repoId : ℤ
  groupId : ℤ
  roleId : ℤ
  deriving DecidableEq

structure RepoUser where
  repoId : ℤ
  userId : ℤ
  roleId : ℤ
  deriving DecidableEq

/-! ## Primary keys -/

/-- `primary key (token, user_id)` -/
def UserAuth.key (r : UserAuth) : Bytes × ℤ := (r.token, r.userId)

/-- `primary key (group_id, user_id)` -/
def GroupUser.key (r : GroupUser) : ℤ × ℤ := (r.groupId, r.userId)

/-- `primary key (repo_id, group_id)` -/
def RepoGroup.key (r : RepoGroup) : ℤ × ℤ := (r.repoId, r.groupId)

/-- `primary key (repo_id, user_id)` -/
def RepoUser.key (r : RepoUser) : ℤ × ℤ := (r.repoId, r.userId)

/-- `unique (user_id, key, key_type)` -/
def UserSshKey.uniqueKey (r : UserSshKey) : ℤ × Bytes × ℤ := (r.userId, r.key, r.keyType)

/-! ## The tables -/

structure Database where
  users : AutoTable User maxRowid
  usersSshKeys : AutoTable UserSshKey maxRowid
  usersAuths : KeyTable UserAuth.key
  groups : AutoTable Group maxRowid
  groupsUsers : KeyTable GroupUser.key
  repos : AutoTable Repo maxRowid
  reposGroups : KeyTable RepoGroup.key
  reposUsers : KeyTable RepoUser.key

namespace Database

/-- The database `model.sql` creates. -/
def initial : Database where
  users := .empty maxRowid_nonneg
  usersSshKeys := .empty maxRowid_nonneg
  usersAuths := .empty
  groups := .empty maxRowid_nonneg
  groupsUsers := .empty
  repos := .empty maxRowid_nonneg
  reposGroups := .empty
  reposUsers := .empty

/-- The unique columns and the references of `model.sql`. -/
structure Valid (db : Database) : Prop where
  login_unique : UniqueColumn db.users.rows (·.2.login)
  email_unique : UniqueColumn db.users.rows (·.2.email)
  sshKey_unique : UniqueColumn db.usersSshKeys.rows (·.2.uniqueKey)
  groupName_unique : UniqueColumn db.groups.rows (·.2.name)
  repoName_unique : UniqueColumn db.repos.rows (·.2.name)
  usersSshKeys_user : References db.usersSshKeys.rows (·.2.userId) db.users.ids
  usersAuths_user : References db.usersAuths.rows (·.userId) db.users.ids
  groupsUsers_group : References db.groupsUsers.rows (·.groupId) db.groups.ids
  groupsUsers_user : References db.groupsUsers.rows (·.userId) db.users.ids
  groupsUsers_role : References db.groupsUsers.rows (·.roleId) roleIds
  reposGroups_repo : References db.reposGroups.rows (·.repoId) db.repos.ids
  reposGroups_group : References db.reposGroups.rows (·.groupId) db.groups.ids
  reposGroups_role : References db.reposGroups.rows (·.roleId) roleIds
  reposUsers_repo : References db.reposUsers.rows (·.repoId) db.repos.ids
  reposUsers_user : References db.reposUsers.rows (·.userId) db.users.ids
  reposUsers_role : References db.reposUsers.rows (·.roleId) roleIds

theorem valid_initial : initial.Valid := by
  constructor <;> exact .nil

/-! ## Cascading deletes -/

/-- Delete the groups that `p` rejects, and the rows that refer to them. -/
def deleteGroups (db : Database) (p : ℤ × Group → Bool) : Database :=
  let kept := (db.groups.filter p).ids
  { db with
    groups := db.groups.filter p
    groupsUsers := db.groupsUsers.filter fun r ↦ decide (r.groupId ∈ kept)
    reposGroups := db.reposGroups.filter fun r ↦ decide (r.groupId ∈ kept) }

/-- Delete the repositories that `p` rejects, and the rows that refer to them. -/
def deleteRepos (db : Database) (p : ℤ × Repo → Bool) : Database :=
  let kept := (db.repos.filter p).ids
  { db with
    repos := db.repos.filter p
    reposGroups := db.reposGroups.filter fun r ↦ decide (r.repoId ∈ kept)
    reposUsers := db.reposUsers.filter fun r ↦ decide (r.repoId ∈ kept) }

variable {db : Database}

theorem Valid.deleteGroups (h : db.Valid) (p : ℤ × Group → Bool) : (db.deleteGroups p).Valid :=
  { h with
    groupName_unique := h.groupName_unique.sublist (AutoTable.filter_sublist p)
    groupsUsers_group := References.of_filter _ _ _
    groupsUsers_user := h.groupsUsers_user.subset (KeyTable.filter_subset _)
    groupsUsers_role := h.groupsUsers_role.subset (KeyTable.filter_subset _)
    reposGroups_repo := h.reposGroups_repo.subset (KeyTable.filter_subset _)
    reposGroups_group := References.of_filter _ _ _
    reposGroups_role := h.reposGroups_role.subset (KeyTable.filter_subset _) }

theorem Valid.deleteGroups_eq_self_iff (h : db.Valid) {p : ℤ × Group → Bool} :
    db.deleteGroups p = db ↔ ∀ r ∈ db.groups.rows, p r = true := by
  rw [← AutoTable.filter_eq_self_iff]
  refine ⟨fun heq ↦ congrArg groups heq, fun hgroups ↦ ?_⟩
  have hgroupsUsers : (db.groupsUsers.filter fun r ↦ decide (r.groupId ∈ db.groups.ids)) =
      db.groupsUsers :=
    KeyTable.filter_eq_self_iff.mpr fun r hr ↦ decide_eq_true (h.groupsUsers_group r hr)
  have hreposGroups : (db.reposGroups.filter fun r ↦ decide (r.groupId ∈ db.groups.ids)) =
      db.reposGroups :=
    KeyTable.filter_eq_self_iff.mpr fun r hr ↦ decide_eq_true (h.reposGroups_group r hr)
  rw [Database.deleteGroups, hgroups, hgroupsUsers, hreposGroups]

theorem Valid.deleteRepos (h : db.Valid) (p : ℤ × Repo → Bool) : (db.deleteRepos p).Valid :=
  { h with
    repoName_unique := h.repoName_unique.sublist (AutoTable.filter_sublist p)
    reposGroups_repo := References.of_filter _ _ _
    reposGroups_group := h.reposGroups_group.subset (KeyTable.filter_subset _)
    reposGroups_role := h.reposGroups_role.subset (KeyTable.filter_subset _)
    reposUsers_repo := References.of_filter _ _ _
    reposUsers_user := h.reposUsers_user.subset (KeyTable.filter_subset _)
    reposUsers_role := h.reposUsers_role.subset (KeyTable.filter_subset _) }

/-! ## What the schema gives a reader -/

theorem Valid.user_eq_of_login (h : db.Valid) {r r' : ℤ × User} (hr : r ∈ db.users.rows)
    (hr' : r' ∈ db.users.rows) (hlogin : r.2.login = r'.2.login) : r = r' :=
  h.login_unique.eq_of_mem hr hr' hlogin

theorem Valid.repo_eq_of_name (h : db.Valid) {r r' : ℤ × Repo} (hr : r ∈ db.repos.rows)
    (hr' : r' ∈ db.repos.rows) (hname : r.2.name = r'.2.name) : r = r' :=
  h.repoName_unique.eq_of_mem hr hr' hname

/-- Renaming a repository keeps the names unique if no other repository has the new name. -/
theorem Valid.unique_repoName_modify (h : db.Valid) {repoId : ℤ} {repo : Repo}
    (hname : repoId ∈ db.repos.ids → ∀ r ∈ db.repos.rows, r.1 ≠ repoId → r.2.name ≠ repo.name) :
    UniqueColumn (db.repos.modify repoId fun _ ↦ repo).rows (·.2.name) := by
  rw [AutoTable.modify_rows, UniqueColumn, List.map_map]
  refine (List.nodup_map_iff_inj_on db.repos.nodup_ids.of_map).mpr fun r hr r' hr' heq ↦ ?_
  simp only [Function.comp, AutoTable.modifyRow] at heq
  have hid : ∀ {r}, r ∈ db.repos.rows → r.1 = repoId → repoId ∈ db.repos.ids :=
    fun hr hid ↦ hid ▸ AutoTable.mem_ids_of_mem hr
  split_ifs at heq with h₁ h₂ h₂
  · exact List.inj_on_of_nodup_map db.repos.nodup_ids hr hr' (h₁.trans h₂.symm)
  · exact absurd heq.symm (hname (hid hr h₁) r' hr' h₂)
  · exact absurd heq (hname (hid hr' h₂) r hr h₁)
  · exact h.repo_eq_of_name hr hr' heq

end Database

end Scissy
