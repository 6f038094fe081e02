import Scissy.Access.Membership

/-!
# Rows that come and go

Which statement it was when a row is there after it and not before, or the other way round.

## One edit for each table

A statement inserts a row into a table, or keeps those of its rows that pass a test, or changes the
row of a number; and it does one of these to at most a few tables. Each table whose rows are no
links gets a function from statements to such a `Relational.Edit`, and one lemma that says that the
rows afterwards are what the edit makes of the rows before. That is where the statements are taken
apart. Which statement can have brought or lost a row is then read off the function.

## Links

The three tables of links are taken together, as the graph of `Access/Membership`. Most of the work
is a link that is lost, for it may go with the deletion of its own row, with the group it is about
or with its repository.
-/

open Authority Relational

namespace Scissy.Write

variable {now : ℤ} {db db' : Database} {s : Write}

/-! ## Edits

What a statement does to each of the tables whose rows are no links. -/

/-- What a statement does to `users`. -/
def editUsers (db : Database) : Write → Edit (ℤ × User)
  | insertUser login email passwordType passwordSalt passwordHash =>
    .add (db.users.seq + 1, ⟨login, email, passwordType, passwordSalt, passwordHash, 2⟩)
  | _ => .keep

/-- What a statement does to `users_ssh_keys`. -/
def editSshKeys (now : ℤ) (db : Database) : Write → Edit (ℤ × UserSshKey)
  | insertUserSshKey userId keyType key desc =>
    .add (db.usersSshKeys.seq + 1, ⟨userId, keyType, key, desc, now⟩)
  | deleteUserSshKey userId sshKeyId =>
    .drop fun r ↦ !decide (r.2.userId = userId ∧ r.1 = sshKeyId)
  | _ => .keep

/-- What a statement does to `users_auths`. -/
def editAuths : Write → Edit UserAuth
  | insertUserAuth userId token tsStart => .add ⟨userId, token, tsStart⟩
  | deleteUserAuth userId token => .drop fun r ↦ !decide (r.userId = userId ∧ r.token = token)
  | _ => .keep

/-- What a statement does to `groups`. -/
def editGroups (db : Database) : Write → Edit (ℤ × Group)
  | insertGroup name desc => .add (db.groups.seq + 1, ⟨name, desc⟩)
  | deleteGroup groupId => .drop fun r ↦ !decide (r.1 = groupId)
  | _ => .keep

/-- What a statement does to `repos`. -/
def editRepos (db : Database) : Write → Edit (ℤ × Repo)
  | insertRepo name desc isPublic => .add (db.repos.seq + 1, ⟨name, desc, isPublic⟩)
  | updateRepo name desc isPublic repoId =>
    .update (AutoTable.modifyRow repoId fun _ ↦ ⟨name, desc, isPublic⟩)
  | deleteRepoByName name => .drop fun r ↦ !decide (r.2.name = name)
  | deleteRepo repoId => .drop fun r ↦ !decide (r.1 = repoId)
  | _ => .keep

theorem Effect.users_rows (h : s.Effect now db db') :
    db'.users.rows = (s.editUsers db).apply db.users.rows := by
  cases s with
  | insertUser =>
    obtain ⟨-, -, t, ht, rfl⟩ := h
    exact (AutoTable.rows_of_insert ht).1
  | _ => exact congrArg AutoTable.rows (h.same (t := .users) (by simp))

theorem Effect.usersSshKeys_rows (h : s.Effect now db db') :
    db'.usersSshKeys.rows = (s.editSshKeys now db).apply db.usersSshKeys.rows := by
  cases s with
  | insertUserSshKey =>
    obtain ⟨-, -, t, ht, rfl⟩ := h
    exact (AutoTable.rows_of_insert ht).1
  | deleteUserSshKey =>
    obtain rfl := h
    rfl
  | _ => exact congrArg AutoTable.rows (h.same (t := .usersSshKeys) (by simp))

theorem Effect.usersAuths_rows (h : s.Effect now db db') :
    db'.usersAuths.rows = s.editAuths.apply db.usersAuths.rows := by
  cases s with
  | insertUserAuth =>
    obtain ⟨-, t, ht, rfl⟩ := h
    exact (KeyTable.rows_of_insert ht).1
  | deleteUserAuth =>
    obtain rfl := h
    rfl
  | _ => exact congrArg KeyTable.rows (h.same (t := .usersAuths) (by simp))

theorem Effect.groups_rows (h : s.Effect now db db') :
    db'.groups.rows = (s.editGroups db).apply db.groups.rows := by
  cases s with
  | insertGroup =>
    obtain ⟨-, t, ht, rfl⟩ := h
    exact (AutoTable.rows_of_insert ht).1
  | deleteGroup =>
    obtain rfl := h
    rfl
  | _ => exact congrArg AutoTable.rows (h.same (t := .groups) (by simp))

theorem Effect.repos_rows (h : s.Effect now db db') :
    db'.repos.rows = (s.editRepos db).apply db.repos.rows := by
  cases s with
  | insertRepo =>
    obtain ⟨-, t, ht, rfl⟩ := h
    exact (AutoTable.rows_of_insert ht).1
  | updateRepo =>
    obtain ⟨-, rfl⟩ := h
    rfl
  | deleteRepo | deleteRepoByName =>
    obtain rfl := h
    rfl
  | _ => exact congrArg AutoTable.rows (h.same (t := .repos) (by simp))

/-! ## Users, keys and tokens -/

theorem Effect.user_inserted (h : s.Effect now db db') {row : ℤ × User}
    (hout : row ∉ db.users.rows) (hin : row ∈ db'.users.rows) :
    s = insertUser row.2.login row.2.email row.2.passwordType row.2.passwordSalt
      row.2.passwordHash ∧ row.2.roleId = 2 := by
  have hedit := Edit.cases_of_mem_apply hout (h.users_rows ▸ hin)
  cases s with
  | insertUser =>
    obtain rfl : _ = row := by simpa [editUsers] using hedit
    exact ⟨rfl, rfl⟩
  | _ => simp [editUsers] at hedit

theorem Effect.sshKey_inserted (h : s.Effect now db db') {row : ℤ × UserSshKey}
    (hout : row ∉ db.usersSshKeys.rows) (hin : row ∈ db'.usersSshKeys.rows) :
    s = insertUserSshKey row.2.userId row.2.keyType row.2.key row.2.desc := by
  have hedit := Edit.cases_of_mem_apply hout (h.usersSshKeys_rows ▸ hin)
  cases s with
  | insertUserSshKey =>
    obtain rfl : _ = row := by simpa [editSshKeys] using hedit
    rfl
  | _ => simp [editSshKeys] at hedit

theorem Effect.sshKey_deleted (h : s.Effect now db db') {row : ℤ × UserSshKey}
    (hin : row ∈ db.usersSshKeys.rows) (hout : row ∉ db'.usersSshKeys.rows) :
    s = deleteUserSshKey row.2.userId row.1 := by
  have hedit := Edit.cases_of_notMem_apply hin (h.usersSshKeys_rows ▸ hout)
  cases s with
  | deleteUserSshKey =>
    obtain ⟨rfl, rfl⟩ : _ ∧ _ := by simpa [editSshKeys] using hedit
    rfl
  | _ => simp [editSshKeys] at hedit

theorem Effect.token_inserted (h : s.Effect now db db') {row : UserAuth}
    (hout : row ∉ db.usersAuths.rows) (hin : row ∈ db'.usersAuths.rows) :
    s = insertUserAuth row.userId row.token row.tsStart := by
  have hedit := Edit.cases_of_mem_apply hout (h.usersAuths_rows ▸ hin)
  cases s with
  | insertUserAuth =>
    obtain rfl : _ = row := by simpa [editAuths] using hedit
    rfl
  | _ => simp [editAuths] at hedit

theorem Effect.token_deleted (h : s.Effect now db db') {row : UserAuth}
    (hin : row ∈ db.usersAuths.rows) (hout : row ∉ db'.usersAuths.rows) :
    s = deleteUserAuth row.userId row.token := by
  have hedit := Edit.cases_of_notMem_apply hin (h.usersAuths_rows ▸ hout)
  cases s with
  | deleteUserAuth =>
    obtain ⟨rfl, rfl⟩ : _ ∧ _ := by simpa [editAuths] using hedit
    rfl
  | _ => simp [editAuths] at hedit

/-! ## Links -/

/-- A statement that touches none of the three tables leaves the links alone. -/
theorem Effect.links_eq (h : s.Effect now db db') (hs : Table.groupsUsers ∉ s.touches)
    (hs' : Table.reposUsers ∉ s.touches) (hs'' : Table.reposGroups ∉ s.touches) :
    db'.graph.links = db.graph.links := by
  have hgroupsUsers : db'.groupsUsers = db.groupsUsers := h.same hs
  have hreposUsers : db'.reposUsers = db.reposUsers := h.same hs'
  have hreposGroups : db'.reposGroups = db.reposGroups := h.same hs''
  rw [Database.graph, Database.graph, hgroupsUsers, hreposUsers, hreposGroups]

theorem Effect.link_inserted (h : s.Effect now db db') {l : Link Table ℤ ℤ}
    (hout : l ∉ db.graph.links) (hin : l ∈ db'.graph.links) : s.change = some (.add l) := by
  cases s with
  | insertGroupUser | insertRepoUser | insertRepoGroup =>
    obtain ⟨-, -, -, t, ht, rfl⟩ := h
    obtain ⟨kind, left, right, role⟩ := l
    cases kind <;> simp [Database.graph, (KeyTable.rows_of_insert ht).1] at hin hout <;>
      first
      | exact absurd hin hout
      | obtain ⟨rfl, rfl, rfl⟩ := hin.resolve_left hout; rfl
  | deleteGroup | deleteGroupUser | deleteRepoByName | deleteRepo | deleteRepoUser
  | deleteRepoGroup =>
    obtain rfl := h
    obtain ⟨kind, left, right, role⟩ := l
    cases kind <;> simp_all [Database.graph, Database.deleteGroups, Database.deleteRepos]
  | _ => exact absurd (h.links_eq (by simp) (by simp) (by simp) ▸ hin) hout

/-- The statement deletes the repository. -/
def DeletesRepo (db : Database) (repoId : ℤ) (s : Write) : Prop :=
  s = deleteRepo repoId ∨ ∃ repo, (repoId, repo) ∈ db.repos.rows ∧ s = deleteRepoByName repo.name

/-- The links that are not memberships of a group start at repositories. -/
theorem left_mem_repos_of_link (hdb : db.Valid) {l : Link Table ℤ ℤ} (hl : l ∈ db.graph.links)
    (hkind : l.kind ≠ .groupsUsers) : l.left ∈ db.repos.ids := by
  obtain ⟨kind, left, right, role⟩ := l
  cases kind with
  | groupsUsers => exact absurd rfl hkind
  | reposUsers => exact hdb.reposUsers_repo _ hl
  | reposGroups => exact hdb.reposGroups_repo _ hl
  | _ => exact hl.elim

/-- The repositories a cascade drops are the ones it is about. -/
theorem exists_of_link_notMem_deleteRepos (hdb : db.Valid) {p : ℤ × Repo → Bool}
    {l : Link Table ℤ ℤ} (hin : l ∈ db.graph.links) (hout : l ∉ (db.deleteRepos p).graph.links) :
    l.kind ≠ .groupsUsers ∧ ∃ repo, (l.left, repo) ∈ db.repos.rows ∧ p (l.left, repo) = false := by
  have hdropped (hkind : l.kind ≠ .groupsUsers) (hkept : l.left ∉ (db.repos.filter p).ids) :
      ∃ repo, (l.left, repo) ∈ db.repos.rows ∧ p (l.left, repo) = false := by
    obtain ⟨repo, hrepo⟩ := AutoTable.mem_ids.mp (left_mem_repos_of_link hdb hin hkind)
    refine ⟨repo, hrepo, Bool.eq_false_iff.mpr fun hp ↦ hkept ?_⟩
    exact List.mem_map_of_mem (List.mem_filter.mpr ⟨hrepo, hp⟩)
  obtain ⟨kind, left, right, role⟩ := l
  cases kind with
  | groupsUsers => exact absurd hin hout
  | reposUsers | reposGroups =>
    refine ⟨by simp, hdropped (by simp) fun hkept ↦ hout ?_⟩
    exact List.mem_filter.mpr ⟨hin, decide_eq_true hkept⟩
  | _ => exact hin.elim

theorem Effect.link_deleted (hdb : db.Valid) (h : s.Effect now db db') {l : Link Table ℤ ℤ}
    (hin : l ∈ db.graph.links) (hout : l ∉ db'.graph.links) :
    s.change = some (.remove l.key) ∨ (∃ g, s = deleteGroup g ∧ db.schema.about l.key g) ∨
      l.kind ≠ .groupsUsers ∧ DeletesRepo db l.left s := by
  cases s with
  | insertGroupUser | insertRepoUser | insertRepoGroup =>
    obtain ⟨-, -, -, t, ht, rfl⟩ := h
    obtain ⟨kind, left, right, role⟩ := l
    cases kind <;> simp [Database.graph, (KeyTable.rows_of_insert ht).1] at hin hout <;>
      first
      | exact absurd hin hout
      | exact absurd hin hout.1
  | deleteGroupUser | deleteRepoUser | deleteRepoGroup =>
    obtain rfl := h
    obtain ⟨kind, left, right, role⟩ := l
    refine Or.inl ?_
    cases kind <;> simp_all [Database.graph, change, Link.key]
  | deleteGroup groupId =>
    obtain rfl := h
    refine Or.inr (Or.inl ⟨groupId, rfl, by_contra fun hg ↦ hout ?_⟩)
    change l ∈ ((deleteGroup groupId).apply now db).2.graph.links
    rw [graph_apply hdb rfl now]
    exact ⟨hin, hg⟩
  | deleteRepoByName name =>
    obtain rfl := h
    obtain ⟨hkind, repo, hrepo, hp⟩ := exists_of_link_notMem_deleteRepos hdb hin hout
    have hname : repo.name = name := by simpa using hp
    exact Or.inr (Or.inr ⟨hkind, Or.inr ⟨repo, hrepo, by rw [hname]⟩⟩)
  | deleteRepo repoId =>
    obtain rfl := h
    obtain ⟨hkind, repo, hrepo, hp⟩ := exists_of_link_notMem_deleteRepos hdb hin hout
    have hid : l.left = repoId := by simpa using hp
    exact Or.inr (Or.inr ⟨hkind, Or.inl (by rw [hid])⟩)
  | _ => exact absurd (h.links_eq (by simp) (by simp) (by simp) ▸ hin) hout

/-! ## Groups and repositories -/

theorem Effect.group_deleted (h : s.Effect now db db') {row : ℤ × Group}
    (hin : row ∈ db.groups.rows) (hout : row ∉ db'.groups.rows) : s = deleteGroup row.1 := by
  have hedit := Edit.cases_of_notMem_apply hin (h.groups_rows ▸ hout)
  cases s with
  | deleteGroup =>
    obtain rfl : row.1 = _ := by simpa [editGroups] using hedit
    rfl
  | _ => simp [editGroups] at hedit

theorem Effect.repo_deleted (h : s.Effect now db db') {row : ℤ × Repo}
    (hin : row ∈ db.repos.rows) (hout : row ∉ db'.repos.rows) :
    s = deleteRepo row.1 ∨ s = deleteRepoByName row.2.name ∨
      ∃ name desc isPublic, s = updateRepo name desc isPublic row.1 := by
  have hedit := Edit.cases_of_notMem_apply hin (h.repos_rows ▸ hout)
  cases s with
  | deleteRepo =>
    obtain rfl : row.1 = _ := by simpa [editRepos] using hedit
    exact Or.inl rfl
  | deleteRepoByName =>
    obtain rfl : row.2.name = _ := by simpa [editRepos] using hedit
    exact Or.inr (Or.inl rfl)
  | updateRepo name desc isPublic repoId =>
    -- only the row with the number is updated
    have hne : AutoTable.modifyRow repoId (fun _ ↦ ⟨name, desc, isPublic⟩) row ≠ row := by
      simpa [editRepos] using hedit
    obtain rfl : row.1 = repoId := by_contra fun hid ↦ hne (if_neg hid)
    exact Or.inr (Or.inr ⟨name, desc, isPublic, rfl⟩)
  | _ => simp [editRepos] at hedit

end Scissy.Write
