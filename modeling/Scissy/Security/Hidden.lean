import Scissy.Access.Session
import Scissy.Client.Shell

/-!
# Hidden repositories

A private repository is hidden from a user without a role on it. `DiffersInHidden` relates two
worlds that differ only in the description, the contents and the members of repositories hidden
from one user. The session, the names and the flags are then the same, and so is every role of that
user, because a role on a hidden repository is none in both worlds.

The views that open one repository ask `CHECK_PUBLIC_REPO` first, which lets nothing hidden through
(`checkPublicRepo_sameAnswer`); what follows reads the same rows and directories in both worlds.
`reposList` and `shellControl` do not ask. For them there are only the conditions under which the
answers happen to be the same (`listedRepos_eq`, `shellStatus_eq`).

## What is not hidden

The name of a private repository, and that it is private, show in places that everybody may see: a
creation with a name that is used is refused, and the list of repositories has an entry for every
row. So names and flags are the same in both worlds by definition, as are accounts and groups. What
is left to hide is what the views guard.
-/

open Authority Relational Interaction Interaction.Prog

namespace Scissy

open Repositories (getRepoPath)

/-! ## Hidden repositories -/

/-- A private repository on which the user has no role. -/
def Database.Hidden (db : Database) (userId repoId : ℤ) : Prop :=
  db.isPublic? repoId = some false ∧ db.effectiveRole repoId userId = .kNone

/-- The rows have the number, the name and the flag in common, and the description unless it is
hidden. -/
def SameRepo (hidden : ℤ → Prop) (r r' : ℤ × Repo) : Prop :=
  r'.1 = r.1 ∧ r'.2.name = r.2.name ∧ r'.2.isPublic = r.2.isPublic ∧
    (hidden r.1 ∨ r'.2.desc = r.2.desc)

/-- `w'` holds what `w` holds, but for the description, the contents and the members of
repositories that are hidden from the user in both. -/
structure DiffersInHidden (d : Deployment) (userId : ℤ) (w w' : World) : Prop where
  same : ∀ r : Resource,
    r ∉ [.table .repos, .table .reposGroups, .table .reposUsers, .repositories] → r.Same w w'
  repos : List.Forall₂
    (SameRepo fun repoId ↦ w.db.Hidden userId repoId ∧ w'.db.Hidden userId repoId)
    w.db.repos.rows w'.db.repos.rows
  reposGroups : ∀ repoId, ¬ (w.db.Hidden userId repoId ∧ w'.db.Hidden userId repoId) →
    w'.db.reposGroups.rows.filter (·.repoId = repoId) =
      w.db.reposGroups.rows.filter (·.repoId = repoId)
  reposUsers : ∀ repoId, ¬ (w.db.Hidden userId repoId ∧ w'.db.Hidden userId repoId) →
    w'.db.reposUsers.rows.filter (·.repoId = repoId) =
      w.db.reposUsers.rows.filter (·.repoId = repoId)
  repositories : ∀ path,
    (∀ repoId, w.db.Hidden userId repoId ∧ w'.db.Hidden userId repoId →
      path ≠ getRepoPath d repoId) → w'.repositories path = w.repositories path

/-- Different repositories have different directories. -/
theorem getRepoPath_injOn (d : Deployment) {i j : ℤ} (hi : 0 < i ∧ i ≤ maxRowid)
    (hj : 0 < j ∧ j ≤ maxRowid) (h : getRepoPath d i = getRepoPath d j) : i = j := by
  rw [getRepoPath, getRepoPath, List.append_cancel_left_eq] at h
  have hnat := Numeral.numeral_injective (by decide) (by decide) h
  rw [maxRowid] at hi hj
  omega

theorem Database.Valid.reportedRole_congr {db db' : Database} (h : db.Valid) (h' : db'.Valid)
    {repoId : ℤ} (hgroups : db'.groupsUsers = db.groupsUsers)
    (hreposGroups : db'.reposGroups.rows.filter (·.repoId = repoId) =
      db.reposGroups.rows.filter (·.repoId = repoId))
    (hreposUsers : db'.reposUsers.rows.filter (·.repoId = repoId) =
      db.reposUsers.rows.filter (·.repoId = repoId)) (userId : ℤ) :
    db'.reportedRole repoId userId = db.reportedRole repoId userId := by
  have hmem {α : Type} {rows rows' : List α} {col : α → ℤ}
      (heq : rows'.filter (col · = repoId) = rows.filter (col · = repoId)) {P : α → Prop} :
      (∃ row ∈ rows', col row = repoId ∧ P row) ↔ ∃ row ∈ rows, col row = repoId ∧ P row := by
    have hrow (row : α) : row ∈ rows' ∧ col row = repoId ↔ row ∈ rows ∧ col row = repoId := by
      simpa using congrArg (row ∈ ·) heq
    simp only [← and_assoc, hrow]
  refine (reportedRole_isRole h' repoId userId).eq_of_agree (reportedRole_isRole h repoId userId)
    ?_ ?_ ?_
  · funext r
    exact propext (hmem hreposUsers)
  · funext groupId r
    exact propext (hmem hreposGroups)
  · rw [policy, policy, hgroups]

namespace DiffersInHidden

variable {d : Deployment} {userId : ℤ} {w w' : World}

section Tables

variable (hrel : DiffersInHidden d userId w w')

include hrel

theorem users : w'.db.users = w.db.users := hrel.same (.table .users) (by simp)

theorem usersAuths : w'.db.usersAuths = w.db.usersAuths := hrel.same (.table .usersAuths) (by simp)

theorem groups : w'.db.groups = w.db.groups := hrel.same (.table .groups) (by simp)

theorem groupsUsers : w'.db.groupsUsers = w.db.groupsUsers :=
  hrel.same (.table .groupsUsers) (by simp)

theorem session_eq (cookies : Cookies) (isSsl : Bool) :
    w'.db.session cookies isSsl = w.db.session cookies isSsl := by
  simp only [Database.session, Query.rows, Database.usersNaturalJoinUsersAuths, hrel.users,
    hrel.usersAuths]

theorem repoGetId_rows (name : Bytes) :
    (Query.repoGetId name).rows 0 w'.db = (Query.repoGetId name).rows 0 w.db := by
  refine map_filter_eq_of_forall₂ hrel.repos ?_ ?_
  · rintro r r' ⟨-, hname, -⟩
    rw [hname]
  · rintro r r' ⟨hid, -⟩ -
    exact hid

theorem repoIsPublic_rows (repoId : ℤ) :
    (Query.repoIsPublic repoId).rows 0 w'.db = (Query.repoIsPublic repoId).rows 0 w.db := by
  refine map_filter_eq_of_forall₂ hrel.repos ?_ ?_
  · rintro r r' ⟨hid, -⟩
    rw [hid]
  · rintro r r' ⟨-, -, hpublic, -⟩ -
    exact hpublic

theorem reportedRole_eq (h : w.db.Valid) (h' : w'.db.Valid) (repoId : ℤ) :
    w'.db.reportedRole repoId userId = w.db.reportedRole repoId userId := by
  by_cases hhidden : w.db.Hidden userId repoId ∧ w'.db.Hidden userId repoId
  · -- the rows may differ, but the role they give the user is none in both worlds
    have hnone : ∀ {db : Database}, db.Valid → db.Hidden userId repoId →
        db.reportedRole repoId userId = .kNone := by
      intro db hdb hdbhidden
      have hle := Database.reportedRole_le_effectiveRole hdb repoId userId
      rw [hdbhidden.2] at hle
      exact le_bot_iff.mp hle
    rw [hnone h' hhidden.2, hnone h hhidden.1]
  · exact h.reportedRole_congr h' hrel.groupsUsers (hrel.reposGroups _ hhidden)
      (hrel.reposUsers _ hhidden) userId

end Tables

/-! ### The gate -/

variable {A : Env → Prop} {ρ : Type} {session : Session}

theorem query_sameAnswer {β : Type} {q : Query β} (hpick : ∀ pick db, q.rows pick db = q.rows 0 db)
    (heq : q.rows 0 w'.db = q.rows 0 w.db) :
    (issue (Op.query q)).SameAnswer A w w' fun _ ↦ True :=
  ⟨_, query_returns fun pick ↦ hpick pick w.db, heq ▸ query_returns fun pick ↦ hpick pick w'.db,
    trivial⟩

theorem fetch_sameAnswer {β : Type} {q : Query β} (hpick : ∀ pick db, q.rows pick db = q.rows 0 db)
    (heq : q.rows 0 w'.db = q.rows 0 w.db) : (fetch q).SameAnswer A w w' fun _ ↦ True :=
  (query_sameAnswer hpick heq).bind fun _ _ ↦ sameAnswer_done trivial

theorem gitOpen_sameAnswer {path : Bytes} (heq : w'.repositories path = w.repositories path) :
    (issue (Op.gitOpen path)).SameAnswer A w w' fun _ ↦ True :=
  ⟨_, gitOpen_returns path, heq ▸ gitOpen_returns path, trivial⟩

variable [Pb.HasStatus ρ]

theorem setRepoId_sameAnswer (hrel : DiffersInHidden d userId w w') (msg : Pb.RepoRef) :
    (Service.setRepoId msg : Server (Check ρ ℤ)).SameAnswer A w w' fun _ ↦ True := by
  obtain ⟨repoId, repo⟩ := msg
  cases repoId with
  | some id => exact sameAnswer_done trivial
  | none =>
    cases repo with
    | none => exact sameAnswer_done trivial
    | some name =>
      refine (fetch_sameAnswer (fun _ _ ↦ rfl) (hrel.repoGetId_rows name)).bind fun id? _ ↦ ?_
      cases id? <;> exact sameAnswer_done trivial

theorem checkRepoRole_sameAnswer (hrel : DiffersInHidden d userId w w') (h : w.db.Valid)
    (h' : w'.db.Valid) (repoId : ℤ) (role : Pb.Role) :
    (Service.checkRepoRole repoId userId role : Server (Check ρ Unit)).SameAnswer A w w'
      fun _ ↦ True := by
  have hrole : (Db.repoGetUserRole repoId userId).SameAnswer A w w' fun _ ↦ True :=
    ⟨_, repoGetUserRole_returns h repoId userId,
      hrel.reportedRole_eq h h' repoId ▸ repoGetUserRole_returns h' repoId userId, trivial⟩
  refine hrole.bind fun r _ ↦ ?_
  dsimp only
  split_ifs <;> exact sameAnswer_done trivial

/-- `CHECK_PUBLIC_REPO` answers the same in both worlds, and lets nothing hidden through. -/
theorem checkPublicRepo_sameAnswer (hrel : DiffersInHidden d session.userId w w')
    (h : w.db.Valid) (h' : w'.db.Valid) (hA : ∃ e, A e) (msg : Pb.RepoRef) :
    (Service.checkPublicRepo (some session) msg : Server (Check ρ ℤ)).SameAnswer A w w' fun r ↦
      ∀ repoId, r = .ok repoId → repoId ∈ w.db.repos.ids ∧
        ¬ (w.db.Hidden session.userId repoId ∧ w'.db.Hidden session.userId repoId) := by
  have hsame : (Service.checkPublicRepo (some session) msg : Server (Check ρ ℤ)).SameAnswer A w w'
      fun _ ↦ True := by
    refine SameAnswer.andThen ?_ fun repoId ↦ ?_
    · exact hrel.setRepoId_sameAnswer msg
    · refine (fetch_sameAnswer (fun _ _ ↦ rfl) (hrel.repoIsPublic_rows repoId)).bind ?_
      intro public? _
      cases public? with
      | none => exact sameAnswer_done trivial
      | some isPublic =>
        dsimp only
        split_ifs
        · rw [Service.authenticateUser_andThen]
          refine SameAnswer.andThen (hrel.checkRepoRole_sameAnswer h h' repoId .kReader) fun _ ↦ ?_
          exact sameAnswer_done trivial
        · exact sameAnswer_done trivial
  -- what the gate lets through is known from its contract, in one of the two worlds
  obtain ⟨r, hr, hr', -⟩ := hsame
  refine ⟨r, hr, hr', ?_⟩
  rintro repoId rfl
  obtain ⟨-, isPublic, hpublic, hread⟩ :=
    (Service.checkPublicRepo_decides h session msg).of_returns hr hA
  refine ⟨AutoTable.mem_ids.mpr ?_, ?_⟩
  · obtain ⟨repo, hrepo, -⟩ := Database.isPublic?_eq_some_iff.mp hpublic
    exact ⟨repo, hrepo⟩
  · rintro ⟨⟨hprivate, hnone⟩, -⟩
    rw [hpublic] at hprivate
    obtain rfl := Option.some_inj.mp hprivate
    rcases hread with hread | hread
    · cases hread
    · have hle := hread.trans (Database.reportedRole_le_effectiveRole h repoId session.userId)
      rw [hnone] at hle
      exact absurd hle (by decide)

/-! ### The views -/

theorem repositories_eq (hrel : DiffersInHidden d userId w w') {repoId : ℤ}
    (hmem : repoId ∈ w.db.repos.ids)
    (hvisible : ¬ (w.db.Hidden userId repoId ∧ w'.db.Hidden userId repoId)) :
    w'.repositories (getRepoPath d repoId) = w.repositories (getRepoPath d repoId) := by
  refine hrel.repositories _ fun other hother hpath ↦ hvisible ?_
  obtain ⟨repo, hrepo, -⟩ := Database.isPublic?_eq_some_iff.mp hother.1.1
  rwa [getRepoPath_injOn d (AutoTable.bounds_of_mem_ids hmem)
    (AutoTable.bounds_of_mem_ids (AutoTable.mem_ids_of_mem hrepo)) hpath]

theorem gitView_sameAnswer (hrel : DiffersInHidden d session.userId w w') (h : w.db.Valid)
    (h' : w'.db.Valid) (hA : ∃ e, A e) (msg : Pb.RepoRef) (view : GitRepository → Outcome ρ) :
    (Service.gitView d (some session) msg view).SameAnswer A w w' fun _ ↦ True := by
  refine (hrel.checkPublicRepo_sameAnswer h h' hA msg).orReturn (fun _ _ ↦ trivial) ?_
  intro repoId hgate
  obtain ⟨hmem, hvisible⟩ := hgate repoId rfl
  refine (gitOpen_sameAnswer (hrel.repositories_eq hmem hvisible)).bind fun repo _ ↦ ?_
  cases repo <;> exact sameAnswer_done trivial

omit [Pb.HasStatus ρ]

theorem repoGetInfo_sameAnswer (hrel : DiffersInHidden d session.userId w w') (h : w.db.Valid)
    (h' : w'.db.Valid) (hA : ∃ e, A e) (request : Pb.RepoSelector) :
    (Service.repoGetInfo d (some session) request).SameAnswer A w w' fun _ ↦ True := by
  refine (hrel.checkPublicRepo_sameAnswer h h' hA _).orReturn (fun _ _ ↦ trivial) ?_
  intro repoId hgate
  obtain ⟨hmem, hvisible⟩ := hgate repoId rfl
  have hrows : (Query.repoGetInfo repoId).rows 0 w'.db =
      (Query.repoGetInfo repoId).rows 0 w.db := by
    refine map_filter_eq_of_forall₂ hrel.repos ?_ ?_
    · rintro r r' ⟨hid, -⟩
      rw [hid]
    · rintro r r' ⟨-, hname, hpublic, hhidden | hdesc⟩ hr
      · exact absurd (of_decide_eq_true hr ▸ hhidden) hvisible
      · rw [hname, hpublic, hdesc]
  refine (fetch_sameAnswer (fun _ _ ↦ rfl) hrows).bind fun row _ ↦ ?_
  cases row with
  | none => exact sameAnswer_done trivial
  | some row =>
    exact (gitOpen_sameAnswer (hrel.repositories_eq hmem hvisible)).bind fun _ _ ↦
      sameAnswer_done trivial

theorem repoListMembers_sameAnswer (hrel : DiffersInHidden d session.userId w w')
    (h : w.db.Valid) (h' : w'.db.Valid) (hA : ∃ e, A e) (request : Pb.RepoSelector) :
    (Service.repoListMembers (some session) request).SameAnswer A w w' fun _ ↦ True := by
  refine (hrel.checkPublicRepo_sameAnswer h h' hA _).orReturn (fun _ _ ↦ trivial) ?_
  intro repoId hgate
  obtain ⟨-, hvisible⟩ := hgate repoId rfl
  have hgroups : (Query.repoListGroups repoId).rows 0 w'.db =
      (Query.repoListGroups repoId).rows 0 w.db := by
    rw [Query.rows, Query.rows, hrel.groups, hrel.reposGroups repoId hvisible]
  have husers : (Query.repoListUsers repoId).rows 0 w'.db =
      (Query.repoListUsers repoId).rows 0 w.db := by
    rw [Query.rows, Query.rows, hrel.users, hrel.reposUsers repoId hvisible]
  refine (query_sameAnswer (fun _ _ ↦ rfl) hgroups).bind fun _ _ ↦ ?_
  refine (query_sameAnswer (fun _ _ ↦ rfl) husers).bind fun _ _ ↦ sameAnswer_done trivial

end DiffersInHidden

/-! ## The list of repositories -/

/-- What `reposList` shows of a row. -/
def listedInfo (d : Deployment) (w : World) : Bytes × Bytes × ℤ × Bool → Pb.RepoInfo
  | (name, desc, id, isPublic) =>
    { name := some name
      id := some id
      desc := some desc
      isPublic := some isPublic
      lastCommitTime := (w.repositories (getRepoPath d id)).map (·.lastCommitTime) }

def listedRepos (d : Deployment) (w : World) : List Pb.RepoInfo :=
  (Query.reposList.rows 0 w.db).map (listedInfo d w)

section ReposList

variable {A : Env → Prop} {d : Deployment} {w w' : World}

theorem reposListInfos_returns (rows : List (Bytes × Bytes × ℤ × Bool)) :
    (Service.reposListInfos d rows).Returns A w (rows.map (listedInfo d w)) := by
  induction rows with
  | nil => exact returns_done _
  | cons row rows ih => exact (gitOpen_returns _).bind (ih.bind (returns_done _))

theorem reposList_returns (d : Deployment) (w : World) : (Service.reposList d).Returns A w
    (.returned true { repos := listedRepos d w, status := some .kSucceed }) :=
  (query_returns fun _ ↦ rfl).bind ((reposListInfos_returns _).bind (returns_done _))

theorem mem_listedRepos {info : Pb.RepoInfo} : info ∈ listedRepos d w ↔
    ∃ r ∈ w.db.repos.rows, info = listedInfo d w (r.2.name, r.2.desc, r.1, r.2.isPublic) := by
  rw [listedRepos, List.mem_map, Query.rows]
  simp only [orderBy, List.mem_insertionSort, List.mem_map]
  constructor
  · rintro ⟨-, ⟨r, hr, rfl⟩, rfl⟩
    exact ⟨r, hr, rfl⟩
  · rintro ⟨r, hr, rfl⟩
    exact ⟨_, ⟨r, hr, rfl⟩, rfl⟩

/-- With nothing hidden the lists are the same. -/
theorem DiffersInHidden.listedRepos_eq {userId : ℤ} (hrel : DiffersInHidden d userId w w')
    (hnone : ∀ repoId, ¬ w.db.Hidden userId repoId) : listedRepos d w' = listedRepos d w := by
  have hrepositories : w'.repositories = w.repositories := by
    funext path
    exact hrel.repositories path fun repoId hhidden ↦ absurd hhidden.1 (hnone repoId)
  have hrepos : w'.db.repos.rows = w.db.repos.rows := by
    symm
    rw [← List.forall₂_eq_eq_eq]
    refine hrel.repos.imp ?_
    rintro ⟨id, repo⟩ ⟨id', repo'⟩ ⟨hid, hname, hpublic, hhidden | hdesc⟩
    · exact absurd hhidden.1 (hnone id)
    · obtain ⟨name, desc, isPublic⟩ := repo
      obtain ⟨name', desc', isPublic'⟩ := repo'
      dsimp only at hid hname hpublic hdesc
      rw [hid, hname, hpublic, hdesc]
  rw [listedRepos, listedRepos, Query.rows, Query.rows, hrepos]
  refine List.map_congr_left fun row _ ↦ ?_
  rw [listedInfo, listedInfo, hrepositories]

end ReposList

/-! ## The ssh shell -/

section ShellControl

variable {d : Deployment} {userId : ℤ} {w w' : World}

/-- What the shell is told about a user without a hidden repository is the same. -/
theorem DiffersInHidden.shellStatus_eq (hrel : DiffersInHidden d userId w w') (h : w.db.Valid)
    (h' : w'.db.Valid) {request : Pb.ShellControl}
    (hguard : ∀ repoId repo, (repoId, repo) ∈ w.db.repos.rows → repo.name = request.repoName →
      w.db.Hidden userId repoId → request.userId = userId ∨ request.userId ∉ w.db.users.ids) :
    shellStatus d w'.db request = shellStatus d w.db request := by
  rw [shellStatus, shellStatus, hrel.repoGetId_rows]
  cases hname : ((Query.repoGetId request.repoName).rows 0 w.db).head? with
  | none => rfl
  | some repoId =>
    obtain ⟨repo, hrepo, hreponame⟩ := h.head?_repoGetId_iff.mp hname
    have hrole : w'.db.reportedRole repoId request.userId =
        w.db.reportedRole repoId request.userId := by
      by_cases hhidden : w.db.Hidden userId repoId ∧ w'.db.Hidden userId repoId
      · -- the role of the caller is none, and nobody has none either
        rcases hguard repoId repo hrepo hreponame hhidden.1 with huser | huser
        · rw [huser]
          exact hrel.reportedRole_eq h h' repoId
        · rw [h.reportedRole_of_notMem_users huser,
            h'.reportedRole_of_notMem_users (hrel.users ▸ huser)]
      · exact h.reportedRole_congr h' hrel.groupsUsers (hrel.reposGroups _ hhidden)
          (hrel.reposUsers _ hhidden) _
    have hpublic : w'.db.isPublic? repoId = w.db.isPublic? repoId := by
      rw [Database.isPublic?, Database.isPublic?, hrel.repoIsPublic_rows]
    have hadmin : (Query.userIsAdmin request.userId).rows 0 w'.db =
        (Query.userIsAdmin request.userId).rows 0 w.db := by
      rw [Query.rows, Query.rows, hrel.users]
    dsimp only
    rw [hrole, hpublic, hadmin]

end ShellControl

end Scissy
