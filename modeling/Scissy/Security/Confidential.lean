import Scissy.Security.Hidden

/-!
# What the views tell about private repositories

Two worlds that differ only in what is hidden from a user should look the same to that user.
`confidential_iff` says for which calls they do: all the views that open one repository, the list
of repositories when nothing is hidden, and the shell's question about the caller, about nobody, or
on a repository that is not hidden. The others tell: `reposList` opens every repository and shows
its description, and `shellControl`, which is served to everybody along with the other calls,
reports the role of whatever user the request names.

## Two directions

That a call is answered the same is a walk through its handler: each operation is answered the same
in both worlds, until the check of the views is passed, and after that the repository is not hidden
(`Security/Hidden`). That a call tells something needs one other world, which has to be valid and to
differ only in what is hidden. Changing a description is harmless. Changing a role is not, since the
user asked about must be a member of the repository in the one world and have no role in the other,
while the caller has none in either.
-/

open Authority Relational Interaction Interaction.Prog

namespace Scissy

/-! ## Confidentiality -/

/-- The calls that show repositories. -/
def Rpc.showsRepos : Rpc → Bool
  | .reposList | .repoGetInfo _ | .repoListMembers _ | .repoListBranches _ | .repoGetCommit _
  | .repoGetLog _ | .repoGetTree _ | .repoGetBlob _ | .repoGetPatch _ | .repoGetTags _
  | .shellControl _ => true
  | _ => false

/-- The caller gets the same reply in every world that differs only in what is hidden. -/
def Confidential (d : Deployment) (cookies : Cookies) (isSsl : Bool) (rpc : Rpc) (w : World) :
    Prop :=
  ∀ w' : World, w'.db.Valid → DiffersInHidden d (w.db.session cookies isSsl).userId w w' →
    ∀ env env' : ℕ → Env, ((sessionHandle d cookies isSsl rpc).run env' w').1 =
      ((sessionHandle d cookies isSsl rpc).run env w).1

/-- A call that is safe to answer: the list when no repository is hidden from the user, and the
question of the shell about the user itself, about nobody, or about a repository that is not
hidden. -/
def Rpc.Guarded (db : Database) (userId : ℤ) : Rpc → Prop
  | .reposList => ∀ repoId, ¬ db.Hidden userId repoId
  | .shellControl request => ∀ repoId repo, (repoId, repo) ∈ db.repos.rows →
      repo.name = request.repoName → db.Hidden userId repoId →
      request.userId = userId ∨ request.userId ∉ db.users.ids
  | _ => True

variable {d : Deployment} {w w' : World} {A : Env → Prop}

theorem answer_sameAnswer {ρ : Type} {message : ρ → Pb.Message} {handler : Server (Outcome ρ)}
    (h : handler.SameAnswer A w w' fun _ ↦ True) :
    (answer message handler).SameAnswer A w w' fun _ ↦ True :=
  h.bind fun _ _ ↦ sameAnswer_done trivial

theorem DiffersInHidden.dispatch_sameAnswer {session : Session}
    (hrel : DiffersInHidden d session.userId w w') (h : w.db.Valid) (h' : w'.db.Valid)
    (hA : ∃ e, A e) {rpc : Rpc} (hrpc : rpc.showsRepos = true)
    (hguard : rpc.Guarded w.db session.userId) :
    (dispatch d (some session) rpc).SameAnswer A w w' fun _ ↦ True := by
  cases rpc with
  | reposList =>
    refine answer_sameAnswer ⟨_, reposList_returns d w, ?_, trivial⟩
    rw [← hrel.listedRepos_eq hguard]
    exact reposList_returns d w'
  | shellControl request =>
    refine answer_sameAnswer ⟨_, shellControl_returns h d request, ?_, trivial⟩
    rw [← hrel.shellStatus_eq h h' hguard]
    exact shellControl_returns h' d request
  | repoGetInfo request => exact answer_sameAnswer (hrel.repoGetInfo_sameAnswer h h' hA request)
  | repoListMembers request =>
    exact answer_sameAnswer (hrel.repoListMembers_sameAnswer h h' hA request)
  | repoListBranches | repoGetCommit | repoGetLog | repoGetTree | repoGetBlob | repoGetPatch
  | repoGetTags => exact answer_sameAnswer (hrel.gitView_sameAnswer h h' hA _ _)
  | _ => cases hrpc

theorem confidential_of_guarded (h : w.db.Valid) {cookies : Cookies} {isSsl : Bool} {rpc : Rpc}
    (hrpc : rpc.showsRepos = true)
    (hguard : rpc.Guarded w.db (w.db.session cookies isSsl).userId) :
    Confidential d cookies isSsl rpc w := by
  intro w' h' hrel env env'
  have hauth : (Session.auth cookies isSsl).SameAnswer (fun _ ↦ True) w w'
      (· = w.db.session cookies isSsl) :=
    ⟨_, sessionAuth_returns cookies isSsl,
      hrel.session_eq cookies isSsl ▸ sessionAuth_returns cookies isSsl, rfl⟩
  have hsame : (sessionHandle d cookies isSsl rpc).SameAnswer (fun _ ↦ True) w w' fun _ ↦ True := by
    refine hauth.bind ?_
    rintro _ rfl
    exact hrel.dispatch_sameAnswer h h' ⟨{}, trivial⟩ hrpc hguard
  exact (hsame.run_eq env env' (fun _ ↦ trivial) fun _ ↦ trivial).symm

/-! ## What is not confidential

For a call that is not guarded there is a world the caller can tell apart: one where the hidden
repository has another description, or where the user asked about is its only member, with
another role. -/

theorem same_of_repos (w : World) (repos : AutoTable Repo maxRowid)
    (reposGroups : KeyTable RepoGroup.key) (reposUsers : KeyTable RepoUser.key) (r : Resource)
    (hr : r ∉ [.table .repos, .table .reposGroups, .table .reposUsers, .repositories]) :
    r.Same w { w with db := { w.db with repos, reposGroups, reposUsers } } := by
  cases r with
  | table t => cases t <;> first | rfl | simp at hr
  | _ => rfl

theorem DiffersInHidden.redescribe {userId repoId : ℤ} {repo : Repo} (desc : Bytes)
    (hhidden : w.db.Hidden userId repoId) (hrepo : (repoId, repo) ∈ w.db.repos.rows) :
    DiffersInHidden d userId w { w with db := { w.db with
      repos := w.db.repos.modify repoId fun _ ↦ { repo with desc } } } := by
  have hrow : AutoTable.modifyRow repoId (fun _ ↦ { repo with desc }) (repoId, repo) =
      (repoId, { repo with desc }) := if_pos rfl
  obtain ⟨repo', hrepo', hprivate⟩ := Database.isPublic?_eq_some_iff.mp hhidden.1
  obtain rfl := AutoTable.eq_of_mem_of_mem hrepo hrepo'
  constructor
  · exact same_of_repos w _ _ _
  · rw [AutoTable.modify_rows, List.forall₂_map_right_iff, List.forall₂_same]
    rintro ⟨id, r⟩ hr
    by_cases hid : id = repoId
    · subst hid
      obtain rfl := AutoTable.eq_of_mem_of_mem hrepo hr
      rw [hrow]
      refine ⟨rfl, rfl, rfl, Or.inl ⟨hhidden, Database.isPublic?_eq_some_iff.mpr ?_, hhidden.2⟩⟩
      exact ⟨{ repo with desc }, List.mem_map.mpr ⟨_, hrepo, hrow⟩, hprivate⟩
    · rw [AutoTable.modifyRow, if_neg hid]
      exact ⟨rfl, rfl, rfl, Or.inr rfl⟩
  · exact fun _ _ ↦ rfl
  · exact fun _ _ ↦ rfl
  · exact fun _ _ ↦ rfl

theorem Database.Valid.redescribe {db : Database} (h : db.Valid) {repoId : ℤ} {repo : Repo}
    (desc : Bytes) (hrepo : (repoId, repo) ∈ db.repos.rows) :
    Valid { db with repos := db.repos.modify repoId fun _ ↦ { repo with desc } } := by
  have heffect : (Write.updateRepo repo.name desc repo.isPublic repoId).Effect 0 db
      { db with repos := db.repos.modify repoId fun _ ↦ { repo with desc } } := by
    refine ⟨fun _ r hr hne hname ↦ hne ?_, rfl⟩
    rw [h.repo_eq_of_name hr hrepo hname]
  exact heffect.valid h

namespace Database

/-- `db` with `userId` as the only member of a repository. -/
def soleMember (db : Database) (repoId userId : ℤ) (role : Pb.Role) : Database :=
  { db with
    reposGroups := db.reposGroups.filter fun r ↦ decide (r.repoId ≠ repoId)
    reposUsers := ((db.reposUsers.filter fun r ↦ decide (r.repoId ≠ repoId)).insert
      ⟨repoId, userId, role.toInt⟩).getD db.reposUsers }

variable {db : Database} {repoId userId : ℤ} {role : Pb.Role}

theorem soleMember_reposUsers : (db.soleMember repoId userId role).reposUsers.rows =
    (db.reposUsers.rows.filter fun r ↦ decide (r.repoId ≠ repoId)) ++
      [⟨repoId, userId, role.toInt⟩] := by
  obtain ⟨t, ht⟩ : ∃ t, (db.reposUsers.filter fun r ↦ decide (r.repoId ≠ repoId)).insert
      ⟨repoId, userId, role.toInt⟩ = some t := by
    refine KeyTable.exists_insert_of_notMem fun hkey ↦ ?_
    obtain ⟨r, hr, heq⟩ := List.mem_map.mp hkey
    exact of_decide_eq_true (List.mem_filter.mp hr).2 (Prod.mk.inj heq).1
  rw [soleMember, ht, Option.getD_some, (KeyTable.rows_of_insert ht).1, KeyTable.filter_rows]

theorem Valid.soleMember (h : db.Valid) (hrepo : repoId ∈ db.repos.ids)
    (huser : userId ∈ db.users.ids) : (db.soleMember repoId userId role).Valid :=
  { h with
    reposGroups_repo := h.reposGroups_repo.subset (KeyTable.filter_subset _)
    reposGroups_group := h.reposGroups_group.subset (KeyTable.filter_subset _)
    reposGroups_role := h.reposGroups_role.subset (KeyTable.filter_subset _)
    reposUsers_repo := soleMember_reposUsers ▸
      (h.reposUsers_repo.subset List.filter_sublist.subset).append_singleton hrepo
    reposUsers_user := soleMember_reposUsers ▸
      (h.reposUsers_user.subset List.filter_sublist.subset).append_singleton huser
    reposUsers_role := soleMember_reposUsers ▸
      (h.reposUsers_role.subset List.filter_sublist.subset).append_singleton
        (toInt_mem_roleIds role) }

theorem grants_soleMember_iff {counts : Pb.Role → Pb.Role → Prop} {u : ℤ} {r : Pb.Role} :
    (db.soleMember repoId userId role).policy.Grants counts repoId u r ↔
      u = userId ∧ r ≤ role := by
  constructor
  · rintro (⟨-, ⟨row, hrow, hrepo, rfl, rfl⟩, hr⟩ | ⟨g, -, -, ⟨row, hrow, hrepo, -⟩, -⟩)
    · rw [soleMember_reposUsers, List.mem_append, List.mem_singleton] at hrow
      rcases hrow with hrow | rfl
      · exact absurd hrepo (of_decide_eq_true (List.mem_filter.mp hrow).2)
      · exact ⟨rfl, roleOfId_toInt role ▸ hr⟩
    · exact absurd hrepo (of_decide_eq_true (List.mem_filter.mp hrow).2)
  · rintro ⟨rfl, hr⟩
    refine Or.inl ⟨role, ⟨⟨repoId, u, role.toInt⟩, ?_, rfl, rfl, roleOfId_toInt role⟩, hr⟩
    rw [soleMember_reposUsers]
    exact List.mem_append_right _ (List.mem_singleton_self _)

theorem Valid.reportedRole_soleMember (h : (db.soleMember repoId userId role).Valid) :
    (db.soleMember repoId userId role).reportedRole repoId userId = role := by
  refine (reportedRole_isRole h repoId userId).eq fun r _ ↦ ?_
  rw [grants_soleMember_iff]
  exact (and_iff_right rfl).symm

/-- A hidden repository stays hidden from everybody but its new member. -/
theorem hidden_soleMember {u : ℤ} (hu : u ≠ userId) (hhidden : db.Hidden u repoId) :
    (db.soleMember repoId userId role).Hidden u repoId := by
  refine ⟨hhidden.1, (effectiveRole_isRole _ repoId u).eq (Policy.isRole_bot fun r _ hg ↦ ?_)⟩
  exact hu (grants_soleMember_iff.mp hg).1

end Database

theorem DiffersInHidden.soleMember {u repoId userId : ℤ} {role : Pb.Role} (hu : u ≠ userId)
    (hhidden : w.db.Hidden u repoId) :
    DiffersInHidden d u w { w with db := w.db.soleMember repoId userId role } := by
  have hother : ∀ repoId', ¬ (w.db.Hidden u repoId' ∧
      (w.db.soleMember repoId userId role).Hidden u repoId') → repoId' ≠ repoId := by
    rintro _ hvisible rfl
    exact hvisible ⟨hhidden, Database.hidden_soleMember hu hhidden⟩
  constructor
  · exact same_of_repos w _ _ _
  · exact List.forall₂_same.mpr fun r _ ↦ ⟨rfl, rfl, rfl, Or.inr rfl⟩
  · intro repoId' hvisible
    have hne := hother repoId' hvisible
    change (w.db.reposGroups.rows.filter _).filter _ = _
    rw [List.filter_filter]
    refine List.filter_congr fun r _ ↦ ?_
    by_cases hr : r.repoId = repoId' <;> simp [hr, hne]
  · intro repoId' hvisible
    have hne := hother repoId' hvisible
    have hnew : ([⟨repoId, userId, role.toInt⟩] : List RepoUser).filter
        (·.repoId = repoId') = [] := by
      simp [hne.symm]
    rw [Database.soleMember_reposUsers, List.filter_append, hnew, List.append_nil,
      List.filter_filter]
    refine List.filter_congr fun r _ ↦ ?_
    by_cases hr : r.repoId = repoId' <;> simp [hr, hne]
  · exact fun _ _ ↦ rfl

theorem run_sessionHandle {cookies : Cookies} {isSsl : Bool} {rpc : Rpc} {reply : Reply}
    (h : (dispatch d (some (w.db.session cookies isSsl)) rpc).Returns (fun _ ↦ True) w reply)
    (env : ℕ → Env) : ((sessionHandle d cookies isSsl rpc).run env w).1 = reply :=
  congrArg Prod.fst (((sessionAuth_returns cookies isSsl).bind h).run env fun _ ↦ trivial)

/-- Equal replies to `reposList` are equal lists. -/
theorem listedRepos_eq_of_reply {cookies : Cookies} {isSsl : Bool} {env env' : ℕ → Env}
    (h : ((sessionHandle d cookies isSsl .reposList).run env' w').1 =
      ((sessionHandle d cookies isSsl .reposList).run env w).1) :
    listedRepos d w' = listedRepos d w := by
  rw [run_sessionHandle (answer_returns (reposList_returns d w')),
    run_sessionHandle (answer_returns (reposList_returns d w))] at h
  injection h with houtcome _
  injection houtcome with _ hmessage
  injection hmessage with hlist
  injection hlist

theorem desc_eq_of_listedRepos_eq (h : listedRepos d w' = listedRepos d w) {id : ℤ}
    {repo repo' : Repo} (hrepo : (id, repo) ∈ w.db.repos.rows)
    (hrepo' : (id, repo') ∈ w'.db.repos.rows) : repo'.desc = repo.desc := by
  have hmem := (mem_listedRepos (d := d)).mpr ⟨_, hrepo', rfl⟩
  rw [h, mem_listedRepos] at hmem
  obtain ⟨⟨id', r⟩, hr, hinfo⟩ := hmem
  simp only [listedInfo, Pb.RepoInfo.mk.injEq, Option.some.injEq] at hinfo
  obtain ⟨-, -, rfl, -, hdesc, -⟩ := hinfo
  rw [hdesc, AutoTable.eq_of_mem_of_mem hrepo hr]

/-- Equal replies to `shellControl` are equal answers to the shell. -/
theorem shellStatus_eq_of_reply (h : w.db.Valid) (h' : w'.db.Valid) {cookies : Cookies}
    {isSsl : Bool} {request : Pb.ShellControl} {env env' : ℕ → Env}
    (heq : ((sessionHandle d cookies isSsl (.shellControl request)).run env' w').1 =
      ((sessionHandle d cookies isSsl (.shellControl request)).run env w).1) :
    shellStatus d w'.db request = shellStatus d w.db request := by
  rw [run_sessionHandle (answer_returns (shellControl_returns h' d request)),
    run_sessionHandle (answer_returns (shellControl_returns h d request))] at heq
  injection heq with houtcome _
  injection houtcome with _ hmessage
  injection hmessage

theorem not_confidential_reposList (h : w.db.Valid) {cookies : Cookies} {isSsl : Bool} {repoId : ℤ}
    (hhidden : w.db.Hidden (w.db.session cookies isSsl).userId repoId) :
    ¬ Confidential d cookies isSsl .reposList w := by
  intro hconf
  obtain ⟨repo, hrepo, -⟩ := Database.isPublic?_eq_some_iff.mp hhidden.1
  -- any other description does
  have hlist := listedRepos_eq_of_reply (hconf _ (h.redescribe (0 :: repo.desc) hrepo)
    (DiffersInHidden.redescribe (0 :: repo.desc) hhidden hrepo) (fun _ ↦ {}) fun _ ↦ {})
  have hrepo' : (repoId, { repo with desc := 0 :: repo.desc }) ∈
      (w.db.repos.modify repoId fun _ ↦ { repo with desc := 0 :: repo.desc }).rows :=
    List.mem_map.mpr ⟨_, hrepo, if_pos rfl⟩
  exact List.cons_ne_self _ _ (desc_eq_of_listedRepos_eq hlist hrepo hrepo')

theorem not_confidential_shellControl (h : w.db.Valid) {cookies : Cookies} {isSsl : Bool}
    {repoId : ℤ} {repo : Repo} {request : Pb.ShellControl}
    (hhidden : w.db.Hidden (w.db.session cookies isSsl).userId repoId)
    (hrepo : (repoId, repo) ∈ w.db.repos.rows) (hname : repo.name = request.repoName)
    (hother : request.userId ≠ (w.db.session cookies isSsl).userId)
    (huser : request.userId ∈ w.db.users.ids) :
    ¬ Confidential d cookies isSsl (.shellControl request) w := by
  intro hconf
  -- make the user the only member, with a role other than the present one
  obtain ⟨role, hrole⟩ : ∃ role, role ≠ w.db.reportedRole repoId request.userId := by
    by_cases hnone : w.db.reportedRole repoId request.userId = .kNone
    · exact ⟨.kOwner, by rw [hnone]; decide⟩
    · exact ⟨.kNone, Ne.symm hnone⟩
  have h' : (w.db.soleMember repoId request.userId role).Valid :=
    h.soleMember (AutoTable.mem_ids_of_mem hrepo) huser
  have hstatus := shellStatus_eq_of_reply h h' (hconf _ h'
    (DiffersInHidden.soleMember hother.symm hhidden) (fun _ ↦ {}) fun _ ↦ {})
  have hid : ((Query.repoGetId request.repoName).rows 0 w.db).head? = some repoId :=
    h.head?_repoGetId_iff.mpr ⟨repo, hrepo, hname⟩
  have hid' : ((Query.repoGetId request.repoName).rows 0
      (w.db.soleMember repoId request.userId role)).head? = some repoId := hid
  rw [shellStatus, shellStatus, hid', hid] at hstatus
  injection hstatus with _ _ hreported
  injection hreported with hreported
  exact hrole (h'.reportedRole_soleMember.symm.trans hreported)

/-- **What the views tell about private repositories.** A call answers the same in all worlds that
differ in what is hidden from the caller exactly when it is not the list with something hidden in
it, and not the shell's question about somebody else on a hidden repository. -/
theorem confidential_iff (h : w.db.Valid) (d : Deployment) (cookies : Cookies) (isSsl : Bool)
    (rpc : Rpc) (hrpc : rpc.showsRepos = true) :
    Confidential d cookies isSsl rpc w ↔
      rpc.Guarded w.db (w.db.session cookies isSsl).userId := by
  refine ⟨fun hconf ↦ ?_, confidential_of_guarded h hrpc⟩
  cases rpc with
  | reposList => exact fun repoId hhidden ↦ not_confidential_reposList h hhidden hconf
  | shellControl request =>
    intro repoId repo hrepo hname hhidden
    by_contra hask
    rw [not_or, not_not] at hask
    exact not_confidential_shellControl h hhidden hrepo hname hask.1 hask.2 hconf
  | _ => trivial

theorem confidential_repoGetInfo :
    Confidential .plain {} false (.repoGetInfo { repoId := some 1 })
      { World.initial with db := .viaGroup .kOwner .kOwner } :=
  (confidential_iff (Database.viaGroup_valid _ _) .plain {} false _ rfl).mpr trivial

/-- Anonymous requests learn the description of a private repository and who owns it. -/
theorem not_confidential :
    let w : World := { World.initial with db := .viaGroup .kOwner .kOwner }
    let described : World := { w with db := { w.db with
      repos := w.db.repos.modify 1 fun _ ↦ ⟨text "r", text "secret", false⟩ } }
    let emptied : World := { w with db := w.db.soleMember 1 1 .kNone }
    let reply (rpc : Rpc) (w : World) : Reply :=
      ((sessionHandle .plain {} false rpc).run (fun _ ↦ {}) w).1
    let ask : Rpc := .shellControl { userId := 1, repoName := text "r" }
    w.db.Valid ∧
      (described.db.Valid ∧ DiffersInHidden .plain 0 w described ∧
        reply .reposList described ≠ reply .reposList w) ∧
      emptied.db.Valid ∧ DiffersInHidden .plain 0 w emptied ∧ reply ask emptied ≠ reply ask w := by
  intro w described emptied reply ask
  have hrepo : (1, ⟨text "r", [], false⟩) ∈ w.db.repos.rows := by decide
  have hhidden : w.db.Hidden 0 1 := ⟨by decide, by decide⟩
  have h : w.db.Valid := Database.viaGroup_valid _ _
  have h' : emptied.db.Valid := h.soleMember (by decide) (by decide)
  refine ⟨h, ⟨h.redescribe (text "secret") hrepo, .redescribe (text "secret") hhidden hrepo,
    fun hreply ↦ ?_⟩, h', .soleMember (by decide) hhidden, fun hreply ↦ ?_⟩
  · have hrepo' : (1, ⟨text "r", text "secret", false⟩) ∈ described.db.repos.rows := by decide
    have hdesc := desc_eq_of_listedRepos_eq (listedRepos_eq_of_reply hreply) hrepo hrepo'
    exact absurd hdesc (by decide)
  · have hrole := congrArg Pb.ShellStatus.role (shellStatus_eq_of_reply h h' hreply)
    exact absurd hrole (by decide)

end Scissy
