import Scissy.Access.Session
import Scissy.Security.Anonymous

/-!
# Who can raise a role

A role on a repository comes out of three tables: the direct roles, the roles of groups, and the
members of groups. A statement either leaves the policy within what it was (`Effect.policy_sub`)
or adds one fact to it, and only three statements do the latter. Five calls issue one of these.
Two of them add it to a group or a repository they have just created, so no existing repository is
concerned; the other three check an owner first. Everything else takes rights away or leaves them
alone, whatever the operations answer.

## Grants instead of roles

`Justified` compares what the two databases grant, one grant at a time: whatever is granted
afterwards was granted before, or is of the kind that the call gives. It composes along a handler,
which a statement about the reported role of some user would not. The role that is reported is only
mentioned at the end, where it is a name for the grants over paths with two equal roles.

## Global roles

`scissy-set-admin` is the only way to a global role. `KeepsUsers` says so for every operation: the
rows of the users stay as they are, and a new one has the role of the schema's default.
-/

open Authority Relational Interaction Interaction.Prog

namespace Scissy

/-! ## What a statement does to the policy -/

namespace Database

variable {db db' : Database}

theorem policy_sub_of_subset (hdirect : db'.reposUsers.rows ⊆ db.reposUsers.rows)
    (honGroup : db'.reposGroups.rows ⊆ db.reposGroups.rows)
    (hmember : db'.groupsUsers.rows ⊆ db.groupsUsers.rows) : db'.policy.Sub db.policy where
  direct := fun ⟨row, hrow, h⟩ ↦ ⟨row, hdirect hrow, h⟩
  onGroup := fun ⟨row, hrow, h⟩ ↦ ⟨row, honGroup hrow, h⟩
  member := fun ⟨row, hrow, h⟩ ↦ ⟨row, hmember hrow, h⟩

theorem deleteGroups_policy_sub (p : ℤ × Group → Bool) :
    (db.deleteGroups p).policy.Sub db.policy :=
  policy_sub_of_subset (List.Subset.refl _) (KeyTable.filter_subset _) (KeyTable.filter_subset _)

theorem deleteRepos_policy_sub (p : ℤ × Repo → Bool) :
    (db.deleteRepos p).policy.Sub db.policy :=
  policy_sub_of_subset (KeyTable.filter_subset _) (KeyTable.filter_subset _) (List.Subset.refl _)

end Database

namespace Write

variable {now : ℤ} {db db' : Database} {s : Write}

theorem Effect.policy_sub (h : s.Effect now db db') (hs : s.grants = false) :
    db'.policy.Sub db.policy := by
  cases s with
  | insertGroupUser | insertRepoUser | insertRepoGroup => cases hs
  | insertUser | insertUserSshKey =>
    obtain ⟨-, -, t, -, rfl⟩ := h
    exact Policy.Sub.refl _
  | insertUserAuth | insertGroup | insertRepo =>
    obtain ⟨-, t, -, rfl⟩ := h
    exact Policy.Sub.refl _
  | updateRepo =>
    obtain ⟨-, rfl⟩ := h
    exact Policy.Sub.refl _
  | deleteUserAuth | deleteUserSshKey =>
    obtain rfl := h
    exact Policy.Sub.refl _
  | deleteGroup =>
    obtain rfl := h
    exact Database.deleteGroups_policy_sub _
  | deleteRepoByName | deleteRepo =>
    obtain rfl := h
    exact Database.deleteRepos_policy_sub _
  | deleteGroupUser =>
    obtain rfl := h
    exact ⟨id, id, fun ⟨row, hrow, hrest⟩ ↦ ⟨row, KeyTable.filter_subset _ hrow, hrest⟩⟩
  | deleteRepoUser =>
    obtain rfl := h
    exact ⟨fun ⟨row, hrow, hrest⟩ ↦ ⟨row, KeyTable.filter_subset _ hrow, hrest⟩, id, id⟩
  | deleteRepoGroup =>
    obtain rfl := h
    exact ⟨id, fun ⟨row, hrow, hrest⟩ ↦ ⟨row, KeyTable.filter_subset _ hrow, hrest⟩, id⟩

variable {repoId groupId userId roleId : ℤ}

theorem Effect.policy_insertRepoUser (h : (insertRepoUser repoId userId roleId).Effect now db db') :
    db'.policy.Sub (db.policy.addDirect repoId userId (roleOfId roleId)) := by
  obtain ⟨-, -, -, t, ht, rfl⟩ := h
  refine ⟨fun hdirect ↦ (KeyTable.exists_mem_of_insert ht hdirect).imp_right ?_, id, id⟩
  rintro ⟨rfl, rfl, rfl⟩
  exact ⟨rfl, rfl, rfl⟩

theorem Effect.policy_insertRepoGroup
    (h : (insertRepoGroup repoId groupId roleId).Effect now db db') :
    db'.policy.Sub (db.policy.addOnGroup repoId groupId (roleOfId roleId)) := by
  obtain ⟨-, -, -, t, ht, rfl⟩ := h
  refine ⟨id, fun honGroup ↦ (KeyTable.exists_mem_of_insert ht honGroup).imp_right ?_, id⟩
  rintro ⟨rfl, rfl, rfl⟩
  exact ⟨rfl, rfl, rfl⟩

theorem Effect.policy_insertGroupUser
    (h : (insertGroupUser groupId userId roleId).Effect now db db') :
    db'.policy.Sub (db.policy.addMember groupId userId (roleOfId roleId)) := by
  obtain ⟨-, -, -, t, ht, rfl⟩ := h
  refine ⟨id, id, fun hmember ↦ (KeyTable.exists_mem_of_insert ht hmember).imp_right ?_⟩
  rintro ⟨rfl, rfl, rfl⟩
  exact ⟨rfl, rfl, rfl⟩

end Write

theorem exec_policy_sub {β : Type} {op : Op β} (hop : op.grants = false) (e : Env) (w : World) :
    (Interp.exec op e w).2.db.policy.Sub w.db.policy := by
  cases op with
  | write s =>
    rw [exec_write]
    rcases World.write_spec s e w with ⟨-, -, heffect, -⟩ | ⟨-, hw⟩
    · exact heffect.policy_sub hop
    · rw [hw]
      exact Policy.Sub.refl _
  | gitRepositoryInit path =>
    rw [exec_gitRepositoryInit_db]
    exact Policy.Sub.refl _
  | _ => exact Policy.Sub.refl _

/-! ## Who may grant what -/

/-- An owner of the repository adds a user or a group to it. -/
def SharedBy (db : Database) (caller : Session) (rpc : Rpc) (repoId : ℤ) : Prop :=
  db.effectiveRole repoId caller.userId = .kOwner ∧
    match rpc with
    | .repoAddUser request => db.NamesRepo request.toRepoRef repoId
    | .repoAddGroup request => db.NamesRepo request.toRepoRef repoId
    | _ => False

/-- An owner of a group, or an administrator, adds a user to it, and the group has the role. -/
def AdmittedBy (db : Database) (caller : Session) (rpc : Rpc) (repoId : ℤ) (role : Pb.Role) :
    Prop :=
  match rpc with
  | .groupAddUser request => ∃ groupId, db.NamesGroup request.toGroupRef groupId ∧
      (db.policy.member groupId caller.userId .kOwner ∨ db.IsAdmin caller.userId) ∧
      ∃ a, db.policy.onGroup repoId groupId a ∧ role ≤ a
  | _ => False

/-- Whatever `db'` grants on a repository of `db` was granted before or is given by the call. -/
def Justified (db : Database) (caller : Session) (rpc : Rpc) (db' : Database) : Prop :=
  ∀ repoId ∈ db.repos.ids, ∀ userId r, db'.policy.Grants Eq repoId userId r →
    db.policy.Grants Eq repoId userId r ∨ SharedBy db caller rpc repoId ∨
      AdmittedBy db caller rpc repoId r

variable {db db' : Database} {caller : Session} {rpc : Rpc}

theorem Justified.of_sub (h : db'.policy.Sub db.policy) : Justified db caller rpc db' :=
  fun _ _ _ _ hgrants ↦ Or.inl (hgrants.mono h)

theorem Justified.refl (db : Database) (caller : Session) (rpc : Rpc) :
    Justified db caller rpc db := .of_sub (Policy.Sub.refl _)

/-! ## The calls that grant nothing -/

variable {A : Env → Prop} {d : Deployment} {w : World}

theorem dispatch_justified_of_grants_eq_false {thread : Option Session} (h : rpc.grants = false) :
    (dispatch d thread rpc).wp A (fun _ v ↦ Justified w.db caller rpc v.db) w := by
  have hop {β : Type} (op : Op β) (hallows : rpc.Allows op) (e : Env) (u : World) :
      (Interp.exec op e u).2.db.policy.Sub u.db.policy := by
    refine exec_policy_sub ?_ e u
    cases hg : op.grants with
    | false => rfl
    | true => exact (hallows.2 hg).symm.trans h
  refine wp_mono ((dispatch_within rpc).wp (R := fun u v : World ↦ v.db.policy.Sub u.db.policy)
    (fun _ ↦ Policy.Sub.refl _) (fun huv hvw ↦ hvw.trans huv) hop w) ?_
  exact fun _ _ hv ↦ Justified.of_sub hv.2

/-! ## The calls that grant something -/

theorem wp_verdict {ρ : Type} {p : Server Bool} {no yes : Outcome ρ} {Q : World → Prop}
    (h : p.wp A (fun _ v ↦ Q v) w) :
    (do if !(← p) then return no else return yes : Server (Outcome ρ)).wp A (fun _ v ↦ Q v) w := by
  rw [wp_bind]
  refine wp_mono h fun ok v hv ↦ ?_
  split_ifs
  exacts [hv, hv]

theorem wp_answer {ρ : Type} {message : ρ → Pb.Message} {handler : Server (Outcome ρ)}
    {Q : World → Prop} (h : handler.wp A (fun _ v ↦ Q v) w) :
    (answer message handler).wp A (fun _ v ↦ Q v) w :=
  wp_bind.mpr h

namespace Service

theorem isGroupOwner_wp (session : Pb.Session) (grpId : ℤ) :
    (isGroupOwner session grpId).wp A (fun owner v ↦ v = w ∧ (owner = true →
      roleOf session = Pb.Role.kOwner.toInt ∨
        w.db.policy.member grpId (userIdOf session) .kOwner)) w := by
  rw [isGroupOwner]
  split_ifs with hrole
  · exact ⟨rfl, fun _ ↦ Or.inl hrole⟩
  · refine (fetch_returns fun _ ↦ rfl).wp_bind ?_
    cases hfirst : ((Query.groupGetUserRole grpId (userIdOf session)).rows 0 w.db).head? with
    | none => exact ⟨rfl, fun howner ↦ absurd howner Bool.false_ne_true⟩
    | some role =>
      refine ⟨rfl, fun howner ↦ Or.inr ?_⟩
      have hmem := List.mem_of_head? hfirst
      rw [Query.rows, List.mem_map] at hmem
      obtain ⟨row, hrow, rfl⟩ := hmem
      rw [List.mem_filter, decide_eq_true_eq] at hrow
      refine ⟨row, hrow.1, hrow.2.1, hrow.2.2, ?_⟩
      rw [of_decide_eq_true howner, roleOfId_toInt]

theorem groupAddUser_justified (request : Pb.GroupAddUser)
    (hadmin : caller.role = Pb.Role.kOwner.toInt → w.db.IsAdmin caller.userId) :
    (groupAddUser (some caller) request).wp A
      (fun _ v ↦ Justified w.db caller (.groupAddUser request) v.db) w := by
  rw [groupAddUser, authenticateUser_orReturn]
  refine (setGrpId_decides _).orReturn (fun _ ↦ .refl _ _ _) fun grpId hgrp ↦ ?_
  refine (setUserId_decides _).orReturn (fun _ ↦ .refl _ _ _) fun userId _ ↦ ?_
  rw [wp_bind]
  refine wp_mono (isGroupOwner_wp _ grpId) fun owner v hv ↦ ?_
  obtain ⟨rfl, howner⟩ := hv
  cases owner with
  | false => exact .refl _ _ _
  | true =>
    refine wp_verdict (wp_write (fun e _ v' heffect _ ↦ ?_) fun _ _ ↦ .refl _ _ _)
    -- a new member gets at most what the group has, and what the membership is worth
    have hgranter : v.db.policy.member grpId caller.userId .kOwner ∨ v.db.IsAdmin caller.userId :=
      (howner rfl).symm.imp_right hadmin
    rintro repoId - userId' r hgrants
    refine (Policy.grants_addMember (hgrants.mono heffect.policy_insertGroupUser)).imp_right ?_
    rintro ⟨-, a, ha, hra⟩
    exact Or.inr ⟨grpId, hgrp, hgranter, a, ha, hra⟩

/-- `Db::groupCreate` fails and changes nothing, or inserts the group. -/
theorem groupCreate_wp (group desc : Bytes) :
    (Db.groupCreate group desc).wp A (fun created v ↦ match created with
      | .error _ => v = w
      | .ok () => (Write.insertGroup group desc).Effect 0 w.db v.db) w := by
  refine wp_write (fun e _ v heffect _ ↦ heffect) fun rc hrc ↦ ?_
  split_ifs
  exacts [rfl, rfl]

theorem effectiveRole_of_kOwner_le (h : w.db.Valid) {repoId userId : ℤ}
    (howner : .kOwner ≤ w.db.reportedRole repoId userId) :
    w.db.effectiveRole repoId userId = .kOwner :=
  le_antisymm (Pb.Role.le_kOwner _)
    (howner.trans (Database.reportedRole_le_effectiveRole h repoId userId))

/-- The rule for a handler of an owner that gives a user or a group a role. -/
theorem memberChange_justified (h : w.db.Valid) {repo : Pb.RepoRef}
    {member : Server (Check Pb.StatusMsg ℤ)} {N : ℤ → Prop} (hmember : member.Decides A w N)
    {s : ℤ → ℤ → Write} {ok : ResultCode → Bool} {no yes : Outcome Pb.StatusMsg}
    (hs : ∀ repoId memberId now db', w.db.NamesRepo repo repoId →
      w.db.effectiveRole repoId caller.userId = .kOwner →
        (s repoId memberId).Effect now w.db db' → Justified w.db caller rpc db') :
    ((setRepoId repo).orReturn fun repoId ↦ member.orReturn fun memberId ↦
      (checkRepoRole repoId caller.userId .kOwner).orReturn fun _ ↦
        (do let rc ← issue (.write (s repoId memberId)); return ok rc : Server Bool) >>= fun ok ↦
          if !ok then return no else return yes).wp A
      (fun _ v ↦ Justified w.db caller rpc v.db) w := by
  refine (setRepoId_decides _).orReturn (fun _ ↦ .refl _ _ _) fun repoId hrepo ↦ ?_
  refine hmember.orReturn (fun _ ↦ .refl _ _ _) fun memberId _ ↦ ?_
  refine (checkRepoRole_decides h _ _ _).orReturn (fun _ ↦ .refl _ _ _) fun _ howner ↦ ?_
  refine wp_verdict (wp_write (fun e _ v heffect _ ↦ ?_) fun _ _ ↦ .refl _ _ _)
  exact hs repoId memberId _ _ hrepo (effectiveRole_of_kOwner_le h howner) heffect

theorem repoAddUser_justified (h : w.db.Valid) (request : Pb.RepoAddUser) :
    (repoAddUser (some caller) request).wp A
      (fun _ v ↦ Justified w.db caller (.repoAddUser request) v.db) w := by
  rw [repoAddUser, authenticateUser_orReturn]
  refine memberChange_justified h (setUserId_decides _) ?_
  rintro repoId userId now db' hrepo howner heffect repoId' - userId' r hgrants
  refine (Policy.grants_addDirect (hgrants.mono heffect.policy_insertRepoUser)).imp_right ?_
  rintro rfl
  exact Or.inl ⟨howner, hrepo⟩

theorem repoAddGroup_justified (h : w.db.Valid) (request : Pb.RepoAddGroup) :
    (repoAddGroup (some caller) request).wp A
      (fun _ v ↦ Justified w.db caller (.repoAddGroup request) v.db) w := by
  rw [repoAddGroup, authenticateUser_orReturn]
  refine memberChange_justified h (setGrpId_decides _) ?_
  rintro repoId groupId now db' hrepo howner heffect repoId' - userId' r hgrants
  refine (Policy.grants_addOnGroup (hgrants.mono heffect.policy_insertRepoGroup)).imp_right ?_
  rintro rfl
  exact Or.inl ⟨howner, hrepo⟩

theorem groupGetId_notMem_ids {now : ℤ} {db db' : Database} {name desc : Bytes} (h : db.Valid)
    (heffect : (Write.insertGroup name desc).Effect now db db') {grpId : ℤ}
    (hgrp : ((Query.groupGetId name).rows 0 db').head? = some grpId) :
    grpId ∉ db.groups.ids := by
  have hvalid : db'.Valid := heffect.valid h
  obtain ⟨grp, hrow, hgrpName⟩ := hvalid.head?_groupGetId_iff.mp hgrp
  obtain ⟨hname, t, ht, rfl⟩ := heffect
  rw [(AutoTable.rows_of_insert ht).1, List.mem_append, List.mem_singleton] at hrow
  rcases hrow with hrow | hrow
  · exact absurd (List.mem_map.mpr ⟨(grpId, grp), hrow, hgrpName⟩) hname
  · rw [(Prod.mk.inj hrow).1]
    exact AutoTable.seq_succ_notMem_ids

theorem groupCreate_justified (h : w.db.Valid) (request : Pb.GroupCreate) :
    (groupCreate (some caller) request).wp A
      (fun _ v ↦ Justified w.db caller (.groupCreate request) v.db) w := by
  rw [groupCreate, authenticateUser_orReturn]
  dsimp only
  rw [wp_bind]
  refine wp_mono (groupCreate_wp _ _) fun created v hv ↦ ?_
  cases created with
  | error err =>
    obtain rfl : v = w := hv
    exact .refl _ _ _
  | ok =>
    have hpolicy : v.db.policy.Sub w.db.policy := hv.policy_sub rfl
    have hsame : Justified w.db caller (.groupCreate request) v.db := .of_sub hpolicy
    dsimp only
    refine (fetch_returns fun _ ↦ rfl).wp_bind ?_
    cases ((Query.groupGetId (request.grp.getD [])).rows 0 v.db).head? with
    | none => exact hsame
    | some _ =>
      dsimp only
      refine (fetch_returns fun _ ↦ rfl).wp_bind ?_
      cases hgrp : ((Query.groupGetId (request.grp.getD [])).rows 0 v.db).head? with
      | none => exact hsame
      | some grpId =>
        -- the name leads to the new group, which no repository has a row for
        have hadded {u : World} (hu : u.db.policy.Sub (v.db.policy.addMember grpId
            caller.userId .kOwner)) : Justified w.db caller (.groupCreate request) u.db := by
          rintro repoId - userId r hgrants
          refine Or.inl ?_
          rcases Policy.grants_addMember (hgrants.mono hu) with hgrants | ⟨-, a, ha, -⟩
          · exact hgrants.mono hpolicy
          · obtain ⟨onRepo, honRepo, -, hgroup, -⟩ := hpolicy.onGroup ha
            exact absurd (hgroup ▸ h.reposGroups_group onRepo honRepo)
              (groupGetId_notMem_ids h hv hgrp)
        dsimp only
        rw [Db.groupAddUser, LawfulMonad.bind_assoc]
        refine wp_write (fun e₃ _ u heffect _ ↦ hadded heffect.policy_insertGroupUser) ?_
        intro rc hrc
        -- without its owner the group is deleted again
        rw [decide_eq_false hrc]
        refine wp_write (fun e₄ _ u heffect _ ↦ ?_) fun rc _ ↦ hsame
        exact .of_sub ((heffect.policy_sub rfl).trans hpolicy)

theorem repoCreate_justified (request : Pb.RepoCreate) :
    (repoCreate d (some caller) request).wp A
      (fun _ v ↦ Justified w.db caller (.repoCreate request) v.db) w := by
  rw [repoCreate, authenticateUser_orReturn, wp_bind]
  suffices hcreate : (Repositories.create d request.name request.desc request.isPublic
      caller.userId).wp A (fun _ v ↦ Justified w.db caller (.repoCreate request) v.db) w by
    refine wp_mono hcreate fun created v hv ↦ ?_
    cases created <;> exact hv
  refine wp_write (fun e _ v heffect hv ↦ ?_) fun rc hrc ↦ ?_
  · have hpolicy : v.db.policy.Sub w.db.policy := heffect.policy_sub rfl
    have hrowid : v.lastInsertRowid = w.db.repos.seq + 1 := by rw [hv]; rfl
    intro e' _
    rw [exec_lastInsertRowid, hrowid]
    -- a run of `createDirectory` gives roles on the repository of that number only
    let elsewhere (u u' : World) : Prop := ∀ repoId ≠ w.db.repos.seq + 1, ∀ userId r,
      u'.db.policy.Grants Eq repoId userId r → u.db.policy.Grants Eq repoId userId r
    have hop {β : Type} (op : Op β) (hop : op.grants = false) (e : Env) (u : World) :
        elsewhere u (Interp.exec op e u).2 :=
      fun _ _ _ _ hgrants ↦ hgrants.mono (exec_policy_sub hop e u)
    have hcreate : (Repositories.createDirectory d request.name caller.userId
        (w.db.repos.seq + 1)).Within (fun op ↦ ∀ e u, elsewhere u (Interp.exec op e u).2)
        fun _ ↦ True := by
      refine createDirectory_within (fun path ↦ hop _ rfl)
        (fun e u repoId hne userId r hgrants ↦ ?_) (hop _ rfl)
      rw [exec_write] at hgrants
      rcases World.write_spec (.insertRepoUser (w.db.repos.seq + 1) caller.userId
        Pb.Role.kOwner.toInt) e u with ⟨-, -, heffect, -⟩ | ⟨-, hu⟩
      · exact (Policy.grants_addDirect (hgrants.mono heffect.policy_insertRepoUser)).resolve_right
          hne
      · rwa [hu] at hgrants
    refine wp_mono (hcreate.wp (R := elsewhere) (fun _ _ _ _ _ h ↦ h)
        (fun huv hvw repoId hne userId r ↦ huv repoId hne userId r ∘ hvw repoId hne userId r)
        (fun op hop ↦ hop) v) ?_
    rintro - u ⟨-, hu⟩ repoId hrepo userId r hgrants
    have hne : repoId ≠ w.db.repos.seq + 1 := by
      rintro rfl
      exact AutoTable.seq_succ_notMem_ids hrepo
    exact Or.inl ((hu repoId hne userId r hgrants).mono hpolicy)
  · split_ifs
    exacts [.refl _ _ _, .refl _ _ _]

end Service

/-! ## Every call -/

theorem dispatch_justified (h : w.db.Valid)
    (hadmin : caller.role = Pb.Role.kOwner.toInt → w.db.IsAdmin caller.userId) (rpc : Rpc) :
    (dispatch d (some caller) rpc).wp A (fun _ v ↦ Justified w.db caller rpc v.db) w := by
  cases rpc with
  | groupCreate request => exact wp_answer (Service.groupCreate_justified h request)
  | groupAddUser request => exact wp_answer (Service.groupAddUser_justified request hadmin)
  | repoCreate request => exact wp_answer (Service.repoCreate_justified request)
  | repoAddUser request => exact wp_answer (Service.repoAddUser_justified h request)
  | repoAddGroup request => exact wp_answer (Service.repoAddGroup_justified h request)
  | _ => exact dispatch_justified_of_grants_eq_false rfl

theorem sessionHandle_justified (h : w.db.Valid) (cookies : Cookies) (isSsl : Bool) (rpc : Rpc) :
    (sessionHandle d cookies isSsl rpc).wp A
      (fun _ v ↦ Justified w.db (w.db.session cookies isSsl) rpc v.db) w := by
  exact (sessionAuth_returns cookies isSsl).wp_bind
    (dispatch_justified h h.isAdmin_of_session rpc)

/-! ## Global roles -/

/-- `db'` has the users of `db`, and new ones that are no owners. -/
def KeepsUsers (db db' : Database) : Prop :=
  ∃ new, db'.users.rows = db.users.rows ++ new ∧ ∀ r ∈ new, r.2.roleId ≠ Pb.Role.kOwner.toInt

theorem KeepsUsers.refl (db : Database) : KeepsUsers db db :=
  ⟨[], (List.append_nil _).symm, fun _ ↦ nofun⟩

theorem KeepsUsers.trans {db₁ db₂ db₃ : Database} (h : KeepsUsers db₁ db₂)
    (h' : KeepsUsers db₂ db₃) : KeepsUsers db₁ db₃ := by
  obtain ⟨new, hrows, hnew⟩ := h
  obtain ⟨new', hrows', hnew'⟩ := h'
  refine ⟨new ++ new', by rw [hrows', hrows, List.append_assoc], fun r hr ↦ ?_⟩
  exact (List.mem_append.mp hr).elim (hnew r) (hnew' r)

theorem exec_keepsUsers {β : Type} (op : Op β) (e : Env) (w : World) :
    KeepsUsers w.db (Interp.exec op e w).2.db := by
  by_cases hop : Resource.table .users ∈ op.touches
  · cases op with
    | write s =>
      rw [exec_write]
      rcases World.write_spec s e w with ⟨-, -, heffect, -⟩ | ⟨-, hw⟩
      · cases s with
        | insertUser =>
          obtain ⟨-, -, t, ht, hdb⟩ := heffect
          refine ⟨[_], by rw [hdb]; exact (AutoTable.rows_of_insert ht).1, fun r hr ↦ ?_⟩
          rw [List.mem_singleton.mp hr]
          exact show (2 : ℤ) ≠ 3 by decide
        | _ => simp at hop
      · rw [hw]
        exact .refl _
    | _ => simp at hop
  · have hsame := Op.exec_same hop e w
    exact ⟨[], by rw [List.append_nil]; exact congrArg _ hsame, fun _ ↦ nofun⟩

/-! ## No escalation -/

/-- **No call escalates a privilege.** A role reported on a repository only grows when an owner of
the repository shares it, or when an owner of a group or an administrator adds the user to the
group, and then up to what the group has. No call changes a global role or registers an owner. -/
theorem sessionHandle_no_escalation (h : w.db.Valid) (cookies : Cookies) (isSsl : Bool) (rpc : Rpc)
    (env : ℕ → Env) :
    let caller := w.db.session cookies isSsl
    let after := ((sessionHandle d cookies isSsl rpc).run env w).2.db
    (∀ repoId ∈ w.db.repos.ids, ∀ userId,
      w.db.reportedRole repoId userId < after.reportedRole repoId userId →
        SharedBy w.db caller rpc repoId ∨
          AdmittedBy w.db caller rpc repoId (after.reportedRole repoId userId)) ∧
      KeepsUsers w.db after := by
  intro caller after
  have hafter : after.Valid := run_valid _ env h
  refine ⟨fun repoId hrepo userId hlt ↦ ?_, ?_⟩
  · have hjustified : Justified w.db caller rpc after :=
      (sessionHandle_justified (A := fun _ ↦ True) h cookies isSsl rpc).run env fun _ ↦ trivial
    obtain ⟨hnew, hold⟩ := (Database.reportedRole_isRole h repoId userId).grants_of_lt
      (Database.reportedRole_isRole hafter repoId userId) hlt
    exact (hjustified repoId hrepo userId _ hnew).resolve_left hold
  · exact (within_true (sessionHandle d cookies isSsl rpc)).run_rel
      (R := fun u v ↦ KeepsUsers u.db v.db) (fun _ ↦ .refl _) KeepsUsers.trans
      (fun op _ ↦ exec_keepsUsers op) env w

/-- The world of an owner with a session, and of another user. -/
def ownerWorld : World :=
  { World.initial with
    db := Write.applyAll 0 (.viaGroup .kOwner .kOwner)
      [.insertUserAuth 1 (text "t") 0, .insertUser (text "v") (text "v@h") [] [] []] }

theorem sessionHandle_no_escalation_repoAddUser :
    let rpc := Rpc.repoAddUser { repoId := some 1, userId := some 2, role := .kReader }
    let cookies : Cookies := { user := some (text "u"), token := some (text "t") }
    let after := ((sessionHandle .plain cookies false rpc).run (fun _ ↦ {}) ownerWorld).2.db
    ownerWorld.db.reportedRole 1 2 < after.reportedRole 1 2 ∧
      (SharedBy ownerWorld.db (ownerWorld.db.session cookies false) rpc 1 ∨
        AdmittedBy ownerWorld.db (ownerWorld.db.session cookies false) rpc 1
          (after.reportedRole 1 2)) := by
  intro rpc cookies after
  have hvalid : ownerWorld.db.Valid := Write.applyAll_valid 0 (Database.viaGroup_valid _ _) _
  have hlt : ownerWorld.db.reportedRole 1 2 < after.reportedRole 1 2 := by decide +kernel
  exact ⟨hlt, (sessionHandle_no_escalation hvalid cookies false rpc _).1 1 (by decide) 2 hlt⟩

end Scissy
