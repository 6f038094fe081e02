import Scissy.Server.Http

/-!
# What a call can do

For every call of the service, the parts of the world its handler may change
(`Rpc.footprint`) and whether it may insert a row that gives somebody a role (`Rpc.grants`). The
bounds hold whatever the operations answer (`dispatch_within`), so they hold for a thread in the
middle of a handler as well as for a whole call, and every theorem about the service that excludes
some calls starts from here.

The same walk through the handlers shows how they never end. `userGetSession`, the helper of
`AUTHENTICATE_USER`, returns true unconditionally, so its negation is never true and no call ends
with `kInvalidSession`. And a response that is returned has its status and its `required` fields,
but for the few that a call may leave out (`Rpc.leavesOut`).

## One rule for a family

Handlers that are alike are bounded by one rule: those of the owners of a group
(`isGroupOwner_bounded`), those of the owners of a repository (`repoOwner_bounded`), the views
(`view_bounded`). A handler keeps a lemma of its own, which says what it is a case of, and
`dispatch_sound` puts the lemmas together call by call.
-/

open Interaction Interaction.Prog

namespace Scissy

/-! ## Bounds -/

/-- The statements that can give a user a role on a repository. -/
@[simp] def Write.grants : Write → Bool
  | insertGroupUser .. | insertRepoUser .. | insertRepoGroup .. => true
  | _ => false

@[simp] def Op.grants : {β : Type} → Op β → Bool
  | _, write s => s.grants
  | _, _ => false

namespace Rpc

/-- The parts of the world a call may change. -/
@[simp] def footprint : Rpc → List Resource
  | userAuth _ => [.lastInsertRowid, .table .usersAuths]
  | userCreate _ => [.lastInsertRowid, .table .users]
  | userAddSshKey _ | userRemoveSshKey _ => [.lastInsertRowid, .table .usersSshKeys, .authKeys]
  | groupCreate _ | groupDelete _ =>
    [.lastInsertRowid, .table .groups, .table .groupsUsers, .table .reposGroups]
  | groupAddUser _ | groupRemoveUser _ => [.lastInsertRowid, .table .groupsUsers]
  | repoCreate _ | repoDelete _ =>
    [.lastInsertRowid, .table .repos, .table .reposGroups, .table .reposUsers, .repositories]
  | repoUpdate _ => [.lastInsertRowid, .table .repos]
  | repoAddUser _ | repoRemoveUser _ => [.lastInsertRowid, .table .reposUsers]
  | repoAddGroup _ | repoRemoveGroup _ => [.lastInsertRowid, .table .reposGroups]
  | _ => []

/-- The calls that may give a user a role on a repository. -/
@[simp] def grants : Rpc → Bool
  | groupCreate _ | groupAddUser _ | repoCreate _ | repoAddUser _ | repoAddGroup _ => true
  | _ => false

/-- What the response of a call may lack of its status and its `required` fields. -/
def leavesOut : Rpc → List Pb.Field
  | userAuth _ => [.user]
  | userSetPassword _ => [.status]
  | repoCreate _ | repoGetInfo _ => [.id, .name, .desc, .isPublic]
  | reposList => [.repos .status]
  | _ => []

/-- The operation stays within the footprint, and grants a role only if the call may. -/
def Allows (rpc : Rpc) {β : Type} (op : Op β) : Prop :=
  op.touches ⊆ rpc.footprint ∧ (op.grants = true → rpc.grants = true)

variable {rpc : Rpc}

theorem allows_of_touches_eq_nil {β : Type} {op : Op β} (h : op.touches = []) : rpc.Allows op := by
  refine ⟨h ▸ List.nil_subset _, fun hgrants ↦ ?_⟩
  cases op <;> first | exact Bool.noConfusion hgrants | cases h

@[simp] theorem allows_query {β : Type} (q : Query β) : rpc.Allows (.query q) :=
  allows_of_touches_eq_nil rfl

@[simp] theorem allows_gitOpen (path : Bytes) : rpc.Allows (.gitOpen path) :=
  allows_of_touches_eq_nil rfl

end Rpc

/-- The call may end so: nobody is told that a session is invalid, and a response that the handler
returns with true lacks only what the call may leave out. -/
def Outcome.sound (rpc : Rpc) : Outcome Pb.Message → Bool
  | returned true response => decide (response.status ≠ some .kInvalidSession) &&
      response.missing.all rpc.leavesOut.contains
  | outcome => decide (outcome.status ≠ some .kInvalidSession)

section Sound

variable {rpc : Rpc} {outcome : Outcome Pb.Message} {response : Pb.Message}

theorem sound_returned (hstatus : response.status ≠ some .kInvalidSession)
    (hmissing : response.missing ⊆ rpc.leavesOut) (ok : Bool) :
    (Outcome.returned ok response).sound rpc = true := by
  cases ok with
  | false => exact decide_eq_true hstatus
  | true =>
    rw [Outcome.sound, Bool.and_eq_true, decide_eq_true_eq, List.all_eq_true]
    exact ⟨hstatus, fun f hf ↦ List.contains_iff_mem.mpr (hmissing hf)⟩

theorem Outcome.status_of_sound (h : outcome.sound rpc = true) :
    outcome.status ≠ some .kInvalidSession := by
  unfold Outcome.sound at h
  split at h
  · exact of_decide_eq_true (Bool.and_eq_true_iff.mp h).1
  · exact of_decide_eq_true h

theorem missing_subset_of_sound (h : (Outcome.returned true response).sound rpc = true) :
    response.missing ⊆ rpc.leavesOut := by
  intro f hf
  exact List.contains_iff_mem.mp (List.all_eq_true.mp (Bool.and_eq_true_iff.mp h).2 f hf)

end Sound

/-! ## Rules -/

section Rules

variable {ρ α β : Type} {P : {β : Type} → Op β → Prop} {Q : Outcome ρ → Prop}

theorem within_step {p : Server α} {k : α → Server β} {Q : β → Prop}
    (hp : p.Within P fun _ ↦ True) (hk : ∀ a, (k a).Within P Q) : (p >>= k).Within P Q :=
  within_bind.mpr (hp.mono (fun _ h ↦ h) fun a _ ↦ hk a)

theorem verdict_within {p : Server Bool} {no yes : Outcome ρ} (hp : p.Within P fun _ ↦ True)
    (hno : Q no) (hyes : Q yes) :
    (do if !(← p) then return no else return yes : Server (Outcome ρ)).Within P Q := by
  refine within_step hp fun ok ↦ ?_
  split_ifs
  exacts [hno, hyes]

theorem fetch_within {q : Query β} (hq : P (.query q)) : (fetch q).Within P fun _ ↦ True :=
  ⟨hq, fun _ ↦ trivial⟩

namespace Service

theorem authenticateUser_within {thread : Option Session} {k : Pb.Session → Server (Outcome ρ)}
    (hcrash : Q .crash) (hk : ∀ session, (k session).Within P Q) :
    ((authenticateUser thread).orReturn k).Within P Q := by
  cases thread with
  | none => exact hcrash
  | some session => exact hk _

theorem setId_within {id? : Option ℤ} {name? : Option Bytes} {getId : Bytes → Query ℤ}
    {unspecified notFound : Outcome ρ} {k : ℤ → Server (Outcome ρ)}
    (hquery : ∀ name, P (.query (getId name))) (hunspecified : Q unspecified)
    (hnotFound : Q notFound) (hk : ∀ id, (k id).Within P Q) :
    ((setId id? name? (fun name ↦ fetch (getId name)) unspecified notFound).orReturn k).Within
      P Q := by
  match id?, name? with
  | some id, _ => exact hk id
  | none, none => exact hunspecified
  | none, some name =>
    rw [setId, orReturn, within_bind, within_bind]
    refine (fetch_within (hquery name)).mono (fun _ h ↦ h) fun row _ ↦ ?_
    cases row with
    | none => exact hnotFound
    | some id => exact hk id

variable [Pb.HasStatus ρ]

theorem checkRepoRole_within {repoId userId : ℤ} {roleId : Pb.Role}
    {k : Unit → Server (Outcome ρ)} (hquery : P (.query (.repoGetUserRole repoId userId)))
    (hfailed : Q (.returned false (Pb.HasStatus.failure .kFailed (text "database error"))))
    (hright : Q (reply .kInsufficientRight (text "insufficient rights")))
    (hk : (k ()).Within P Q) :
    ((checkRepoRole repoId userId roleId).orReturn k).Within P Q := by
  simp only [orReturn, checkRepoRole, Db.repoGetUserRole, within_bind, within_issue, within_pure]
  refine ⟨hquery, fun rows ↦ ?_⟩
  split_ifs
  exacts [hfailed, hright, hk]

end Service

end Rules

/-! ## The handlers -/

/-- The handler of `rpc` stays within the bounds of the call, and ends as the call may. -/
def Bounded {ρ : Type} (rpc : Rpc) (message : ρ → Pb.Message) (handler : Server (Outcome ρ)) :
    Prop :=
  handler.Within rpc.Allows fun outcome ↦ (outcome.map message).sound rpc = true

namespace Service

variable {d : Deployment} {thread : Option Session}

theorem userCreate_bounded (request : Pb.UserCreate) :
    Bounded (.userCreate request) .statusMsg (userCreate d request) := by
  rw [userCreate]
  cases userCheckPassword d request.password with
  | some msg => split_ifs <;> exact rfl
  | none =>
    split_ifs
    iterate 4 exact rfl
    refine within_step ⟨Rpc.allows_of_touches_eq_nil rfl, fun _ ↦ trivial⟩ fun salt ↦ ?_
    cases salt with
    | none => exact rfl
    | some salt =>
      refine ⟨by simp [Rpc.Allows], fun rc ↦ ?_⟩
      change Within _ _ (if _ then _ else if _ then _ else _)
      split_ifs <;> exact rfl

theorem userSetPassword_bounded (request : Pb.UserPasswordChange) :
    Bounded (.userSetPassword request) .statusMsg (userSetPassword d thread request) := by
  rw [userSetPassword]
  cases userCheckPassword d request.newPassword with
  | some msg => exact rfl
  | none =>
    refine authenticateUser_within rfl fun session ↦ ?_
    refine within_step (fetch_within (Rpc.allows_query _)) fun userId ↦ ?_
    cases userId with
    | none => exact rfl
    | some userId =>
      dsimp only
      split_ifs <;> exact rfl

theorem groupCreate_bounded (request : Pb.GroupCreate) :
    Bounded (.groupCreate request) .groupInfo (groupCreate thread request) := by
  refine authenticateUser_within rfl fun session ↦ ?_
  refine within_step (by simp [Db.groupCreate, Rpc.Allows]) fun created ↦ ?_
  cases created with
  | error err => exact rfl
  | ok =>
    refine within_step (fetch_within (Rpc.allows_query _)) fun grpId ↦ ?_
    cases grpId with
    | none => exact rfl
    | some _ =>
      refine within_step (fetch_within (Rpc.allows_query _)) fun grpId ↦ ?_
      cases grpId with
      | none => exact rfl
      | some grpId =>
        refine within_step (by simp [Db.groupAddUser, Rpc.Allows]) fun added ↦ ?_
        split_ifs
        · -- the owner could not be added
          exact within_step (by simp [Db.groupDelete, Rpc.Allows]) fun _ ↦ rfl
        · exact rfl

theorem isGroupOwner_within {P : {β : Type} → Op β → Prop}
    (hquery : ∀ {β} (q : Query β), P (.query q)) (session : Pb.Session) (grpId : ℤ) :
    (isGroupOwner session grpId).Within P fun _ ↦ True := by
  rw [isGroupOwner]
  split_ifs
  · trivial
  · refine within_step (fetch_within (hquery _)) fun role ↦ ?_
    cases role <;> trivial

theorem isGroupOwner_bounded {rpc : Rpc} {insufficient : Outcome Pb.StatusMsg}
    {body : Server (Outcome Pb.StatusMsg)} {session : Pb.Session} {grpId : ℤ}
    (hinsufficient : (insufficient.map .statusMsg).sound rpc = true)
    (hbody : Bounded rpc .statusMsg body) :
    Bounded rpc .statusMsg (isGroupOwner session grpId >>= fun owner ↦
      if !owner then return insufficient else body) := by
  refine within_step (isGroupOwner_within Rpc.allows_query session grpId) fun owner ↦ ?_
  split_ifs
  · exact hinsufficient
  · exact hbody

/-- The rule for a handler that reports whether a statement went through. -/
theorem verdict_bounded {rpc : Rpc} {s : Write} {ok : ResultCode → Bool}
    {no yes : Outcome Pb.StatusMsg} (hs : rpc.Allows (.write s))
    (hno : (no.map .statusMsg).sound rpc = true) (hyes : (yes.map .statusMsg).sound rpc = true) :
    Bounded rpc .statusMsg ((do let rc ← issue (.write s); return ok rc : Server Bool) >>= fun ok ↦
      if !ok then return no else return yes) :=
  verdict_within ⟨hs, fun _ ↦ trivial⟩ hno hyes

theorem groupDelete_bounded (request : Pb.GroupDelete) :
    Bounded (.groupDelete request) .statusMsg (groupDelete thread request) := by
  refine authenticateUser_within rfl fun session ↦ ?_
  refine setId_within (fun _ ↦ Rpc.allows_query _) rfl rfl fun grpId ↦ ?_
  exact isGroupOwner_bounded rfl (verdict_bounded (by simp [Rpc.Allows]) rfl rfl)

/-- The rule for the two handlers that change the members of a group. -/
theorem groupMember_bounded {rpc : Rpc} {grp : Pb.GroupRef} {user : Pb.UserRef}
    {insufficient : Outcome Pb.StatusMsg} {body : ℤ → ℤ → Server (Outcome Pb.StatusMsg)}
    (hinsufficient : (insufficient.map .statusMsg).sound rpc = true)
    (hbody : ∀ grpId userId, Bounded rpc .statusMsg (body grpId userId)) :
    Bounded rpc .statusMsg ((authenticateUser thread).orReturn fun session ↦
      (setGrpId grp).orReturn fun grpId ↦ (setUserId user).orReturn fun userId ↦
        isGroupOwner session grpId >>= fun owner ↦
          if !owner then return insufficient else body grpId userId) := by
  refine authenticateUser_within rfl fun session ↦ ?_
  refine setId_within (fun _ ↦ Rpc.allows_query _) rfl rfl fun grpId ↦ ?_
  refine setId_within (fun _ ↦ Rpc.allows_query _) rfl rfl fun userId ↦ ?_
  exact isGroupOwner_bounded hinsufficient (hbody grpId userId)

theorem groupAddUser_bounded (request : Pb.GroupAddUser) :
    Bounded (.groupAddUser request) .statusMsg (groupAddUser thread request) :=
  groupMember_bounded rfl fun _ _ ↦ verdict_bounded (by simp [Rpc.Allows]) rfl rfl

theorem groupRemoveUser_bounded (request : Pb.GroupRemoveUser) :
    Bounded (.groupRemoveUser request) .statusMsg (groupRemoveUser thread request) :=
  groupMember_bounded rfl fun _ _ ↦
    within_step (by simp [Db.groupRemoveUser, Rpc.Allows]) fun _ ↦ rfl

theorem userAuth_bounded (request : Pb.UserAuth) :
    (userAuth d thread request).Within (Rpc.userAuth request).Allows
      fun r ↦ (r.1.map Pb.Message.session).sound (.userAuth request) = true := by
  have hauth : (authenticate d request).Within (Rpc.userAuth request).Allows fun _ ↦ True := by
    rw [authenticate]
    cases d.authenticator with
    | kAuthBuiltin =>
      refine within_step (fetch_within (Rpc.allows_query _)) fun row ↦ ?_
      cases row with
      | none => trivial
      | some row => dsimp only; split_ifs <;> trivial
    | kAuthProcess =>
      refine within_step ⟨Rpc.allows_of_touches_eq_nil rfl, fun _ ↦ trivial⟩ fun status ↦ ?_
      cases status with
      | none => trivial
      | some status => dsimp only; split_ifs <;> trivial
  refine within_step hauth fun r ↦ ?_
  cases r with
  | error msg => exact rfl
  | ok =>
    refine within_step (fetch_within (Rpc.allows_query _)) fun userId ↦ ?_
    cases userId with
    | none => exact rfl
    | some userId =>
      refine ⟨Rpc.allows_of_touches_eq_nil rfl, fun auth ↦ ?_⟩
      cases auth with
      | none => exact rfl
      | some auth =>
        refine ⟨Rpc.allows_of_touches_eq_nil rfl, fun start ↦ ?_⟩
        refine ⟨by simp [Rpc.Allows], fun rc ↦ ?_⟩
        change Within _ _ (if _ then _ else _)
        split_ifs
        · exact rfl
        · cases thread with
          | none => exact rfl
          | some session => exact ⟨Rpc.allows_of_touches_eq_nil rfl, fun _ ↦ rfl⟩

theorem userGetSession_bounded :
    Bounded .userGetSession .session (userGetSession thread) :=
  authenticateUser_within rfl fun _ ↦ rfl

theorem genAuthorizedKeys_within {P : {β : Type} → Op β → Prop}
    (hquery : P (.query .genAuthorizedKeys)) (hopen : P .openAuthKeys)
    (hwrite : ∀ offset data, P (.writeAuthKeys offset data)) :
    (genAuthorizedKeys d).Within P fun _ ↦ True := by
  have hlines : ∀ rows offset, (writeAuthorizedKeys d offset rows).Within P fun _ ↦ True := by
    intro rows
    induction rows with
    | nil => exact fun _ ↦ trivial
    | cons row rows ih => exact fun offset ↦ ⟨hwrite _ _, fun _ ↦ ih _⟩
  exact ⟨hopen, fun _ ↦ ⟨hquery, fun rows ↦ hlines rows 0⟩⟩

theorem changeSshKeys_within {P : {β : Type} → Op β → Prop} {Q : Outcome Pb.StatusMsg → Prop}
    {s : Write} (hs : P (.write s)) (hquery : P (.query .genAuthorizedKeys))
    (hopen : P .openAuthKeys) (hwrite : ∀ offset data, P (.writeAuthKeys offset data))
    (hfailed : Q (reply .kFailed (text "SQL error"))) (hsucceed : Q succeed) :
    (changeSshKeys d s).Within P Q := by
  refine ⟨hs, fun rc ↦ ?_⟩
  change Within _ _ (if _ then _ else _)
  split_ifs
  · exact hfailed
  · exact within_step (genAuthorizedKeys_within hquery hopen hwrite) fun _ ↦ hsucceed

theorem userAddSshKey_bounded (request : Pb.UserSshKey) :
    Bounded (.userAddSshKey request) .statusMsg (userAddSshKey d thread request) :=
  authenticateUser_within rfl fun _ ↦ changeSshKeys_within (by simp [Rpc.Allows])
    (Rpc.allows_query _) (by simp [Rpc.Allows]) (by simp [Rpc.Allows]) rfl rfl

theorem userRemoveSshKey_bounded (request : Pb.UserSshKey) :
    Bounded (.userRemoveSshKey request) .statusMsg (userRemoveSshKey d thread request) :=
  authenticateUser_within rfl fun _ ↦ changeSshKeys_within (by simp [Rpc.Allows])
    (Rpc.allows_query _) (by simp [Rpc.Allows]) (by simp [Rpc.Allows]) rfl rfl

theorem userGetSshKeys_bounded : Bounded .userGetSshKeys .userSshKeys (userGetSshKeys thread) :=
  authenticateUser_within rfl fun _ ↦ ⟨Rpc.allows_query _, fun _ ↦ rfl⟩

theorem createDirectory_within {P : {β : Type} → Op β → Prop} {name : Bytes} {userId repoId : ℤ}
    (hinit : ∀ path, P (.gitRepositoryInit path))
    (hadd : P (.write (.insertRepoUser repoId userId Pb.Role.kOwner.toInt)))
    (hdelete : P (.write (.deleteRepoByName name))) :
    (Repositories.createDirectory d name userId repoId).Within P fun _ ↦ True := by
  refine within_step ⟨hinit _, fun _ ↦ trivial⟩ fun initialised ↦ ?_
  split_ifs
  · exact ⟨hdelete, fun _ ↦ trivial⟩
  · refine within_step ⟨hadd, fun _ ↦ trivial⟩ fun added ↦ ?_
    split_ifs
    · exact ⟨hdelete, fun _ ↦ trivial⟩
    · trivial

theorem repoCreate_bounded (request : Pb.RepoCreate) :
    Bounded (.repoCreate request) .repoInfo (repoCreate d thread request) := by
  refine authenticateUser_within rfl fun session ↦ within_step ?_ fun created ↦ ?_
  · refine ⟨by simp [Rpc.Allows], fun rc ↦ ?_⟩
    change Within _ _ (if _ then _ else if _ then _ else _)
    split_ifs
    · trivial
    · trivial
    · exact ⟨Rpc.allows_of_touches_eq_nil rfl, fun repoId ↦ createDirectory_within
        (by simp [Rpc.Allows]) (by simp [Rpc.Allows]) (by simp [Rpc.Allows])⟩
  · cases created <;> exact rfl

/-- The rule for a handler of the owners of a repository. -/
theorem repoOwner_bounded {rpc : Rpc} {repo : Pb.RepoRef}
    {body : ℤ → Server (Outcome Pb.StatusMsg)}
    (hbody : ∀ repoId, Bounded rpc .statusMsg (body repoId)) :
    Bounded rpc .statusMsg ((authenticateUser thread).orReturn fun session ↦
      (setRepoId repo).orReturn fun repoId ↦
        (checkRepoRole repoId (userIdOf session) .kOwner).orReturn fun _ ↦ body repoId) := by
  refine authenticateUser_within rfl fun session ↦ ?_
  refine setId_within (fun _ ↦ Rpc.allows_query _) rfl rfl fun repoId ↦ ?_
  exact checkRepoRole_within (Rpc.allows_query _) rfl rfl (hbody repoId)

theorem repoUpdate_bounded (request : Pb.RepoUpdate) :
    Bounded (.repoUpdate request) .statusMsg (repoUpdate thread request) :=
  repoOwner_bounded fun _ ↦ ⟨by simp [Rpc.Allows], fun _ ↦ rfl⟩

theorem repoDelete_bounded (request : Pb.RepoDelete) :
    Bounded (.repoDelete request) .statusMsg (repoDelete d thread request) :=
  repoOwner_bounded fun _ ↦ verdict_within
    ⟨by simp [Rpc.Allows], fun _ ↦ ⟨by simp [Rpc.Allows], fun _ ↦ trivial⟩⟩ rfl rfl

/-- The rule for the four handlers that give or take a role on a repository. -/
theorem memberChange_bounded {rpc : Rpc} {repo : Pb.RepoRef} {id? : Option ℤ}
    {name? : Option Bytes} {getId : Bytes → Query ℤ} {unspecified notFound : Outcome Pb.StatusMsg}
    {s : ℤ → ℤ → Write} {ok : ResultCode → Bool}
    (hunspecified : (unspecified.map .statusMsg).sound rpc = true)
    (hnotFound : (notFound.map .statusMsg).sound rpc = true)
    (hs : ∀ repoId memberId, rpc.Allows (.write (s repoId memberId))) :
    Bounded rpc .statusMsg ((authenticateUser thread).orReturn fun session ↦
      (setRepoId repo).orReturn fun repoId ↦
        (setId id? name? (fun name ↦ fetch (getId name)) unspecified notFound).orReturn
          fun memberId ↦ (checkRepoRole repoId (userIdOf session) .kOwner).orReturn fun _ ↦
            (do let rc ← issue (.write (s repoId memberId)); return ok rc : Server Bool) >>=
              fun ok ↦ if !ok then return reply .kFailed [] else return succeed) := by
  refine authenticateUser_within rfl fun session ↦ ?_
  refine setId_within (fun _ ↦ Rpc.allows_query _) rfl rfl fun repoId ↦ ?_
  refine setId_within (fun _ ↦ Rpc.allows_query _) hunspecified hnotFound fun memberId ↦ ?_
  exact checkRepoRole_within (Rpc.allows_query _) rfl rfl
    (verdict_bounded (hs repoId memberId) rfl rfl)

theorem repoAddUser_bounded (request : Pb.RepoAddUser) :
    Bounded (.repoAddUser request) .statusMsg (repoAddUser thread request) :=
  memberChange_bounded rfl rfl fun _ _ ↦ by simp [Rpc.Allows]

theorem repoRemoveUser_bounded (request : Pb.RepoRemoveUser) :
    Bounded (.repoRemoveUser request) .statusMsg (repoRemoveUser thread request) :=
  memberChange_bounded rfl rfl fun _ _ ↦ by simp [Rpc.Allows]

theorem repoAddGroup_bounded (request : Pb.RepoAddGroup) :
    Bounded (.repoAddGroup request) .statusMsg (repoAddGroup thread request) :=
  memberChange_bounded rfl rfl fun _ _ ↦ by simp [Rpc.Allows]

theorem repoRemoveGroup_bounded (request : Pb.RepoRemoveGroup) :
    Bounded (.repoRemoveGroup request) .statusMsg (repoRemoveGroup thread request) :=
  memberChange_bounded rfl rfl fun _ _ ↦ by simp [Rpc.Allows]

/-! ### The views -/

theorem groupGetInfo_bounded (request : Pb.GroupSelector) :
    Bounded (.groupGetInfo request) .groupInfo (groupGetInfo request) := by
  refine within_step (fetch_within (Rpc.allows_query _)) fun row ↦ ?_
  cases row <;> exact rfl

theorem checkPublicRepo_within {ρ : Type} [Pb.HasStatus ρ] {P : {β : Type} → Op β → Prop}
    {Q : Outcome ρ → Prop} {msg : Pb.RepoRef} {k : ℤ → Server (Outcome ρ)}
    (hquery : ∀ {β : Type} (q : Query β), P (.query q)) (hcrash : Q .crash)
    (hreply : ∀ status msg, status ≠ .kInvalidSession → Q (reply status msg))
    (hfailed : Q (.returned false (Pb.HasStatus.failure .kFailed (text "database error"))))
    (hk : ∀ repoId, (k repoId).Within P Q) :
    ((checkPublicRepo thread msg).orReturn k).Within P Q := by
  rw [checkPublicRepo, andThen_orReturn]
  have hfail : Pb.Status.kFailed ≠ .kInvalidSession := by decide
  have hmissing : Pb.Status.kNotFound ≠ .kInvalidSession := by decide
  have hright : Pb.Status.kInsufficientRight ≠ .kInvalidSession := by decide
  refine setId_within (fun _ ↦ hquery _) (hreply _ _ hfail) (hreply _ _ hmissing) fun repoId ↦ ?_
  rw [orReturn, within_bind]
  refine within_step (fetch_within (hquery _)) fun isPublic ↦ ?_
  cases isPublic with
  | none => exact hreply _ _ hmissing
  | some isPublic =>
    dsimp only
    split_ifs
    · rw [← within_bind, ← orReturn, andThen_orReturn]
      refine authenticateUser_within hcrash fun session ↦ ?_
      rw [andThen_orReturn]
      exact checkRepoRole_within (hquery _) hfailed (hreply _ _ hright) (hk repoId)
    · exact hk repoId

section View

variable {ρ : Type} [Pb.HasStatus ρ] {rpc : Rpc} {message : ρ → Pb.Message}

theorem sound_failure
    (hstatus : ∀ status text, (message (Pb.HasStatus.failure status text)).status = some status)
    (hmissing : ∀ status text,
      (message (Pb.HasStatus.failure status text)).missing ⊆ rpc.leavesOut)
    {status : Pb.Status} {text : Bytes} (ok : Bool) (hne : status ≠ .kInvalidSession) :
    ((Outcome.returned ok (Pb.HasStatus.failure status text : ρ)).map message).sound rpc = true :=
  sound_returned (fun heq ↦ hne (Option.some_inj.mp ((hstatus status text).symm.trans heq)))
    (hmissing status text) ok

/-- The rule for a view. -/
theorem view_bounded {msg : Pb.RepoRef} {k : ℤ → Server (Outcome ρ)}
    (hstatus : ∀ status text, (message (Pb.HasStatus.failure status text)).status = some status)
    (hmissing : ∀ status text,
      (message (Pb.HasStatus.failure status text)).missing ⊆ rpc.leavesOut)
    (hk : ∀ repoId, Bounded rpc message (k repoId)) :
    Bounded rpc message ((checkPublicRepo thread msg).orReturn k) :=
  checkPublicRepo_within Rpc.allows_query rfl (fun _ _ ↦ sound_failure hstatus hmissing true)
    (sound_failure hstatus hmissing false nofun) hk

theorem gitView_bounded {msg : Pb.RepoRef} {view : GitRepository → Outcome ρ}
    (hstatus : ∀ status text, (message (Pb.HasStatus.failure status text)).status = some status)
    (hmissing : ∀ status text,
      (message (Pb.HasStatus.failure status text)).missing ⊆ rpc.leavesOut)
    (hview : ∀ repo, ((view repo).map message).sound rpc = true) :
    Bounded rpc message (gitView d thread msg view) := by
  refine view_bounded hstatus hmissing fun repoId ↦ ⟨Rpc.allows_gitOpen _, fun repo ↦ ?_⟩
  cases repo with
  | none => exact sound_failure hstatus hmissing true nofun
  | some repo => exact hview repo

end View

theorem reposList_bounded : Bounded .reposList .repoList (reposList d) := by
  -- no entry of the list has a status
  have hinfos : ∀ rows, (reposListInfos d rows).Within Rpc.reposList.Allows fun infos ↦
      ∀ info ∈ infos, info.missing = [.status] := by
    intro rows
    induction rows with
    | nil => exact List.forall_mem_nil _
    | cons row rows ih =>
      refine within_step ⟨Rpc.allows_gitOpen _, fun _ ↦ trivial⟩ fun repo ↦ ?_
      refine within_bind.mpr (ih.mono (fun _ hop ↦ hop) fun infos h ↦ ?_)
      exact List.forall_mem_cons.mpr ⟨rfl, h⟩
  refine within_step ⟨Rpc.allows_query _, fun _ ↦ trivial⟩ fun rows ↦ ?_
  refine within_bind.mpr ((hinfos rows).mono (fun _ hop ↦ hop) fun infos h ↦ ?_)
  refine sound_returned ?_ (fun f hf ↦ ?_) true
  · exact nofun
  · obtain ⟨info, hinfo, hf⟩ := List.mem_flatMap.mp hf
    rwa [h info hinfo] at hf

theorem repoGetInfo_bounded (request : Pb.RepoSelector) :
    Bounded (.repoGetInfo request) .repoInfo (repoGetInfo d thread request) := by
  refine view_bounded (fun _ _ ↦ rfl) (fun _ _ ↦ List.Subset.refl _) fun repoId ↦ ?_
  refine within_step (fetch_within (Rpc.allows_query _)) fun row ↦ ?_
  cases row with
  | none => exact rfl
  | some row => exact ⟨Rpc.allows_gitOpen _, fun _ ↦ rfl⟩

theorem sound_memberList {rpc : Rpc} {groups users : List Pb.Member}
    (hgroups : ∀ m ∈ groups, m.missing = []) (husers : ∀ m ∈ users, m.missing = []) :
    (Outcome.returned true (.memberList { status := some .kSucceed, groups, users })).sound rpc =
      true := by
  refine sound_returned ?_ (fun f hf ↦ ?_) true
  · exact nofun
  · rcases List.mem_append.mp hf with hf | hf
    · obtain ⟨m, hm, hf⟩ := List.mem_flatMap.mp hf
      rw [hgroups m hm] at hf
      cases hf
    · obtain ⟨m, hm, hf⟩ := List.mem_flatMap.mp hf
      rw [husers m hm] at hf
      cases hf

theorem groupListMembers_bounded (request : Pb.GroupSelector) :
    Bounded (.groupListMembers request) .memberList (groupListMembers request) := by
  refine ⟨Rpc.allows_query _, fun rows ↦ sound_memberList (List.forall_mem_nil _) fun m hm ↦ ?_⟩
  obtain ⟨row, -, rfl⟩ := List.mem_map.mp hm
  rfl

theorem repoListMembers_bounded (request : Pb.RepoSelector) :
    Bounded (.repoListMembers request) .memberList (repoListMembers thread request) := by
  refine view_bounded (fun _ _ ↦ rfl) (fun _ _ ↦ List.Subset.refl _) fun repoId ↦ ?_
  refine ⟨Rpc.allows_query _, fun groups ↦ ⟨Rpc.allows_query _, fun users ↦ ?_⟩⟩
  refine sound_memberList (fun m hm ↦ ?_) fun m hm ↦ ?_
  · obtain ⟨row, -, rfl⟩ := List.mem_map.mp hm
    rfl
  · obtain ⟨row, -, rfl⟩ := List.mem_map.mp hm
    rfl

theorem repoListBranches_bounded (request : Pb.RepoSelector) :
    Bounded (.repoListBranches request) .gitBranches (repoListBranches d thread request) :=
  gitView_bounded (fun _ _ ↦ rfl) (fun _ _ ↦ List.Subset.refl _) fun _ ↦ rfl

theorem repoGetTags_bounded (request : Pb.RepoSelector) :
    Bounded (.repoGetTags request) .gitTags (repoGetTags d thread request) :=
  gitView_bounded (fun _ _ ↦ rfl) (fun _ _ ↦ List.Subset.refl _) fun _ ↦ rfl

theorem repoGetCommit_bounded (request : Pb.CommitSelector) :
    Bounded (.repoGetCommit request) .gitCommit (repoGetCommit d thread request) := by
  refine gitView_bounded (fun _ _ ↦ rfl) (fun _ _ ↦ List.Subset.refl _) fun repo ↦ ?_
  cases lookupRevision repo request.revision <;> exact rfl

theorem repoGetLog_bounded (request : Pb.LogSelector) :
    Bounded (.repoGetLog request) .gitLog (repoGetLog d thread request) := by
  refine gitView_bounded (fun _ _ ↦ rfl) (fun _ _ ↦ List.Subset.refl _) fun repo ↦ ?_
  cases request.revision with
  | none => dsimp only; split_ifs <;> exact rfl
  | some revision =>
    dsimp only
    cases repo.referenceToOid revision <;> split_ifs <;> exact rfl

theorem repoGetTree_bounded (request : Pb.TreeSelector) :
    Bounded (.repoGetTree request) .gitTree (repoGetTree d thread request) := by
  refine gitView_bounded (fun _ _ ↦ rfl) (fun _ _ ↦ List.Subset.refl _) fun repo ↦ ?_
  cases lookupRevision repo (request.revision.getD []) with
  | none => exact rfl
  | some commit =>
    dsimp only
    cases repo.tree commit.treeId (request.directory.getD []) <;> exact rfl

theorem repoGetBlob_bounded (request : Pb.BlobSelector) :
    Bounded (.repoGetBlob request) .gitBlob (repoGetBlob d thread request) := by
  refine gitView_bounded (fun _ _ ↦ rfl) (fun _ _ ↦ List.Subset.refl _) fun repo ↦ ?_
  dsimp only
  split
  · exact rfl
  split
  · exact rfl
  split
  · exact rfl
  split <;> exact rfl

theorem repoGetPatch_bounded (request : Pb.DiffSelector) :
    Bounded (.repoGetPatch request) .gitPatch (repoGetPatch d thread request) := by
  refine gitView_bounded (fun _ _ ↦ rfl) (fun _ _ ↦ List.Subset.refl _) fun repo ↦ ?_
  split
  · exact rfl
  split
  · exact rfl
  split
  · exact rfl
  dsimp only
  split <;> exact rfl

theorem shellControl_bounded (request : Pb.ShellControl) :
    Bounded (.shellControl request) .shellStatus (shellControl d request) := by
  refine within_step (fetch_within (Rpc.allows_query _)) fun repoId ↦ ?_
  cases repoId with
  | none => exact rfl
  | some repoId =>
    refine within_step (fetch_within (Rpc.allows_query _)) fun isAdmin ↦ ?_
    refine within_step ⟨Rpc.allows_query _, fun _ ↦ trivial⟩ fun role ↦ ?_
    exact within_step (fetch_within (Rpc.allows_query _)) fun _ ↦ rfl

end Service

/-! ## All calls -/

variable {d : Deployment} {thread : Option Session}

theorem Bounded.answer {ρ : Type} {rpc : Rpc} {message : ρ → Pb.Message}
    {handler : Server (Outcome ρ)} (h : Bounded rpc message handler) :
    (answer message handler).Within rpc.Allows fun reply ↦ reply.outcome.sound rpc = true :=
  within_bind.mpr h

/-- **The bounds of every call**, from any thread, and how it ends. -/
theorem dispatch_sound (rpc : Rpc) :
    (dispatch d thread rpc).Within rpc.Allows fun reply ↦ reply.outcome.sound rpc = true := by
  cases rpc with
  | serviceInfo => exact ⟨Rpc.allows_of_touches_eq_nil rfl, fun _ ↦ rfl⟩
  | userAuth request =>
    exact within_bind.mpr ((Service.userAuth_bounded request).mono (fun _ h ↦ h) fun _ h ↦ h)
  | userGetSession => exact Service.userGetSession_bounded.answer
  | userCreate request => exact (Service.userCreate_bounded request).answer
  | userAddSshKey request => exact (Service.userAddSshKey_bounded request).answer
  | userRemoveSshKey request => exact (Service.userRemoveSshKey_bounded request).answer
  | userGetSshKeys => exact Service.userGetSshKeys_bounded.answer
  | userSetPassword request => exact (Service.userSetPassword_bounded request).answer
  | groupCreate request => exact (Service.groupCreate_bounded request).answer
  | groupDelete request => exact (Service.groupDelete_bounded request).answer
  | groupAddUser request => exact (Service.groupAddUser_bounded request).answer
  | groupRemoveUser request => exact (Service.groupRemoveUser_bounded request).answer
  | groupGetInfo request => exact (Service.groupGetInfo_bounded request).answer
  | groupsList => exact ⟨Rpc.allows_query _, fun _ ↦ rfl⟩
  | groupListMembers request => exact (Service.groupListMembers_bounded request).answer
  | repoCreate request => exact (Service.repoCreate_bounded request).answer
  | repoUpdate request => exact (Service.repoUpdate_bounded request).answer
  | repoDelete request => exact (Service.repoDelete_bounded request).answer
  | repoAddUser request => exact (Service.repoAddUser_bounded request).answer
  | repoRemoveUser request => exact (Service.repoRemoveUser_bounded request).answer
  | repoAddGroup request => exact (Service.repoAddGroup_bounded request).answer
  | repoRemoveGroup request => exact (Service.repoRemoveGroup_bounded request).answer
  | reposList => exact Service.reposList_bounded.answer
  | repoGetInfo request => exact (Service.repoGetInfo_bounded request).answer
  | repoListMembers request => exact (Service.repoListMembers_bounded request).answer
  | repoListBranches request => exact (Service.repoListBranches_bounded request).answer
  | repoGetCommit request => exact (Service.repoGetCommit_bounded request).answer
  | repoGetLog request => exact (Service.repoGetLog_bounded request).answer
  | repoGetTree request => exact (Service.repoGetTree_bounded request).answer
  | repoGetBlob request => exact (Service.repoGetBlob_bounded request).answer
  | repoGetPatch request => exact (Service.repoGetPatch_bounded request).answer
  | repoGetTags request => exact (Service.repoGetTags_bounded request).answer
  | shellControl request => exact (Service.shellControl_bounded request).answer

/-- No call reports an invalid session. -/
theorem dispatch_within (rpc : Rpc) :
    (dispatch d thread rpc).Within rpc.Allows
      fun reply ↦ reply.outcome.status ≠ some .kInvalidSession :=
  (dispatch_sound rpc).mono (fun _ hop ↦ hop) fun _ ↦ Outcome.status_of_sound

/-! ## All requests -/

theorem sessionAuth_within (cookies : Cookies) (isSsl : Bool) {P : {β : Type} → Op β → Prop}
    (hquery : ∀ {β : Type} (q : Query β), P (.query q)) :
    (Session.auth cookies isSsl).Within P fun _ ↦ True := by
  obtain ⟨user, token⟩ := cookies
  cases user with
  | none => trivial
  | some user =>
    cases token with
    | none => trivial
    | some token =>
      refine within_step (fetch_within (hquery _)) fun row ↦ ?_
      cases row <;> trivial

theorem sessionHandle_within (d : Deployment) (cookies : Cookies) (isSsl : Bool) (rpc : Rpc) :
    (sessionHandle d cookies isSsl rpc).Within rpc.Allows
      fun reply ↦ reply.outcome.status ≠ some .kInvalidSession :=
  within_step (sessionAuth_within cookies isSsl Rpc.allows_query) fun _ ↦ dispatch_within rpc

/-- The parts of the world an HTTP request may change. -/
@[simp] def HttpRequest.footprint (request : HttpRequest) : List Resource :=
  match request.target with
  | .api rpc => rpc.footprint
  | .logout => [.lastInsertRowid, .table .usersAuths]
  | .archive _ => []

theorem accessCheckRepo_within (session : Session) (repoId : ℤ) (role : Pb.Role)
    {P : {β : Type} → Op β → Prop} (hquery : ∀ {β : Type} (q : Query β), P (.query q)) :
    (accessCheckRepo session repoId role).Within P fun _ ↦ True := by
  refine within_step (fetch_within (hquery _)) fun isPublic ↦ ?_
  cases isPublic with
  | none => trivial
  | some isPublic =>
    dsimp only
    split_ifs
    · trivial
    · trivial
    · refine within_step ⟨hquery _, fun _ ↦ trivial⟩ fun role ↦ ?_
      split_ifs <;> trivial

theorem archiveHandle_within (cookies : Cookies) (isSsl : Bool) (location : Option ArchiveLocation)
    {P : {β : Type} → Op β → Prop} (hquery : ∀ {β : Type} (q : Query β), P (.query q))
    (hopen : ∀ path, P (.gitOpen path)) :
    (archiveHandle d cookies isSsl location).Within P fun _ ↦ True := by
  cases location with
  | none => trivial
  | some location =>
    refine within_step (sessionAuth_within cookies isSsl hquery) fun session ↦ ?_
    refine within_step (accessCheckRepo_within session _ _ hquery) fun allowed ↦ ?_
    split_ifs
    · trivial
    · refine within_step ⟨hopen _, fun _ ↦ trivial⟩ fun repo ↦ ?_
      cases repo with
      | none => trivial
      | some repo =>
        dsimp only
        cases Service.lookupRevision repo location.revision with
        | none => trivial
        | some commit =>
          dsimp only
          cases repo.tree commit.treeId [] <;> trivial

/-- **The bounds of every request.** -/
theorem serve_within (request : HttpRequest) :
    (serve d request).Within (fun op ↦ op.touches ⊆ request.footprint) fun _ ↦ True := by
  obtain ⟨cookies, isSsl, target⟩ := request
  cases target with
  | api rpc =>
    refine within_map.mpr ((sessionHandle_within d cookies isSsl rpc).mono (fun _ hop ↦ hop.1) ?_)
    exact fun _ _ ↦ trivial
  | logout =>
    refine within_map.mpr (within_step (sessionAuth_within cookies isSsl ?_) fun session ↦ ?_)
    · exact fun q ↦ List.nil_subset _
    · exact ⟨by simp, fun _ ↦ trivial⟩
  | archive location =>
    refine within_map.mpr (archiveHandle_within cookies isSsl location ?_ ?_)
    · exact fun q ↦ List.nil_subset _
    · exact fun path ↦ List.nil_subset _

/-- A request leaves alone what its footprint does not list. -/
theorem serve_same {request : HttpRequest} {r : Resource} (h : r ∉ request.footprint)
    (env : ℕ → Env) (w : World) : r.Same w ((serve d request).run env w).2 :=
  run_same ((serve_within request).mono (fun _ hop hmem ↦ h (hop hmem)) fun _ h ↦ h) env w

end Scissy
