import Scissy.Access.Membership
import Scissy.Security.Hidden
import Scissy.Server.Footprint
import Scissy.Session.Expiry
import Scissy.Session.Registration
import Scissy.Storage.Disk

/-!
# Well-formed responses

A response can be sent when its `required` fields are set, and tells the caller something when its
status is. The macros and the failing exits of a handler set the status and a message, and leave
the rest of the response as it is. That is enough for most responses, whose other fields are
optional; a `Session` also needs its user, and a `RepoInfo` everything but the time of its last
commit, and a handler sets these when everything has succeeded.

`dispatch_sound` has settled all calls but five. For these `Rpc.FillsIn` says when the handler takes
an exit that sets what is required, and `wellFormed_iff` that the response of a call is well formed
then, and then only.

## Which choice an operation meets

Whether a call succeeds depends on the environment: the answer of an authenticator, the bytes that
are drawn, a fault of the disk. The condition is about the choice that one particular operation
meets, so each of the five handlers is followed operation by operation. The lookups in front may
take one operation or none, and `ReturnsIn` counts them.

## What counts as an answer

A handler that crashes, throws or returns false sends nothing, and nothing is asked of it. The
session of the thread is an `Option` here, as it is on the socket, where a handler that needs one
crashes.
-/

open Relational Interaction Interaction.Prog

namespace Scissy

/-! ## Responses -/

/-- Whenever the handler returns true, the response has its status, if its message has one, and all
the `required` fields of the message. -/
def Outcome.WellFormed (o : Outcome Pb.Message) : Prop :=
  ∀ response, o = .returned true response → response.missing = []

theorem wellFormed_returned_iff {response : Pb.Message} :
    (Outcome.returned true response).WellFormed ↔ response.missing = [] :=
  ⟨fun h ↦ h response rfl, by rintro h _ ⟨⟩; exact h⟩

theorem wellFormed_crash : (Outcome.crash : Outcome Pb.Message).WellFormed := by rintro _ ⟨⟩

theorem wellFormed_of_leavesOut {rpc : Rpc} (h : rpc.leavesOut = []) (d : Deployment)
    (thread : Option Session) (env : ℕ → Env) (w : World) :
    ((dispatch d thread rpc).run env w).1.outcome.WellFormed := by
  intro response hresponse
  have hsound : ((dispatch d thread rpc).run env w).1.outcome.sound rpc = true :=
    (dispatch_sound rpc).run_value env w
  rw [hresponse] at hsound
  have hmissing := missing_subset_of_sound hsound
  rw [h] at hmissing
  exact List.subset_nil.mp hmissing

theorem outcome_run_answer {ρ : Type} (message : ρ → Pb.Message) (handler : Server (Outcome ρ))
    (env : ℕ → Env) (w : World) :
    ((answer message handler).run env w).1.outcome = (handler.run env w).1.map message :=
  congrArg (·.1.outcome) (run_map (fun o ↦ Reply.mk (o.map message) []) handler env w)

/-! ## Setting a password -/

section UserSetPassword

variable {w : World}

/-- The call would set a password: the caller is an administrator, the password is good, and the
user exists. -/
def Database.SetsPassword (db : Database) (d : Deployment) (session : Session)
    (request : Pb.UserPasswordChange) : Prop :=
  session.role = Pb.Role.kOwner.toInt ∧ Service.userCheckPassword d request.newPassword = none ∧
    ∃ id user, (id, user) ∈ db.users.rows ∧ user.login = request.user

theorem userSetPassword_wellFormed_iff (h : w.db.Valid) (d : Deployment) (thread : Option Session)
    (request : Pb.UserPasswordChange) (env : ℕ → Env) :
    (((Service.userSetPassword d thread request).run env w).1.map .statusMsg).WellFormed ↔
      ∀ session, thread = some session → ¬ w.db.SetsPassword d session request := by
  rw [Service.userSetPassword]
  cases hcheck : Service.userCheckPassword d request.newPassword with
  | some msg =>
    refine iff_of_true (wellFormed_returned_iff.mpr rfl) ?_
    rintro session - ⟨-, hnone, -⟩
    cases hcheck.symm.trans hnone
  | none =>
    cases thread with
    | none => exact iff_of_true wellFormed_crash (by rintro session ⟨⟩)
    | some session =>
      have hfetch : (Db.userGetId request.user).ReturnsIn w 1 _ := fetch_returnsIn fun _ ↦ rfl
      dsimp only
      rw [Service.authenticateUser_orReturn, hfetch.run_bind]
      cases hrow : ((Query.userGetId request.user).rows 0 w.db).head? with
      | none =>
        refine iff_of_true (wellFormed_returned_iff.mpr rfl) ?_
        rintro _ - ⟨-, -, id, user, hmem, hlogin⟩
        cases hrow.symm.trans (h.head?_userGetId_iff.mpr ⟨user, hmem, hlogin⟩)
      | some id =>
        obtain ⟨user, hmem, hlogin⟩ := h.head?_userGetId_iff.mp hrow
        dsimp only
        rw [Service.roleOf_helper]
        by_cases howner : session.role = Pb.Role.kOwner.toInt
        · rw [if_neg (not_not.mpr howner)]
          refine iff_of_false (fun hwf ↦ ?_) fun hall ↦ ?_
          · cases wellFormed_returned_iff.mp hwf
          · exact hall session rfl ⟨howner, hcheck, id, user, hmem, hlogin⟩
        · rw [if_pos howner]
          refine iff_of_true (wellFormed_returned_iff.mpr rfl) ?_
          rintro _ ⟨⟩ hsets
          exact howner hsets.1

end UserSetPassword

/-! ## Signing in -/

section UserAuth

variable {w : World} {d : Deployment} {request : Pb.UserAuth}

/-- The configured authenticator takes the password. -/
def User.Accepts (d : Deployment) (user : User) (password : Bytes) (e : Env) : Prop :=
  match d.authenticator with
  | .kAuthBuiltin => user.passwordType = text "SHA3-512" ∧
      d.base16Decode user.passwordHash = d.sha3_512 (d.base16Decode user.passwordSalt ++ password)
  | .kAuthProcess => e.exitStatus = some 0

/-- SQLite inserts the token. -/
def Database.TakesToken (db : Database) (userId : ℤ) (token : Bytes)
    (fault : Option SqliteError) : Prop :=
  fault = none ∧ userId ∈ db.users.ids ∧ (token, userId) ∉ db.usersAuths.rows.map UserAuth.key

/-- The request is one of a user, with the right password, and a token can be made and stored. -/
def Database.SignsIn (db : Database) (d : Deployment) (request : Pb.UserAuth) (env : ℕ → Env) :
    Prop :=
  ∃ id user, (id, user) ∈ db.users.rows ∧ user.login = request.user ∧
    user.Accepts d request.password (env 0) ∧ (env 2).rndFails = false ∧
    db.TakesToken (Service.castInt id) (d.base16Encode ((List.range 32).map (env 2).random))
      (env 4).fault

theorem World.insertUserAuth_done_iff {userId : ℤ} {token : Bytes} {e : Env} (start : ℤ) :
    (w.write e (.insertUserAuth userId token start)).1 = .done ↔
      w.db.TakesToken userId token e.fault := by
  rw [World.write, Database.TakesToken]
  cases e.fault with
  | some err => simp
  | none =>
    refine (Write.insertInto_done_iff (by decide)).trans ?_
    rw [KeyTable.exists_insert_iff]
    exact (and_iff_right rfl).symm

/-- **What the authenticators accept** is a user's own password. -/
theorem authenticate_ok_iff (h : w.db.Valid) {id : ℤ} {user : User}
    (hmem : (id, user) ∈ w.db.users.rows) (hlogin : user.login = request.user) (env : ℕ → Env) :
    ((Service.authenticate d request).run env w).1 = .ok () ↔
      user.Accepts d request.password (env 0) := by
  obtain ⟨login, password⟩ := request
  obtain rfl : user.login = login := hlogin
  rw [Service.authenticate, User.Accepts]
  cases d.authenticator with
  | kAuthBuiltin => exact builtinAuth_ok_iff h hmem password env
  | kAuthProcess =>
    simp only [Service.processAuth, issue, call_bind, done_bind, run_call, exec_authProcess]
    cases (env 0).exitStatus with
    | none => exact iff_of_false (by rintro ⟨⟩) (by rintro ⟨⟩)
    | some status =>
      dsimp only
      split_ifs with hstatus
      · exact iff_of_true rfl (congrArg some hstatus)
      · exact iff_of_false (by rintro ⟨⟩) fun heq ↦ hstatus (Option.some_inj.mp heq)

theorem signsIn_iff (h : w.db.Valid) (env : ℕ → Env) :
    w.db.SignsIn d request env ↔ ∃ id, Service.StoresToken d request env w id := by
  constructor
  · rintro ⟨id, user, hmem, hlogin, haccepts, hrnd, htakes⟩
    refine ⟨id, (authenticate_ok_iff h hmem hlogin env).mpr haccepts, ?_, hrnd, ?_⟩
    · exact h.head?_userGetId_iff.mpr ⟨user, hmem, hlogin⟩
    · exact (World.insertUserAuth_done_iff _).mpr htakes
  · rintro ⟨id, hauth, hrow, hrnd, hdone⟩
    -- the query leaves nothing open, so its rows are the same for every choice
    have hid : ((Query.userGetId request.user).rows 0 w.db).head? = some id := hrow
    obtain ⟨user, hmem, hlogin⟩ := h.head?_userGetId_iff.mp hid
    exact ⟨id, user, hmem, hlogin, (authenticate_ok_iff h hmem hlogin env).mp hauth, hrnd,
      (World.insertUserAuth_done_iff _).mp hdone⟩

theorem userAuth_wellFormed_iff (h : w.db.Valid) (d : Deployment) (thread : Option Session)
    (request : Pb.UserAuth) (env : ℕ → Env) :
    (((Service.userAuth d thread request).run env w).1.1.map .session).WellFormed ↔
      w.db.SignsIn d request env := by
  rw [signsIn_iff h]
  rcases Service.userAuth_run d thread request env w with ⟨hstores, hr⟩ | ⟨hno, msg, hr⟩
  · rw [hr]
    refine iff_of_true ?_ hstores
    cases thread with
    | none => exact wellFormed_crash
    | some session => exact wellFormed_returned_iff.mpr rfl
  · rw [hr]
    refine iff_of_false (fun hwf ↦ ?_) (not_exists.mpr hno)
    cases wellFormed_returned_iff.mp hwf

end UserAuth

/-! ## Repositories -/

section Repositories

variable {w : World}

/-- The call creates a repository: SQLite inserts the row, the directory can be made, and the caller
becomes the owner. -/
def Database.CreatesRepo (db : Database) (session : Session) (request : Pb.RepoCreate)
    (env : ℕ → Env) : Prop :=
  db.TakesRepo request (env 0).fault ∧ (env 2).gitInitFails = false ∧ (env 3).fault = none ∧
    session.userId ∈ db.users.ids

theorem create_ok_or_error (h : w.db.Valid) (d : Deployment) (session : Session)
    (request : Pb.RepoCreate) (env : ℕ → Env) :
    let created := ((Repositories.create d request.name request.desc request.isPublic
      session.userId).run env w).1
    w.db.CreatesRepo session request env ∧ (∃ id, created = .ok id) ∨
      ¬ w.db.CreatesRepo session request env ∧ ∃ err, created = .error err := by
  intro created
  rcases create_run (d := d) request session.userId env w with
    ⟨htakes, v, hv, -, hrun⟩ | ⟨hrefused, err, hrun⟩
  · have hcreated : created = _ := congrArg Prod.fst hrun
    rw [hcreated]
    rcases createDirectory_spec (d := d) h hv session.userId fun n ↦ env (n + 2) with
      ⟨hgit, herr, -⟩ | ⟨hgit, u, -, -, -, ⟨howned, hok, -⟩ | ⟨hno, herr, -⟩⟩
    · exact Or.inr ⟨fun hall ↦ Bool.noConfusion (hgit.symm.trans hall.2.1), herr⟩
    · exact Or.inl ⟨⟨htakes, hgit, howned⟩, _, hok⟩
    · exact Or.inr ⟨fun hall ↦ hno hall.2.2, herr⟩
  · exact Or.inr ⟨fun hall ↦ hrefused hall.1, err, congrArg Prod.fst hrun⟩

theorem repoCreate_wellFormed_iff (h : w.db.Valid) (d : Deployment) (thread : Option Session)
    (request : Pb.RepoCreate) (env : ℕ → Env) :
    (((Service.repoCreate d thread request).run env w).1.map .repoInfo).WellFormed ↔
      ∀ session, thread = some session → w.db.CreatesRepo session request env := by
  cases thread with
  | none => exact iff_of_true wellFormed_crash (by rintro session ⟨⟩)
  | some session =>
    obtain ⟨n, hbind⟩ := exists_run_bind
      (Repositories.create d request.name request.desc request.isPublic session.userId) env w
    rw [Service.repoCreate, Service.authenticateUser_orReturn, Service.userIdOf_helper, hbind]
    rcases create_ok_or_error h d session request env with
      ⟨hcreates, id, hcreated⟩ | ⟨hno, err, hcreated⟩
    · rw [hcreated]
      refine iff_of_true (wellFormed_returned_iff.mpr rfl) ?_
      rintro _ ⟨⟩
      exact hcreates
    · rw [hcreated]
      refine iff_of_false (fun hwf ↦ ?_) fun hall ↦ hno (hall session rfl)
      cases wellFormed_returned_iff.mp hwf

/-- The request names a repository, and the caller may see it. Without a session the question is not
asked, and a private repository ends the call without an answer. -/
def Database.ShowsRepo (db : Database) (thread : Option Session) (msg : Pb.RepoRef) : Prop :=
  ∃ repoId isPublic, db.NamesRepo msg repoId ∧ db.isPublic? repoId = some isPublic ∧
    (isPublic = true ∨
      ∀ session, thread = some session → .kReader ≤ db.reportedRole repoId session.userId)

theorem Database.showsRepo_iff {db : Database} {thread : Option Session} {msg : Pb.RepoRef}
    {repoId : ℤ} (hname : db.NamesRepo msg repoId) :
    db.ShowsRepo thread msg ↔ ∃ isPublic, db.isPublic? repoId = some isPublic ∧
      (isPublic = true ∨
        ∀ session, thread = some session → .kReader ≤ db.reportedRole repoId session.userId) := by
  constructor
  · rintro ⟨repoId', isPublic, hname', hshows⟩
    obtain rfl := Database.namesRepo_unique hname hname'
    exact ⟨isPublic, hshows⟩
  · rintro ⟨isPublic, hshows⟩
    exact ⟨repoId, isPublic, hname, hshows⟩

/-- **`CHECK_PUBLIC_REPO`**, with or without a session. It goes on with the repository, or crashes
for want of a session, or reports that the repository is not to be seen. -/
theorem checkPublicRepo_returnsIn {ρ : Type} [Pb.HasStatus ρ] (h : w.db.Valid)
    (thread : Option Session) (msg : Pb.RepoRef) :
    ∃ n, w.db.ShowsRepo thread msg ∧ (∃ repoId ∈ w.db.repos.ids,
          (Service.checkPublicRepo thread msg : Server (Check ρ ℤ)).ReturnsIn w n (.ok repoId)) ∨
      w.db.ShowsRepo thread msg ∧
        (Service.checkPublicRepo thread msg : Server (Check ρ ℤ)).ReturnsIn w n (.error .crash) ∨
      ¬ w.db.ShowsRepo thread msg ∧ ∃ status text,
        (Service.checkPublicRepo thread msg : Server (Check ρ ℤ)).ReturnsIn w n
          (.error (Service.reply status text)) := by
  rcases Service.setRepoId_returnsIn (w := w) (ρ := ρ) msg with
    ⟨repoId, hname, hset⟩ | ⟨hnone, n, status, text, -, hset⟩
  · have hpublic : (Db.repoIsPublic repoId).ReturnsIn w 1 (w.db.isPublic? repoId) :=
      fetch_returnsIn fun _ ↦ rfl
    rw [Database.showsRepo_iff hname]
    cases hrow : w.db.isPublic? repoId with
    | none =>
      rw [hrow] at hpublic
      refine ⟨_, Or.inr (Or.inr ⟨?_, _, _, hset.bind (hpublic.bind_done (returnsIn_done _))⟩)⟩
      rintro ⟨_, ⟨⟩, -⟩
    | some isPublic =>
      rw [hrow] at hpublic
      have hmem : repoId ∈ w.db.repos.ids := by
        by_contra hno
        cases hrow.symm.trans (Database.isPublic?_eq_none_iff.mpr hno)
      cases isPublic with
      | true =>
        exact ⟨_, Or.inl ⟨⟨true, rfl, Or.inl rfl⟩, repoId, hmem,
          hset.bind (hpublic.bind_done (returnsIn_done _))⟩⟩
      | false =>
        cases thread with
        | none =>
          exact ⟨_, Or.inr (Or.inl ⟨⟨false, rfl, Or.inr (by rintro _ ⟨⟩)⟩,
            hset.bind (hpublic.bind_done (returnsIn_done _))⟩)⟩
        | some session =>
          have hcheck := Service.checkRepoRole_returnsIn (ρ := ρ) h repoId session.userId .kReader
          split_ifs at hcheck with hrole
          · refine ⟨_, Or.inr (Or.inr ⟨?_, _, _,
              hset.bind (hpublic.bind (hcheck.bind_done (returnsIn_done _)))⟩)⟩
            rintro ⟨_, ⟨⟩, htrue | hreads⟩
            · cases htrue
            · exact (hreads session rfl).not_gt hrole
          · refine ⟨_, Or.inl ⟨⟨false, rfl, Or.inr ?_⟩, repoId, hmem,
              hset.bind (hpublic.bind (hcheck.bind_done (returnsIn_done _)))⟩⟩
            rintro _ ⟨⟩
            exact not_lt.mp hrole
  · refine ⟨n, Or.inr (Or.inr ⟨?_, status, text, hset.bind_done (returnsIn_done _)⟩)⟩
    rintro ⟨repoId, -, hname, -⟩
    exact hnone repoId hname

theorem repoGetInfo_wellFormed_iff (h : w.db.Valid) (d : Deployment) (thread : Option Session)
    (request : Pb.RepoSelector) (env : ℕ → Env) :
    (((Service.repoGetInfo d thread request).run env w).1.map .repoInfo).WellFormed ↔
      w.db.ShowsRepo thread request.toRepoRef := by
  rw [Service.repoGetInfo]
  obtain ⟨n, ⟨hshows, repoId, hmem, hok⟩ | ⟨hshows, hcrash⟩ | ⟨hno, status, text, herror⟩⟩ :=
    checkPublicRepo_returnsIn (ρ := Pb.RepoInfo) h thread request.toRepoRef
  · -- the row is still there when it is read
    obtain ⟨repo, hrepo⟩ := AutoTable.mem_ids.mp hmem
    have hfetch : (fetch (.repoGetInfo repoId)).ReturnsIn w 1 _ := fetch_returnsIn fun _ ↦ rfl
    have hrow : ((Query.repoGetInfo repoId).rows 0 w.db).head? =
        some (repo.name, repo.desc, repo.isPublic) := by
      rw [Query.rows, List.head?_map, AutoTable.head?_filter_id.mpr ⟨hrepo, rfl⟩]
      rfl
    rw [hok.run_orReturn_ok, hfetch.run_bind, hrow]
    exact iff_of_true (wellFormed_returned_iff.mpr rfl) hshows
  · rw [hcrash.run_orReturn_error]
    exact iff_of_true wellFormed_crash hshows
  · rw [herror.run_orReturn_error]
    refine iff_of_false (fun hwf ↦ ?_) hno
    cases wellFormed_returned_iff.mp hwf

theorem reposList_wellFormed_iff (d : Deployment) (env : ℕ → Env) :
    (((Service.reposList d).run env w).1.map .repoList).WellFormed ↔ w.db.repos.rows = [] := by
  rw [(reposList_returns (A := fun _ ↦ True) d w).run env fun _ ↦ trivial]
  refine wellFormed_returned_iff.trans ?_
  rw [Pb.Message.missing, List.append_eq_nil_iff, List.flatMap_eq_nil_iff]
  constructor
  · rintro ⟨-, hinfos⟩
    refine List.eq_nil_iff_forall_not_mem.mpr fun r hr ↦ ?_
    cases hinfos _ (mem_listedRepos.mpr ⟨r, hr, rfl⟩)
  · intro hnone
    refine ⟨rfl, fun info hinfo ↦ ?_⟩
    obtain ⟨r, hr, -⟩ := mem_listedRepos.mp hinfo
    rw [hnone] at hr
    cases hr

end Repositories

/-! ## Every call -/

section Calls

variable {w : World}

/-- The handler takes an exit that sets what is required, or does not answer at all. -/
def Rpc.FillsIn (d : Deployment) (thread : Option Session) (env : ℕ → Env) (db : Database) :
    Rpc → Prop
  | userAuth request => db.SignsIn d request env
  | userSetPassword request =>
    ∀ session, thread = some session → ¬ db.SetsPassword d session request
  | repoCreate request => ∀ session, thread = some session → db.CreatesRepo session request env
  | reposList => db.repos.rows = []
  | repoGetInfo request => db.ShowsRepo thread request.toRepoRef
  | _ => True

/-- **Well-formed responses.** What a call returns has its status and its `required` fields exactly
when the handler takes such an exit. -/
theorem wellFormed_iff (h : w.db.Valid) (d : Deployment) (thread : Option Session) (rpc : Rpc)
    (env : ℕ → Env) :
    ((dispatch d thread rpc).run env w).1.outcome.WellFormed ↔ rpc.FillsIn d thread env w.db := by
  cases rpc with
  | userAuth request =>
    have houtcome : ((dispatch d thread (.userAuth request)).run env w).1.outcome =
        ((Service.userAuth d thread request).run env w).1.1.map .session :=
      congrArg (·.1.outcome) (run_map (fun p : Outcome Pb.Session × List Cookie ↦
        Reply.mk (p.1.map .session) p.2) (Service.userAuth d thread request) env w)
    rw [houtcome]
    exact userAuth_wellFormed_iff h d thread request env
  | userSetPassword request =>
    rw [dispatch, outcome_run_answer]
    exact userSetPassword_wellFormed_iff h d thread request env
  | repoCreate request =>
    rw [dispatch, outcome_run_answer]
    exact repoCreate_wellFormed_iff h d thread request env
  | reposList =>
    rw [dispatch, outcome_run_answer]
    exact reposList_wellFormed_iff d env
  | repoGetInfo request =>
    rw [dispatch, outcome_run_answer]
    exact repoGetInfo_wellFormed_iff h d thread request env
  | _ => exact iff_of_true (wellFormed_of_leavesOut rfl d thread env w) trivial

/-- A member is shown a private repository. -/
theorem wellFormed_shown :
    ((dispatch .plain (some { userId := 1 }) (.repoGetInfo { repoId := some 1 })).run (fun _ ↦ {})
      { World.initial with db := .viaGroup .kOwner .kOwner }).1.outcome.WellFormed :=
  (wellFormed_iff (Database.viaGroup_valid _ _) .plain (some { userId := 1 })
    (.repoGetInfo { repoId := some 1 }) fun _ ↦ {}).mpr
      ⟨1, false, Or.inl rfl, by decide, Or.inr (by rintro _ ⟨⟩; decide)⟩

/-- An administrator sets a password, a user whose password is wrong signs in, a name is taken, a
repository does not exist, and there are repositories to list. -/
theorem not_wellFormed :
    let w : World := { World.initial with db := .viaGroup .kOwner .kOwner }
    let outcome (session : Session) (rpc : Rpc) : Outcome Pb.Message :=
      ((dispatch .plain (some session) rpc).run (fun _ ↦ { exitStatus := some 1 }) w).1.outcome
    w.db.Valid ∧
      ¬ (outcome { userId := 1, role := Pb.Role.kOwner.toInt }
        (.userSetPassword ⟨text "u", none, text "secret"⟩)).WellFormed ∧
      ¬ (outcome {} (.userAuth ⟨text "u", []⟩)).WellFormed ∧
      ¬ (outcome { userId := 1 } (.repoCreate ⟨text "r", [], true⟩)).WellFormed ∧
      ¬ (outcome {} (.repoGetInfo { repoId := some 2 })).WellFormed ∧
      ¬ (outcome {} .reposList).WellFormed := by
  intro w outcome
  refine ⟨Database.viaGroup_valid _ _, fun hwf ↦ ?_, fun hwf ↦ ?_, fun hwf ↦ ?_, fun hwf ↦ ?_,
    fun hwf ↦ ?_⟩
  · cases hwf _ rfl
  · cases hwf _ rfl
  · cases hwf _ rfl
  · cases hwf _ rfl
  · cases hwf _ rfl

end Calls

end Scissy
