import Scissy.Access.Role
import Scissy.Server.Http

/-!
# The gates

What the macros of the handlers and the check of the archive download decide, in terms of the
tables. Each macro gets a rule for the weakest precondition of a handler that expands it: the
handler ends where it stands, or goes on knowing what the macro has checked.

## What a request names

The macros `SET_GRP_ID`, `SET_USER_ID` and `SET_REPO_ID` take the number from the request, or look
the name up. A number that is given is believed: nothing asks whether there is such a row, and a
name beside it is ignored. So `Names` holds of any number that is given, and a later statement may
find that nothing has this number.

## Two accounts of a macro

`Decides` says what a macro decides, whatever the environment does. That is enough where the
handler does nothing but read. A handler that writes afterwards needs to know at which place of the
environment its statement is executed, so `ReturnsIn` counts the operations as well. The lookup by a
number takes none and the lookup by a name one (`lookups`), and the question for the role one.

The gate of an owner (`Service.ownerGate_run`) puts the two lookups and the question together once,
for all handlers that start with them.
-/

open Relational Interaction Interaction.Prog

namespace Scissy

/-! ## What a request names -/

namespace Database

/-- `id` is given, or is the number of the row whose name is given. -/
def Names (db : Database) (id? : Option ℤ) (name? : Option Bytes) (getId : Bytes → Query ℤ)
    (id : ℤ) : Prop :=
  id? = some id ∨ id? = none ∧ ∃ name, name? = some name ∧ ((getId name).rows 0 db).head? = some id

/-- The group a request names. -/
def NamesGroup (db : Database) (msg : Pb.GroupRef) : ℤ → Prop :=
  db.Names msg.grpId msg.grp .groupGetId

/-- The user a request names. -/
def NamesUser (db : Database) (msg : Pb.UserRef) : ℤ → Prop :=
  db.Names msg.userId msg.user .userGetId

/-- The repository a request names. -/
def NamesRepo (db : Database) (msg : Pb.RepoRef) : ℤ → Prop :=
  db.Names msg.repoId msg.repo .repoGetId

/-- Names are unique, so a lookup finds the row. -/
theorem Valid.head?_groupGetId_iff {db : Database} (h : db.Valid) {name : Bytes} {id : ℤ} :
    ((Query.groupGetId name).rows 0 db).head? = some id ↔
      ∃ grp, (id, grp) ∈ db.groups.rows ∧ grp.name = name :=
  h.groupName_unique.head?_map_fst_filter

theorem Valid.head?_userGetId_iff {db : Database} (h : db.Valid) {login : Bytes} {id : ℤ} :
    ((Query.userGetId login).rows 0 db).head? = some id ↔
      ∃ user, (id, user) ∈ db.users.rows ∧ user.login = login :=
  h.login_unique.head?_map_fst_filter

theorem Valid.head?_repoGetId_iff {db : Database} (h : db.Valid) {name : Bytes} {id : ℤ} :
    ((Query.repoGetId name).rows 0 db).head? = some id ↔
      ∃ repo, (id, repo) ∈ db.repos.rows ∧ repo.name = name :=
  h.repoName_unique.head?_map_fst_filter

theorem Valid.head?_builtinAuth {db : Database} (h : db.Valid) {id : ℤ} {user : User}
    (hmem : (id, user) ∈ db.users.rows) :
    ((Query.builtinAuth user.login).rows 0 db).head? =
      some (user.passwordType, user.passwordSalt, user.passwordHash) := by
  rw [Query.rows, List.head?_map, h.login_unique.head?_filter.mpr ⟨hmem, rfl⟩]
  rfl

/-- Whether a repository is public, if there is one. -/
def isPublic? (db : Database) (repoId : ℤ) : Option Bool :=
  ((Query.repoIsPublic repoId).rows 0 db).head?

/-- A repository that exists and is public, or on which the user is reported to be a reader. -/
def CanRead (db : Database) (userId repoId : ℤ) : Prop :=
  ∃ isPublic, db.isPublic? repoId = some isPublic ∧
    (isPublic = true ∨ .kReader ≤ db.reportedRole repoId userId)

theorem isPublic?_eq_some_iff {db : Database} {repoId : ℤ} {isPublic : Bool} :
    db.isPublic? repoId = some isPublic ↔
      ∃ repo, (repoId, repo) ∈ db.repos.rows ∧ repo.isPublic = isPublic := by
  rw [isPublic?, Query.rows, List.head?_map, Option.map_eq_some_iff]
  simp only [AutoTable.head?_filter_id]
  constructor
  · rintro ⟨⟨_, repo⟩, ⟨hr, rfl⟩, hpublic⟩
    exact ⟨repo, hr, hpublic⟩
  · rintro ⟨repo, hr, hpublic⟩
    exact ⟨(repoId, repo), ⟨hr, rfl⟩, hpublic⟩

theorem isPublic?_eq_none_iff {db : Database} {repoId : ℤ} :
    db.isPublic? repoId = none ↔ repoId ∉ db.repos.ids := by
  rw [Option.eq_none_iff_forall_ne_some, AutoTable.mem_ids, not_exists]
  refine ⟨fun h repo hr ↦ h _ (isPublic?_eq_some_iff.mpr ⟨repo, hr, rfl⟩), fun h isPublic hp ↦ ?_⟩
  obtain ⟨repo, hr, -⟩ := isPublic?_eq_some_iff.mp hp
  exact h repo hr

theorem Valid.reportedRole_of_notMem_users {db : Database} (h : db.Valid) {repoId userId : ℤ}
    (huser : userId ∉ db.users.ids) : db.reportedRole repoId userId = .kNone := by
  by_contra hne
  have hpos : ⊥ < db.reportedRole repoId userId := bot_lt_iff_ne_bot.mpr hne
  rcases (reportedRole_isRole h repoId userId _ hpos).mp le_rfl with
    ⟨-, ⟨row, hrow, -, rfl, rfl⟩, -⟩ | ⟨-, -, -, -, ⟨row, hrow, -, rfl, rfl⟩, -⟩
  · exact huser (h.reposUsers_user row hrow)
  · exact huser (h.groupsUsers_user row hrow)

theorem Valid.role_of_notMem_repos {db : Database} (h : db.Valid) {repoId userId : ℤ}
    {counts : Pb.Role → Pb.Role → Prop} {role : Pb.Role}
    (hrole : db.policy.IsRole counts repoId userId role) (hrepo : repoId ∉ db.repos.ids) :
    role = .kNone := by
  by_contra hne
  rcases (hrole role (bot_lt_iff_ne_bot.mpr hne)).mp le_rfl with
    ⟨-, ⟨row, hrow, rfl, -, rfl⟩, -⟩ | ⟨-, -, -, ⟨row, hrow, rfl, -, rfl⟩, -⟩
  · exact hrepo (h.reposUsers_repo row hrow)
  · exact hrepo (h.reposGroups_repo row hrow)

theorem Valid.reportedRole_of_notMem_repos {db : Database} (h : db.Valid) {repoId userId : ℤ}
    (hrepo : repoId ∉ db.repos.ids) : db.reportedRole repoId userId = .kNone :=
  h.role_of_notMem_repos (reportedRole_isRole h repoId userId) hrepo

theorem Valid.effectiveRole_of_notMem_repos {db : Database} (h : db.Valid) {repoId userId : ℤ}
    (hrepo : repoId ∉ db.repos.ids) : db.effectiveRole repoId userId = .kNone :=
  h.role_of_notMem_repos (effectiveRole_isRole db repoId userId) hrepo

end Database

/-! ## What the macros decide -/

section Rules

variable {A : Env → Prop} {β : Type} {w : World}

theorem query_returns {q : Query β} (hpick : ∀ pick, q.rows pick w.db = q.rows 0 w.db) :
    (issue (Op.query q)).Returns A w (q.rows 0 w.db) := fun e _ ↦ ⟨rfl, hpick e.pick⟩

theorem fetch_returns {q : Query β} (hpick : ∀ pick, q.rows pick w.db = q.rows 0 w.db) :
    (fetch q).Returns A w (q.rows 0 w.db).head? := (query_returns hpick).bind (returns_done _)

theorem gitOpen_returns (path : Bytes) :
    (issue (Op.gitOpen path)).Returns A w (w.repositories path) := fun _ _ ↦ ⟨rfl, rfl⟩

theorem repoIsPublic_returns (repoId : ℤ) :
    (Db.repoIsPublic repoId).Returns A w (w.db.isPublic? repoId) := fetch_returns fun _ ↦ rfl

theorem repoGetUserRole_returns (h : w.db.Valid) (repoId userId : ℤ) :
    (Db.repoGetUserRole repoId userId).Returns A w (true, w.db.reportedRole repoId userId) := by
  rw [← h.maxRole_userRoleRows]
  exact (query_returns fun _ ↦ rfl).bind (returns_done _)

theorem answer_returns {ρ : Type} {message : ρ → Pb.Message} {handler : Server (Outcome ρ)}
    {outcome : Outcome ρ} (h : handler.Returns A w outcome) :
    (answer message handler).Returns A w { outcome := outcome.map message } :=
  h.bind (returns_done _)

namespace Service

variable {ρ : Type}

/-- A live session always passes `AUTHENTICATE_USER`. -/
theorem authenticateUser_orReturn (session : Session) (k : Pb.Session → Server (Outcome ρ)) :
    (authenticateUser (some session)).orReturn k = k (userGetSessionHelper session).2 := rfl

@[simp] theorem userIdOf_helper (session : Session) :
    userIdOf (userGetSessionHelper session).2 = session.userId := rfl

@[simp] theorem roleOf_helper (session : Session) :
    roleOf (userGetSessionHelper session).2 = session.role := rfl

theorem authenticateUser_andThen {α : Type} (session : Session)
    (k : Pb.Session → Server (Check ρ α)) :
    (authenticateUser (some session)).andThen k = k (userGetSessionHelper session).2 := rfl

theorem authenticateUser_decides (session : Session) :
    (authenticateUser (some session) : Server (Check ρ Pb.Session)).Decides A w
      (· = (userGetSessionHelper session).2) :=
  decides_ok _

/-- The `SET_*_ID` macros, for a query that leaves nothing open. -/
theorem setId_decides {id? : Option ℤ} {name? : Option Bytes} {getId : Bytes → Query ℤ}
    {unspecified notFound : Outcome ρ}
    (hpick : ∀ name pick, (getId name).rows pick w.db = (getId name).rows 0 w.db) :
    (setId id? name? (fun name ↦ fetch (getId name)) unspecified notFound).Decides A w
      (w.db.Names id? name? getId) := by
  match id?, name? with
  | some id, name? => exact (decides_ok id).congr fun i ↦ by simp [Database.Names, eq_comm]
  | none, none => exact decides_error _ fun i ↦ by simp [Database.Names]
  | none, some name =>
    refine (fetch_returns (hpick name)).wp_bind ?_
    cases hrow : ((getId name).rows 0 w.db).head? with
    | none => exact decides_error _ fun i ↦ by simp [Database.Names, hrow]
    | some id => exact (decides_ok id).congr fun i ↦ by simp [Database.Names, hrow, eq_comm]

theorem setGrpId_decides (msg : Pb.GroupRef) :
    (setGrpId msg : Server (Check ρ ℤ)).Decides A w (w.db.NamesGroup msg) :=
  setId_decides fun _ _ ↦ rfl

variable [Pb.HasStatus ρ]

theorem setUserId_decides (msg : Pb.UserRef) :
    (setUserId msg : Server (Check ρ ℤ)).Decides A w (w.db.NamesUser msg) :=
  setId_decides fun _ _ ↦ rfl

theorem setRepoId_decides (msg : Pb.RepoRef) :
    (setRepoId msg : Server (Check ρ ℤ)).Decides A w (w.db.NamesRepo msg) :=
  setId_decides fun _ _ ↦ rfl

/-- `CHECK_REPO_ROLE` goes on with a user whose reported role is high enough. -/
theorem checkRepoRole_decides (h : w.db.Valid) (repoId userId : ℤ) (roleId : Pb.Role) :
    (checkRepoRole repoId userId roleId : Server (Check ρ Unit)).Decides A w
      fun _ ↦ roleId ≤ w.db.reportedRole repoId userId := by
  refine (repoGetUserRole_returns h repoId userId).wp_bind ?_
  simp only [Bool.not_true, Bool.false_eq_true, if_false]
  split_ifs with hrole
  · exact decides_error _ fun _ ↦ hrole.not_ge
  · exact (decides_ok ()).congr fun _ ↦ iff_of_true rfl (not_lt.mp hrole)

/-- `CHECK_PUBLIC_REPO` goes on with a repository the user may read. -/
theorem checkPublicRepo_decides (h : w.db.Valid) (session : Session) (msg : Pb.RepoRef) :
    (checkPublicRepo (some session) msg : Server (Check ρ ℤ)).Decides A w
      fun id ↦ w.db.NamesRepo msg id ∧ w.db.CanRead session.userId id := by
  refine ((setRepoId_decides msg).andThen fun repoId _ ↦ (?_ : Decides A _ w fun id ↦
    id = repoId ∧ w.db.CanRead session.userId repoId)).congr fun id ↦ ?_
  · refine (repoIsPublic_returns repoId).wp_bind ?_
    cases hpublic : w.db.isPublic? repoId with
    | none => exact decides_error _ fun id ↦ by simp [Database.CanRead, hpublic]
    | some isPublic =>
      cases isPublic with
      | true =>
        refine (decides_ok repoId).congr fun id ↦ ?_
        simp [Database.CanRead, hpublic]
      | false =>
        refine ((authenticateUser_decides session).andThen fun s hs ↦
          (checkRepoRole_decides h repoId (userIdOf s) .kReader).andThen fun _ _ ↦
            decides_ok repoId).congr fun id ↦ ?_
        simp [Database.CanRead, hpublic, and_comm]
  constructor
  · rintro ⟨repoId, hname, rfl, hread⟩
    exact ⟨hname, hread⟩
  · rintro ⟨hname, hread⟩
    exact ⟨id, hname, rfl, hread⟩

end Service

end Rules

/-! ## How many operations the macros take -/

section Counting

variable {w : World} {β : Type}

theorem fetch_returnsIn {q : Query β} (hpick : ∀ pick, q.rows pick w.db = q.rows 0 w.db) :
    (fetch q).ReturnsIn w 1 (q.rows 0 w.db).head? :=
  (returnsIn_issue fun e ↦ congrArg (·, w) (hpick e.pick)).bind_done (returnsIn_done _)

/-- What a `SET_*_ID` macro has to look up. -/
def lookups (id? : Option ℤ) : ℕ := if id?.isSome then 0 else 1

namespace Service

variable {ρ : Type}

theorem setId_returnsIn {id? : Option ℤ} {name? : Option Bytes} {getId : Bytes → Query ℤ}
    {unspecified notFound : Outcome ρ}
    (hpick : ∀ name pick, (getId name).rows pick w.db = (getId name).rows 0 w.db) :
    (∃ id, w.db.Names id? name? getId id ∧
        (setId id? name? (fun name ↦ fetch (getId name)) unspecified notFound).ReturnsIn w
          (lookups id?) (.ok id)) ∨
      (∀ id, ¬ w.db.Names id? name? getId id) ∧ ∃ n, ∃ x ∈ [unspecified, notFound],
        (setId id? name? (fun name ↦ fetch (getId name)) unspecified notFound).ReturnsIn w n
          (.error x) := by
  match id?, name? with
  | some id, name? => exact Or.inl ⟨id, Or.inl rfl, returnsIn_done _⟩
  | none, none =>
    refine Or.inr ⟨?_, 0, unspecified, List.mem_cons_self, returnsIn_done _⟩
    simp [Database.Names]
  | none, some name =>
    have hfetch : (fetch (getId name)).ReturnsIn w 1 _ := fetch_returnsIn (hpick name)
    cases hrow : ((getId name).rows 0 w.db).head? with
    | none =>
      refine Or.inr ⟨?_, 1, notFound, by simp, hfetch.bind_done ?_⟩
      · simp [Database.Names, hrow]
      · rw [hrow]
        exact returnsIn_done _
    | some id =>
      refine Or.inl ⟨id, Or.inr ⟨rfl, name, rfl, hrow⟩, hfetch.bind_done ?_⟩
      rw [hrow]
      exact returnsIn_done _

variable [Pb.HasStatus ρ]

theorem setRepoId_returnsIn (msg : Pb.RepoRef) :
    (∃ id, w.db.NamesRepo msg id ∧
        (setRepoId msg : Server (Check ρ ℤ)).ReturnsIn w (lookups msg.repoId) (.ok id)) ∨
      (∀ id, ¬ w.db.NamesRepo msg id) ∧ ∃ n status text, status ≠ .kSucceed ∧
        (setRepoId msg : Server (Check ρ ℤ)).ReturnsIn w n (.error (reply status text)) := by
  refine (setId_returnsIn fun _ _ ↦ rfl).imp_right fun ⟨hnone, n, x, hx, hset⟩ ↦ ⟨hnone, n, ?_⟩
  rcases List.mem_pair.mp hx with rfl | rfl
  · exact ⟨_, _, by decide, hset⟩
  · exact ⟨_, _, by decide, hset⟩

theorem checkRepoRole_returnsIn (h : w.db.Valid) (repoId userId : ℤ) (roleId : Pb.Role) :
    (checkRepoRole repoId userId roleId : Server (Check ρ Unit)).ReturnsIn w 1
      (if w.db.reportedRole repoId userId < roleId then
        .error (reply .kInsufficientRight (text "insufficient rights"))
      else .ok ()) := by
  have hrole : (Db.repoGetUserRole repoId userId).ReturnsIn w 1
      (true, w.db.reportedRole repoId userId) := by
    rw [← h.maxRole_userRoleRows]
    exact (returnsIn_issue fun _ ↦ exec_query _ _ _).bind_done (returnsIn_done _)
  refine hrole.bind_done ?_
  simp only [Bool.not_true, Bool.false_eq_true, if_false]
  split_ifs
  exacts [returnsIn_done _, returnsIn_done _]

end Service

end Counting

/-! ## The gate of an owner -/

namespace Database

variable {db : Database}

/-- The request names a repository that the user owns. -/
def OwnsNamed (db : Database) (userId : ℤ) (msg : Pb.RepoRef) (repoId : ℤ) : Prop :=
  db.NamesRepo msg repoId ∧ .kOwner ≤ db.reportedRole repoId userId

theorem namesRepo_unique {msg : Pb.RepoRef} {i j : ℤ} (hi : db.NamesRepo msg i)
    (hj : db.NamesRepo msg j) : i = j := by
  rcases hi with hi | ⟨hid, name, hname, hi⟩
  · rcases hj with hj | ⟨hid, -⟩
    · exact Option.some_inj.mp (hi.symm.trans hj)
    · rw [hid] at hi
      cases hi
  · rcases hj with hj | ⟨-, name', hname', hj⟩
    · rw [hid] at hj
      cases hj
    · obtain rfl := Option.some_inj.mp (hname.symm.trans hname')
      exact Option.some_inj.mp (hi.symm.trans hj)

theorem Valid.mem_ids_of_kOwner_le (h : db.Valid) {repoId userId : ℤ}
    (howner : .kOwner ≤ db.reportedRole repoId userId) : repoId ∈ db.repos.ids := by
  by_contra hrepo
  rw [h.reportedRole_of_notMem_repos hrepo] at howner
  exact absurd howner (by decide)

end Database

/-- **What every handler for owners starts with.** It goes on with the repository, after its
lookups and one question for the role; or it fails, and nothing has changed. -/
theorem Service.ownerGate_run {w : World} {ρ : Type} [Pb.HasStatus ρ] (h : w.db.Valid)
    (userId : ℤ) (msg : Pb.RepoRef) (k : ℤ → Server (Outcome ρ)) (env : ℕ → Env) :
    (∃ repoId, w.db.OwnsNamed userId msg repoId ∧
        ((setRepoId msg).orReturn fun repoId ↦
          (checkRepoRole repoId userId .kOwner).orReturn fun _ ↦ k repoId).run env w =
        (k repoId).run (fun n ↦ env (n + (lookups msg.repoId + 1))) w) ∨
      (∀ repoId, ¬ w.db.OwnsNamed userId msg repoId) ∧ ∃ status text, status ≠ .kSucceed ∧
        ((setRepoId msg).orReturn fun repoId ↦
          (checkRepoRole repoId userId .kOwner).orReturn fun _ ↦ k repoId).run env w =
        (reply status text, w) := by
  rcases setRepoId_returnsIn (w := w) (ρ := ρ) msg with
    ⟨repoId, hname, hset⟩ | ⟨hnone, n, status, msg', hstatus, hset⟩
  · rw [hset.run_orReturn_ok]
    have hcheck := checkRepoRole_returnsIn (ρ := ρ) h repoId userId .kOwner
    split_ifs at hcheck with hrole
    · refine Or.inr ⟨fun repoId' howns ↦ ?_, _, _, ?_, hcheck.run_orReturn_error _ _⟩
      · obtain rfl := Database.namesRepo_unique hname howns.1
        exact absurd howns.2 (not_le.mpr hrole)
      · decide
    · refine Or.inl ⟨repoId, ⟨hname, not_lt.mp hrole⟩, ?_⟩
      have hshift (n : ℕ) : n + 1 + lookups msg.repoId = n + (lookups msg.repoId + 1) := by omega
      rw [hcheck.run_orReturn_ok]
      simp only [hshift]
  · refine Or.inr ⟨fun repoId howns ↦ hnone repoId howns.1, status, msg', hstatus, ?_⟩
    rw [hset.run_orReturn_error]

end Scissy
