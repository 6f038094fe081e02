import Scissy.Security.Deed

/-!
# Whose doing it was

What is different after the second part of a run, and which deed of the second part made the
difference: of whom, admitted to what, and for which call.

## Additions and losses

Everything that comes, comes from one statement, and the rules say which calls may execute it: a key
from its owner (`sshKeys_attributed`), a token from a login (`tokens_attributed`), a right from an
owner or from a creation (`links_attributed`). What goes has more ways to go. A membership is
removed, or it falls with its group; a role on a repository is removed, or falls with the group it
was given to or with the repository. So what is said of a loss is what was deleted and who was
admitted there (`Undone`), not by which call.

## Rows, names and roles

Keys, tokens, groups and repositories are rows, and a row that is changed is lost: `repoUpdate`
puts another one in its place. Memberships and roles are links of the graph. The role that is
reported for a user on a repository is neither, but it cannot grow without a link that is new, so a
stronger role is traced back to the gift of a link (`roles_attributed`). It may become weaker in
many ways, and nothing is said of that.

## Failed creations

`groupCreate` and `repoCreate` delete again what they have inserted when they cannot go on, and for
that nobody has to be an owner. The group is deleted by the number that the call has read, the
repository by its name.
-/

open Authority Interaction Interaction.Prog

namespace Scissy

/-- Every link and every token of the first database is in the second one. -/
structure Database.Below (db db' : Database) : Prop where
  groupsUsers : ∀ row ∈ db.groupsUsers.rows, row ∈ db'.groupsUsers.rows
  reposUsers : ∀ row ∈ db.reposUsers.rows, row ∈ db'.reposUsers.rows
  reposGroups : ∀ row ∈ db.reposGroups.rows, row ∈ db'.reposGroups.rows
  usersAuths : ∀ row ∈ db.usersAuths.rows, row ∈ db'.usersAuths.rows

instance (db db' : Database) : Decidable (db.Below db') :=
  decidable_of_iff ((∀ row ∈ db.groupsUsers.rows, row ∈ db'.groupsUsers.rows) ∧
    (∀ row ∈ db.reposUsers.rows, row ∈ db'.reposUsers.rows) ∧
    (∀ row ∈ db.reposGroups.rows, row ∈ db'.reposGroups.rows) ∧
    ∀ row ∈ db.usersAuths.rows, row ∈ db'.usersAuths.rows)
    ⟨fun h ↦ ⟨h.1, h.2.1, h.2.2.1, h.2.2.2⟩,
      fun h ↦ ⟨h.groupsUsers, h.reposUsers, h.reposGroups, h.usersAuths⟩⟩

theorem Database.Below.links {db db' : Database} (h : db.Below db') {l : Link Table ℤ ℤ}
    (hl : l ∈ db.graph.links) : l ∈ db'.graph.links := by
  obtain ⟨kind, left, right, role⟩ := l
  cases kind with
  | groupsUsers => exact h.groupsUsers _ hl
  | reposUsers => exact h.reposUsers _ hl
  | reposGroups => exact h.reposGroups _ hl
  | _ => exact hl.elim

section Run

variable {d : Deployment} {jobs : ℕ → Job} {w : World} {s s₁ s₂ : List (ℕ × Env)} {k : ℕ}

/-! ## Keys -/

theorem Job.asked_insertUserSshKey {job : Job} {past : Past} {userId keyType : ℤ}
    {key desc : Bytes}
    (h : job.Authorized d past (.write (.insertUserSshKey userId keyType key desc))) :
    ∃ request session add, job = .http request ∧ request.target = .api (.userAddSshKey add) ∧
      Identified past request session ∧ (userId, keyType, key, desc) =
        (session.userId, add.key.type.toInt, add.key.key, add.key.desc.getD []) := by
  rcases authorized_write h with ⟨rpc, -, hopen⟩ |
    ⟨request, session, rfl, hidentified, ⟨rpc, htarget, hpermitted⟩ | ⟨-, hlogout⟩⟩
  · cases rpc <;> exact hopen.elim
  · cases rpc with
    | userAddSshKey add => exact ⟨request, session, add, rfl, htarget, hidentified, hpermitted⟩
    | _ => exact hpermitted.elim
  · cases hlogout

theorem Job.asked_deleteUserSshKey {job : Job} {past : Past} {userId keyId : ℤ}
    (h : job.Authorized d past (.write (.deleteUserSshKey userId keyId))) :
    ∃ request session remove, job = .http request ∧
      request.target = .api (.userRemoveSshKey remove) ∧ Identified past request session ∧
      userId = session.userId ∧ keyId = remove.key.keyId.getD 0 := by
  rcases authorized_write h with ⟨rpc, -, hopen⟩ |
    ⟨request, session, rfl, hidentified, ⟨rpc, htarget, hpermitted⟩ | ⟨-, hlogout⟩⟩
  · cases rpc <;> exact hopen.elim
  · cases rpc with
    | userRemoveSshKey remove =>
      exact ⟨request, session, remove, rfl, htarget, hidentified, hpermitted⟩
    | _ => exact hpermitted.elim
  · cases hlogout

/-- **Whose keys.** In any interleaving of any number of jobs, a key comes to a user only when the
user asks for it, and it goes only when the user asks for that. -/
theorem sshKeys_attributed (hw : w.db.Valid) (row : ℤ × UserSshKey) :
    (row ∉ (worldAfter d jobs w s₁).db.usersSshKeys.rows →
      row ∈ (worldAfter d jobs w (s₁ ++ s₂)).db.usersSshKeys.rows →
      ∃ add, ∃ deed : Deed d jobs w s₁ s₂ (.api (.userAddSshKey add))
          (.write (.insertUserSshKey row.2.userId row.2.keyType row.2.key row.2.desc)),
        deed.ByUser ∧ deed.Ends (row ∉ ·.db.usersSshKeys.rows) ∧
          (row.2.userId, row.2.keyType, row.2.key, row.2.desc) =
            (deed.session.userId, add.key.type.toInt, add.key.key, add.key.desc.getD [])) ∧
    (row ∈ (worldAfter d jobs w s₁).db.usersSshKeys.rows →
      row ∉ (worldAfter d jobs w (s₁ ++ s₂)).db.usersSshKeys.rows →
      ∃ remove, ∃ deed : Deed d jobs w s₁ s₂ (.api (.userRemoveSshKey remove))
          (.write (.deleteUserSshKey row.2.userId row.1)),
        deed.ByUser ∧ deed.Ends (row ∈ ·.db.usersSshKeys.rows) ∧
          row.2.userId = deed.session.userId ∧ row.1 = remove.key.keyId.getD 0) := by
  constructor
  · intro hout hin
    obtain ⟨k, mid, stmt, e, v, later, hs, hv, hP, hP', heffect, hallowed⟩ :=
      exists_write hw (P := fun db ↦ row ∉ db.usersSshKeys.rows) hout (not_not.mpr hin)
    obtain rfl := heffect.sshKey_inserted hP (not_not.mp hP')
    obtain ⟨request, session, add, hjob, htarget, hidentified, hcols⟩ :=
      Job.asked_insertUserSshKey hallowed
    have huser : row.2.userId = session.userId := (Prod.mk.inj hcols).1
    let deed : Deed d jobs w s₁ s₂ _ _ :=
      ⟨k, request, session, mid, e, v, later, hjob, htarget, hs, hidentified⟩
    refine ⟨add, deed, deed.byUser_of_pos hw ?_, ⟨hP, hP'⟩, hcols⟩
    exact huser ▸ Relational.AutoTable.pos_of_mem_ids heffect.1
  · intro hin hout
    obtain ⟨k, mid, stmt, e, v, later, hs, hv, hP, hP', heffect, hallowed⟩ :=
      exists_write hw (P := fun db ↦ row ∈ db.usersSshKeys.rows) hin hout
    obtain rfl := heffect.sshKey_deleted hP hP'
    obtain ⟨request, session, remove, hjob, htarget, hidentified, huser, hid⟩ :=
      Job.asked_deleteUserSshKey hallowed
    let deed : Deed d jobs w s₁ s₂ _ _ :=
      ⟨k, request, session, mid, e, v, later, hjob, htarget, hs, hidentified⟩
    refine ⟨remove, deed, deed.byUser_of_pos hw ?_, ⟨hP, hP'⟩, huser, hid⟩
    exact huser ▸ Relational.AutoTable.pos_of_mem_ids (hv.usersSshKeys_user row hP)

theorem sshKeys_attributed_addsKey :
    ∃ add, ∃ deed : Deed .plain (Job.first [.addsKey]) .twoSessions [] (List.replicate 6 (0, {}))
        (.api (.userAddSshKey add)) (.write (.insertUserSshKey 1 0 (text "AAAA") [])),
      deed.ByUser ∧ deed.Ends ((1, ⟨1, 0, text "AAAA", [], 0⟩) ∉ ·.db.usersSshKeys.rows) ∧
        (1, 0, text "AAAA", []) =
          (deed.session.userId, add.key.type.toInt, add.key.key, add.key.desc.getD []) :=
  (sshKeys_attributed Database.valid_twoSessions (1, ⟨1, 0, text "AAAA", [], 0⟩)).1
    (by decide +kernel) (by decide +kernel)

/-! ## Tokens -/

theorem Job.asked_insertUserAuth {job : Job} {past : Past} {userId tsStart : ℤ} {token : Bytes}
    (h : job.Authorized d past (.write (.insertUserAuth userId token tsStart))) :
    ∃ request, job.rpc? = some (.userAuth request) ∧ past.Accepted d request ∧ ∃ id drawn,
      past.Got (.gnutlsRnd 32) (some drawn) ∧
      past.Saw (fun w ↦ ∃ user, (id, user) ∈ w.db.users.rows ∧ user.login = request.user) ∧
      (userId, token) = (Service.castInt id, d.base16Encode drawn) := by
  rcases authorized_write h with ⟨rpc, hrpc, hopen⟩ |
    ⟨request, session, rfl, -, ⟨rpc, -, hpermitted⟩ | ⟨-, hlogout⟩⟩
  · cases rpc with
    | userAuth request => exact ⟨request, hrpc, hopen⟩
    | _ => exact hopen.elim
  · cases rpc <;> exact hpermitted.elim
  · cases hlogout

theorem Job.asked_deleteUserAuth {job : Job} {past : Past} {userId : ℤ} {token : Bytes}
    (h : job.Authorized d past (.write (.deleteUserAuth userId token))) :
    ∃ request session, job = .http request ∧ request.target = .logout ∧
      Identified past request session ∧ (userId, token) = (session.userId, session.token) := by
  rcases authorized_write h with ⟨rpc, -, hopen⟩ |
    ⟨request, session, rfl, hidentified, ⟨rpc, -, hpermitted⟩ | ⟨htarget, hlogout⟩⟩
  · cases rpc <;> exact hopen.elim
  · cases rpc <;> exact hpermitted.elim
  · obtain ⟨rfl, rfl⟩ := Write.deleteUserAuth.inj hlogout
    exact ⟨request, session, rfl, htarget, hidentified, rfl⟩

/-- A logout of its user has deleted the token. -/
def LoggedOut (d : Deployment) (jobs : ℕ → Job) (w : World) (s₁ s₂ : List (ℕ × Env))
    (row : UserAuth) : Prop :=
  ∃ deed : Deed d jobs w s₁ s₂ .logout (.write (.deleteUserAuth row.userId row.token)),
    deed.ByUser ∧ deed.Ends (row ∈ ·.db.usersAuths.rows) ∧
      (row.userId, row.token) = (deed.session.userId, deed.session.token)

theorem loggedOut_of_lost (hw : w.db.Valid) {row : UserAuth}
    (hin : row ∈ (worldAfter d jobs w s₁).db.usersAuths.rows)
    (hout : row ∉ (worldAfter d jobs w (s₁ ++ s₂)).db.usersAuths.rows) :
    LoggedOut d jobs w s₁ s₂ row := by
  obtain ⟨k, mid, stmt, e, v, later, hs, hv, hP, hP', heffect, hallowed⟩ :=
    exists_write hw (P := fun db ↦ row ∈ db.usersAuths.rows) hin hout
  obtain rfl := heffect.token_deleted hP hP'
  obtain ⟨request, session, hjob, htarget, hidentified, hcols⟩ := Job.asked_deleteUserAuth hallowed
  have huser : row.userId = session.userId := (Prod.mk.inj hcols).1
  let deed : Deed d jobs w s₁ s₂ _ _ :=
    ⟨k, request, session, mid, e, v, later, hjob, htarget, hs, hidentified⟩
  refine ⟨deed, deed.byUser_of_pos hw ?_, ⟨hP, hP'⟩, hcols⟩
  exact huser ▸ Relational.AutoTable.pos_of_mem_ids (hv.usersAuths_user row hP)

/-- A login that the authenticator accepted, for the account of this number, and with the bytes that
were drawn for the token. -/
def LoggedIn (d : Deployment) (jobs : ℕ → Job) (w : World) (s : List (ℕ × Env))
    (login : Pb.UserAuth) (id : ℤ) (token : Bytes) : Prop :=
  ∃ k drawn, (jobs k).rpc? = some (.userAuth login) ∧
    Past.Accepted ((System.serving d jobs w).events k s) d login ∧
    Past.Got ((System.serving d jobs w).events k s) (.gnutlsRnd 32) (some drawn) ∧
    Past.Saw ((System.serving d jobs w).events k s) (fun v ↦
      ∃ user, (id, user) ∈ v.db.users.rows ∧ user.login = login.user) ∧
    token = d.base16Encode drawn

theorem loggedIn_of_new (s₁ s₂ : List (ℕ × Env)) (hw : w.db.Valid) {row : UserAuth}
    (hout : row ∉ (worldAfter d jobs w s₁).db.usersAuths.rows)
    (hin : row ∈ (worldAfter d jobs w (s₁ ++ s₂)).db.usersAuths.rows) :
    ∃ login id, LoggedIn d jobs w (s₁ ++ s₂) login id row.token ∧
      row.userId = Service.castInt id := by
  obtain ⟨k, mid, stmt, e, v, later, hs, hv, hP, hP', heffect, hallowed⟩ :=
    exists_write hw (P := fun db ↦ row ∉ db.usersAuths.rows) hout (not_not.mpr hin)
  obtain rfl := heffect.token_inserted hP (not_not.mp hP')
  obtain ⟨login, hrpc, haccepted, id, drawn, hdrew, hid, hcols⟩ :=
    Job.asked_insertUserAuth hallowed
  obtain ⟨huser, htoken⟩ := Prod.mk.inj hcols
  have hsub : pastOf d jobs w s₁ k ++ mid ⊆ pastOf d jobs w (s₁ ++ s₂) k := by
    rw [pastOf, pastOf, Pool.events_append, hs, ← List.append_assoc]
    exact List.subset_append_left _ _
  exact ⟨login, id, ⟨k, drawn, hrpc, haccepted.mono hsub, hdrew.mono hsub, hid.mono hsub, htoken⟩,
    huser⟩

theorem not_loggedOut {row : UserAuth} (hs : s = s₁ ++ s₂) (h : ∀ k, ∀ event ∈ pastOf d jobs w s k,
    row ∈ event.before.db.usersAuths.rows → row ∈ event.after.db.usersAuths.rows) :
    ¬ LoggedOut d jobs w s₁ s₂ row := by
  rintro ⟨deed, -, hends, -⟩
  exact deed.not_ends hs h hends

/-- **Whose tokens.** In any interleaving of any number of jobs, a token comes only from a login
that the authenticator accepted, for the account of that login as far as its number survives the
cast to `int`, and with the bytes that were drawn; and it goes only with a logout that carries
it. -/
theorem tokens_attributed (hw : w.db.Valid) (row : UserAuth) :
    (row ∉ (worldAfter d jobs w s₁).db.usersAuths.rows →
      row ∈ (worldAfter d jobs w (s₁ ++ s₂)).db.usersAuths.rows →
      ∃ login id, LoggedIn d jobs w (s₁ ++ s₂) login id row.token ∧
        row.userId = Service.castInt id) ∧
    (row ∈ (worldAfter d jobs w s₁).db.usersAuths.rows →
      row ∉ (worldAfter d jobs w (s₁ ++ s₂)).db.usersAuths.rows → LoggedOut d jobs w s₁ s₂ row) :=
  ⟨loggedIn_of_new s₁ s₂ hw, loggedOut_of_lost hw⟩

/-- The first user logs out. -/
def HttpRequest.logsOut : HttpRequest where
  cookies := { user := some (text "u"), token := some (text "t") }
  target := .logout

theorem tokens_attributed_logsOut :
    LoggedOut .plain (Job.first [.logsOut]) .twoSessions [] (List.replicate 2 (0, {}))
      ⟨1, text "t", 0⟩ :=
  (tokens_attributed Database.valid_twoSessions ⟨1, text "t", 0⟩).2
    (by decide +kernel) (by decide +kernel)

/-! ## Rights -/

/-- The owners of a link: those of its group, or of its repository. -/
def linkOwners (l : Link Table ℤ ℤ) : Gate :=
  match l.kind with
  | .groupsUsers => .group l.left
  | _ => .repo l.left

/-- The call creates what the link makes its caller the owner of. -/
def OwnsCreation (past : Past) (session : Session) (rpc : Rpc) (l : Link Table ℤ ℤ) : Prop :=
  (l.right, l.role) = (session.userId, Pb.Role.kOwner.toInt) ∧
    ((∃ create, rpc = .groupCreate create ∧ l.kind = .groupsUsers ∧
        past.CreatedGroup create l.left) ∨
      ∃ create, rpc = .repoCreate create ∧ l.kind = .reposUsers ∧ past.CreatedRepo create l.left)

theorem Job.asked_add {job : Job} {past : Past} {stmt : Write} {l : Link Table ℤ ℤ}
    (hstmt : stmt.change = some (.add l)) (h : job.Authorized d past (.write stmt)) :
    ∃ request session rpc, job = .http request ∧ request.target = .api rpc ∧
      Identified past request session ∧ stmt.Permitted session past rpc ∧
      (past.Knew (fun db ↦ (linkOwners l).Admits session db) ∨
        OwnsCreation past session rpc l) := by
  rcases authorized_write h with ⟨rpc, -, hopen⟩ |
    ⟨request, session, rfl, hidentified, ⟨rpc, htarget, hpermitted⟩ | ⟨-, rfl⟩⟩
  · cases stmt <;> first | (cases hstmt; done) | (cases rpc <;> exact hopen.elim)
  · refine ⟨request, session, rpc, rfl, htarget, hidentified, hpermitted, ?_⟩
    cases stmt with
    | insertGroupUser groupId userId roleId =>
      obtain rfl := Change.add.inj (Option.some_inj.mp hstmt)
      cases rpc with
      | groupCreate create =>
        exact Or.inr ⟨hpermitted.2, Or.inl ⟨create, rfl, rfl, hpermitted.1⟩⟩
      | groupAddUser add => exact Or.inl hpermitted.1.2
      | _ => exact hpermitted.elim
    | insertRepoUser repoId userId roleId =>
      obtain rfl := Change.add.inj (Option.some_inj.mp hstmt)
      cases rpc with
      | repoCreate create =>
        exact Or.inr ⟨hpermitted.2, Or.inr ⟨create, rfl, rfl, hpermitted.1⟩⟩
      | repoAddUser add => exact Or.inl hpermitted.1.2.knew
      | _ => exact hpermitted.elim
    | insertRepoGroup repoId groupId roleId =>
      obtain rfl := Change.add.inj (Option.some_inj.mp hstmt)
      cases rpc with
      | repoAddGroup add => exact Or.inl hpermitted.1.2.knew
      | _ => exact hpermitted.elim
    | _ => cases hstmt
  · cases hstmt

theorem OwnsCreation.pos {past : Past} {session : Session} {rpc : Rpc} {l : Link Table ℤ ℤ}
    (h : OwnsCreation past session rpc l) {db : Database} (hdb : db.Valid)
    (hl : l ∈ db.graph.links) : 0 < session.userId := by
  obtain ⟨kind, left, right, role⟩ := l
  obtain ⟨hcols, hkind⟩ := h
  rw [← (Prod.mk.inj hcols).1]
  rcases hkind with ⟨create, -, rfl, -⟩ | ⟨create, -, rfl, -⟩
  · exact Relational.AutoTable.pos_of_mem_ids (hdb.groupsUsers_user _ hl)
  · exact Relational.AutoTable.pos_of_mem_ids (hdb.reposUsers_user _ hl)

/-- What the statement takes something from, by number. -/
def Write.takesFrom : Write → Option Gate
  | deleteGroup groupId | deleteGroupUser groupId _ => some (.group groupId)
  | deleteRepo repoId | updateRepo _ _ _ repoId | deleteRepoUser repoId _
  | deleteRepoGroup repoId _ => some (.repo repoId)
  | _ => none

theorem takesFrom_of_change_remove {stmt : Write} {l : Link Table ℤ ℤ}
    (h : stmt.change = some (.remove l.key)) : stmt.takesFrom = some (linkOwners l) := by
  obtain ⟨kind, left, right, role⟩ := l
  cases stmt with
  | deleteGroupUser | deleteRepoUser | deleteRepoGroup =>
    obtain ⟨rfl, rfl, rfl⟩ : _ ∧ _ ∧ _ := by simpa [Write.change, Link.key] using h
    rfl
  | _ => cases h

/-- A creation that has failed takes back the group of this number. -/
def TakesBackGroup (past : Past) (rpc : Rpc) (groupId : ℤ) : Prop :=
  ∃ create, rpc = .groupCreate create ∧ past.CreatedGroup create groupId

/-- A creation that has failed takes back the repository of the name it asked for. -/
def TakesBackRepo (past : Past) (rpc : Rpc) (name : Bytes) : Prop :=
  ∃ create, rpc = .repoCreate create ∧ past.InsertedRepo create ∧ name = create.name

theorem Job.asked_take {job : Job} {past : Past} {stmt : Write} {gate : Gate}
    (hstmt : stmt.takesFrom = some gate) (h : job.Authorized d past (.write stmt)) :
    ∃ request session rpc, job = .http request ∧ request.target = .api rpc ∧
      Identified past request session ∧ stmt.Permitted session past rpc ∧
      (past.Knew (fun db ↦ gate.Admits session db) ∨
        ∃ groupId, stmt = .deleteGroup groupId ∧ TakesBackGroup past rpc groupId) := by
  rcases authorized_write h with ⟨rpc, -, hopen⟩ |
    ⟨request, session, rfl, hidentified, ⟨rpc, htarget, hpermitted⟩ | ⟨-, rfl⟩⟩
  · cases stmt <;> first | (cases hstmt; done) | (cases rpc <;> exact hopen.elim)
  · refine ⟨request, session, rpc, rfl, htarget, hidentified, hpermitted, ?_⟩
    cases stmt with
    | deleteGroup groupId =>
      obtain rfl := Option.some_inj.mp hstmt
      cases rpc with
      | groupCreate create => exact Or.inr ⟨groupId, rfl, create, rfl, hpermitted⟩
      | groupDelete delete => exact Or.inl hpermitted.2
      | _ => exact hpermitted.elim
    | deleteGroupUser groupId userId =>
      obtain rfl := Option.some_inj.mp hstmt
      cases rpc with
      | groupRemoveUser remove => exact Or.inl hpermitted.1.2
      | _ => exact hpermitted.elim
    | deleteRepo repoId =>
      obtain rfl := Option.some_inj.mp hstmt
      cases rpc with
      | repoDelete delete => exact Or.inl hpermitted.2.knew
      | _ => exact hpermitted.elim
    | updateRepo | deleteRepoUser | deleteRepoGroup =>
      obtain rfl := Option.some_inj.mp hstmt
      cases rpc <;> first | exact hpermitted.elim | exact Or.inl hpermitted.1.2.knew
    | _ => cases hstmt
  · cases hstmt

theorem Job.asked_deleteRepoByName {job : Job} {past : Past} {name : Bytes}
    (h : job.Authorized d past (.write (.deleteRepoByName name))) :
    ∃ request session rpc, job = .http request ∧ request.target = .api rpc ∧
      Identified past request session ∧
      Write.Permitted session past rpc (.deleteRepoByName name) ∧ TakesBackRepo past rpc name := by
  rcases authorized_write h with ⟨rpc, -, hopen⟩ |
    ⟨request, session, rfl, hidentified, ⟨rpc, htarget, hpermitted⟩ | ⟨-, hlogout⟩⟩
  · cases rpc <;> exact hopen.elim
  · refine ⟨request, session, rpc, rfl, htarget, hidentified, hpermitted, ?_⟩
    cases rpc with
    | repoCreate create => exact ⟨create, rfl, hpermitted⟩
    | _ => exact hpermitted.elim
  · cases hlogout

/-- A creation that has failed takes back the group or the repository of this number. -/
def Gate.TakenBack (past : Past) (rpc : Rpc) (db : Database) : Gate → Prop
  | group groupId => TakesBackGroup past rpc groupId
  | repo repoId => ∃ repo, (repoId, repo) ∈ db.repos.rows ∧ TakesBackRepo past rpc repo.name

/-- Somebody has made an end of something: a user who was admitted to the group or the repository as
an owner, or a creation that had failed and took back what it had inserted. -/
def Undone (d : Deployment) (jobs : ℕ → Job) (w : World) (s₁ s₂ : List (ℕ × Env)) (gate : Gate)
    (P : Database → Prop) : Prop :=
  ∃ rpc stmt, ∃ deed : Deed d jobs w s₁ s₂ (.api rpc) (.write stmt),
    deed.Ends (fun v ↦ P v.db) ∧ stmt.Permitted deed.session deed.past rpc ∧
      (deed.ByOwner gate ∨ gate.TakenBack deed.past rpc deed.world.db)

theorem Undone.append {gate : Gate} {P : Database → Prop} (h : Undone d jobs w s₁ s₂ gate P)
    (s : List (ℕ × Env)) : Undone d jobs w s₁ (s₂ ++ s) gate P := by
  obtain ⟨rpc, stmt, deed, hends, hpermitted, hcause⟩ := h
  exact ⟨rpc, stmt, deed.append s, hends, hpermitted, hcause⟩

theorem not_undone {gate : Gate} {P : Database → Prop} (hs : s = s₁ ++ s₂)
    (h : ∀ k, ∀ event ∈ pastOf d jobs w s k, P event.before.db → P event.after.db) :
    ¬ Undone d jobs w s₁ s₂ gate P := by
  rintro ⟨rpc, stmt, deed, hends, -⟩
  exact deed.not_ends hs h hends

section Loss

variable {P : Database → Prop} {mid later : Past} {e : Env} {v : World}

theorem undone_of_takesFrom (hw : w.db.Valid) {stmt : Write} {gate : Gate}
    (hs : ((System.serving d jobs w).run s₁).events k s₂ = mid ++ .of (.write stmt) e v :: later)
    (hP : P v.db) (hP' : ¬ P (v.write e stmt).2.db) (hstmt : stmt.takesFrom = some gate)
    (hallowed : (jobs k).Authorized d (pastOf d jobs w s₁ k ++ mid) (.write stmt)) :
    Undone d jobs w s₁ s₂ gate P := by
  obtain ⟨request, session, rpc, hjob, htarget, hidentified, hpermitted, hcause⟩ :=
    Job.asked_take hstmt hallowed
  let deed : Deed d jobs w s₁ s₂ _ _ :=
    ⟨k, request, session, mid, e, v, later, hjob, htarget, hs, hidentified⟩
  refine ⟨rpc, stmt, deed, ⟨hP, hP'⟩, hpermitted, hcause.imp (deed.byOwner hw) ?_⟩
  rintro ⟨groupId, rfl, hback⟩
  obtain rfl := Option.some_inj.mp hstmt
  exact hback

theorem undone_of_deleteRepoByName {repoId : ℤ} {repo : Repo}
    (hs : ((System.serving d jobs w).run s₁).events k s₂ =
      mid ++ .of (.write (.deleteRepoByName repo.name)) e v :: later)
    (hP : P v.db) (hP' : ¬ P (v.write e (.deleteRepoByName repo.name)).2.db)
    (hrepo : (repoId, repo) ∈ v.db.repos.rows)
    (hallowed : (jobs k).Authorized d (pastOf d jobs w s₁ k ++ mid)
      (.write (.deleteRepoByName repo.name))) : Undone d jobs w s₁ s₂ (.repo repoId) P := by
  obtain ⟨request, session, rpc, hjob, htarget, hidentified, hpermitted, hback⟩ :=
    Job.asked_deleteRepoByName hallowed
  exact ⟨rpc, _, ⟨k, request, session, mid, e, v, later, hjob, htarget, hs, hidentified⟩,
    ⟨hP, hP'⟩, hpermitted, Or.inr ⟨repo, hrepo, hback⟩⟩

end Loss

/-- What holds of the tables rests on the row of a group or a repository: it goes on holding as long
as the row is there. -/
def Gate.Supports (db : Database) (P : Database → Prop) : Gate → Prop
  | group groupId => ∃ grp, (groupId, grp) ∈ db.groups.rows ∧
    ∀ db' : Database, (groupId, grp) ∈ db'.groups.rows → P db'
  | repo repoId => ∃ repo, (repoId, repo) ∈ db.repos.rows ∧
    ∀ db' : Database, (repoId, repo) ∈ db'.repos.rows → P db'

/-- What rests on a row ends with a statement that deletes or changes the row. -/
theorem undone_of_lost (hw : w.db.Valid) {gate : Gate} {P : Database → Prop}
    (hsupports : ∀ db, P db → gate.Supports db P) (hin : P (worldAfter d jobs w s₁).db)
    (hout : ¬ P (worldAfter d jobs w (s₁ ++ s₂)).db) : Undone d jobs w s₁ s₂ gate P := by
  obtain ⟨k, mid, stmt, e, v, later, hs, hv, hP, hP', heffect, hallowed⟩ := exists_write hw hin hout
  have hsupport := hsupports v.db hP
  cases gate with
  | group groupId =>
    obtain ⟨grp, hrow, hkeeps⟩ := hsupport
    obtain rfl := heffect.group_deleted hrow fun hrow' ↦ hP' (hkeeps _ hrow')
    exact undone_of_takesFrom hw hs hP hP' rfl hallowed
  | repo repoId =>
    obtain ⟨repo, hrow, hkeeps⟩ := hsupport
    rcases heffect.repo_deleted hrow fun hrow' ↦ hP' (hkeeps _ hrow') with
      rfl | rfl | ⟨name, desc, isPublic, rfl⟩
    · exact undone_of_takesFrom hw hs hP hP' rfl hallowed
    · exact undone_of_deleteRepoByName hs hP hP' hrow hallowed
    · exact undone_of_takesFrom hw hs hP hP' rfl hallowed

end Run

end Scissy
