import Scissy.Access.Session

/-!
# Creating a repository among other requests

`Repositories::create` inserts the row, asks the connection for the number of the last row, and
makes the directory and the owner for that number. All threads use one connection, so the number
it gets is that of the last row *anybody* inserted, into any table.

What the request does is read off its own events: the repositories, the directories and the owners
it adds. They belong together exactly when the number it reads is still the one its own insert
left (`repoCreate_own_iff`); otherwise its caller becomes an owner of another repository.

## Rely and guarantee

The request is run among threads about which nothing is known but what they do while it is about to
read the number (`keepsRowid`): that is the relation the others are asked to respect, and only at
this point. At all other points they may do what they like, delete the new row included. The
conclusion is about the events of the request alone (`CreatesOwn`), so it does not matter what has
become of the repository by the end of the run.
-/

open Relational Interaction Interaction.Prog

namespace Scissy

open Repositories (getRepoPath)

/-! ## What a request has done -/

/-- The numbers of the repositories that its statements inserted. -/
def insertedRepos (events : List (Event Op World)) : List ℤ :=
  events.flatMap fun e ↦ e.after.db.repos.ids.filter (· ∉ e.before.db.repos.ids)

/-- The rows that its statements inserted into `repos_users`. -/
def insertedRepoUsers (events : List (Event Op World)) : List RepoUser :=
  events.flatMap fun e ↦ e.after.db.reposUsers.rows.filter (· ∉ e.before.db.reposUsers.rows)

/-- The directories it initialised. -/
def initialisedPaths (events : List (Event Op World)) : List Bytes :=
  events.filterMap fun
    | ⟨.gitRepositoryInit path, true, _, _⟩ => some path
    | _ => none

/-- The request created the repository it names, its directory, and its caller as the owner of
this repository and of no other. -/
def CreatesOwn (d : Deployment) (caller : Session) (events : List (Event Op World))
    (info : Pb.RepoInfo) : Prop :=
  ∃ repoId, info.id = some repoId ∧ insertedRepos events = [repoId] ∧
    initialisedPaths events = [getRepoPath d repoId] ∧
    insertedRepoUsers events = [⟨repoId, caller.userId, Pb.Role.kOwner.toInt⟩]

def Op.readsRowid : {β : Type} → Op β → Bool
  | _, lastInsertRowid => true
  | _, _ => false

/-- Whenever it reads the number of the last row, it is the one its previous statement left. -/
def RowidKept (events : List (Event Op World)) : Prop :=
  events.IsChain fun e e' ↦ e'.op.readsRowid = true →
    e'.before.lastInsertRowid = e.after.lastInsertRowid

/-- What the others may do while a request waits to read the number of the last row. -/
def keepsRowid {β : Type} (op : Op β) (w v : World) : Prop :=
  op.readsRowid = true → v.lastInsertRowid = w.lastInsertRowid

/-! ## One request -/

variable {rely : {β : Type} → Op β → World → World → Prop} {d : Deployment} {w : World}

theorem filter_notMem_append_singleton {α : Type} [DecidableEq α] {l : List α} {a : α}
    (h : a ∉ l) : (l ++ [a]).filter (· ∉ l) = [a] := by
  rw [List.filter_append, List.filter_eq_nil_iff.mpr fun b hb ↦ by simpa using hb]
  simp [h]

theorem filter_notMem_self {α : Type} [DecidableEq α] (l : List α) :
    l.filter (· ∉ l) = [] := by
  rw [List.filter_eq_nil_iff]
  exact fun b hb ↦ by simpa using hb

/-- What `Repositories::create` has done when it returns an id. -/
structure Created (d : Deployment) (userId repoId : ℤ) (events : List (Event Op World))
    (rely : {β : Type} → Op β → World → World → Prop) : Prop where
  paths : initialisedPaths events = [getRepoPath d repoId]
  repoUsers : insertedRepoUsers events = [⟨repoId, userId, Pb.Role.kOwner.toInt⟩]
  repos : ∃ own, insertedRepos events = [own] ∧ (RowidKept events ↔ own = repoId) ∧
    ∃ v u : World, v.lastInsertRowid = own ∧ u.lastInsertRowid = repoId ∧
      rely .lastInsertRowid v u

section Inserted

variable {e : Event Op World} {events : List (Event Op World)}

theorem insertedRepos_cons_of_same (h : e.after.db.repos = e.before.db.repos) :
    insertedRepos (e :: events) = insertedRepos events := by
  rw [insertedRepos, List.flatMap_cons, h, filter_notMem_self]
  rfl

theorem insertedRepoUsers_cons_of_same (h : e.after.db.reposUsers = e.before.db.reposUsers) :
    insertedRepoUsers (e :: events) = insertedRepoUsers events := by
  rw [insertedRepoUsers, List.flatMap_cons, h, filter_notMem_self]
  rfl

theorem insertedRepos_cons_insertRepo {now : ℤ} {name desc : Bytes} {isPublic : Bool}
    (h : (Write.insertRepo name desc isPublic).Effect now e.before.db e.after.db) :
    insertedRepos (e :: events) = (e.before.db.repos.seq + 1) :: insertedRepos events := by
  obtain ⟨-, t, ht, hdb⟩ := h
  have hids : e.after.db.repos.ids = e.before.db.repos.ids ++ [e.before.db.repos.seq + 1] := by
    rw [hdb, AutoTable.ids, (AutoTable.rows_of_insert ht).1, List.map_append]
    rfl
  rw [insertedRepos, List.flatMap_cons, hids,
    filter_notMem_append_singleton AutoTable.seq_succ_notMem_ids]
  rfl

theorem insertedRepoUsers_cons_insertRepoUser {now repoId userId roleId : ℤ}
    (h : (Write.insertRepoUser repoId userId roleId).Effect now e.before.db e.after.db) :
    insertedRepoUsers (e :: events) = ⟨repoId, userId, roleId⟩ :: insertedRepoUsers events := by
  obtain ⟨-, -, -, t, ht, hdb⟩ := h
  obtain ⟨hrows, hkey⟩ := KeyTable.rows_of_insert ht
  have husers : e.after.db.reposUsers.rows =
      e.before.db.reposUsers.rows ++ [⟨repoId, userId, roleId⟩] := by
    rw [hdb]
    exact hrows
  have hfresh : (⟨repoId, userId, roleId⟩ : RepoUser) ∉ e.before.db.reposUsers.rows :=
    fun hmem ↦ hkey (List.mem_map_of_mem hmem)
  rw [insertedRepoUsers, List.flatMap_cons, husers, filter_notMem_append_singleton hfresh]
  rfl

end Inserted

/-- A request that asks for nobody's last row keeps it. -/
theorem rowidKept_cons {e : Event Op World} {events : List (Event Op World)}
    (h : ∀ e ∈ events, e.op.readsRowid = false) : RowidKept (e :: events) := by
  induction events generalizing e with
  | nil => exact .singleton e
  | cons e' events ih =>
    rw [List.forall_mem_cons] at h
    refine .cons_cons (fun hreads ↦ ?_) (ih h.2)
    rw [h.1] at hreads
    cases hreads

theorem createDirectory_alongside (name : Bytes) (userId repoId : ℤ) :
    (Repositories.createDirectory d name userId repoId).Alongside rely
      (fun events created ↦ ∀ r, created = .ok r → r = repoId ∧
        initialisedPaths events = [getRepoPath d repoId] ∧
        insertedRepoUsers events = [⟨repoId, userId, Pb.Role.kOwner.toInt⟩] ∧
        insertedRepos events = [] ∧ ∀ e ∈ events, e.op.readsRowid = false) w := by
  intro v e _
  cases hinit : (Interp.exec (Op.gitRepositoryInit (getRepoPath d repoId)) e v).1 with
  | false => exact fun _ _ _ ↦ nofun
  | true =>
    intro u e' _
    rw [exec_write]
    rcases World.write_spec (.insertRepoUser repoId userId Pb.Role.kOwner.toInt) e' u with
      ⟨hdone, -, heffect, -⟩ | ⟨hfail, -⟩
    · rw [hdone]
      rintro r ⟨⟩
      have hgit := exec_gitRepositoryInit_db e v (getRepoPath d repoId)
      have hrepos := heffect.same (t := .repos) (by simp)
      refine ⟨rfl, rfl, ?_, ?_, ?_⟩
      · rw [insertedRepoUsers_cons_of_same, insertedRepoUsers_cons_insertRepoUser heffect]
        · rfl
        · exact congrArg Database.reposUsers hgit
      · rw [insertedRepos_cons_of_same, insertedRepos_cons_of_same]
        · rfl
        · exact hrepos
        · exact congrArg Database.repos hgit
      · rintro e (⟨_⟩ | ⟨_, ⟨_⟩ | ⟨_, h⟩⟩)
        · rfl
        · rfl
        · cases h
    · -- without its owner the repository is deleted again, and the call fails
      generalize (u.write e' (.insertRepoUser repoId userId Pb.Role.kOwner.toInt)).1 = rc at hfail ⊢
      cases rc with
      | done => exact absurd rfl hfail
      | constraint | error => exact fun _ _ _ ↦ nofun

/-- **One creation.** The directory and the owner are those of the id it returns; the repository
is the one of that id if the number of the last row was kept. -/
theorem create_alongside (name desc : Bytes) (isPublic : Bool) (userId : ℤ) :
    (Repositories.create d name desc isPublic userId).Alongside rely
      (fun events created ↦ ∀ repoId, created = .ok repoId →
        Created d userId repoId events rely) w := by
  intro v e _
  rw [exec_write]
  rcases World.write_spec (.insertRepo name desc isPublic) e v with
    ⟨hdone, -, heffect, hw⟩ | ⟨hfail, -⟩
  · rw [hdone]
    -- `u` is the world the others have made of it when the number is read
    intro u e' hu
    refine (createDirectory_alongside name userId u.lastInsertRowid).mono fun events created h ↦ ?_
    intro repoId hcreated
    obtain ⟨rfl, hpaths, husers, hrepos, hreads⟩ := h repoId hcreated
    have hrowid : (v.write e (.insertRepo name desc isPublic)).2.lastInsertRowid =
        v.db.repos.seq + 1 := by
      rw [hw]
      rfl
    refine ⟨hpaths, ?_, v.db.repos.seq + 1, ?_, ?_, _, u, hrowid, rfl, hu⟩
    · rw [insertedRepoUsers_cons_of_same, insertedRepoUsers_cons_of_same]
      · exact husers
      · rfl
      · exact heffect.same (t := .reposUsers) (by simp)
    · rw [insertedRepos_cons_insertRepo heffect, insertedRepos_cons_of_same rfl, hrepos]
    · refine (List.isChain_cons_cons.trans (and_iff_left (rowidKept_cons hreads))).trans ?_
      constructor
      · intro hkept
        exact hrowid.symm.trans (hkept rfl).symm
      · intro hown _
        exact hown.symm.trans hrowid.symm
  · generalize (v.write e (.insertRepo name desc isPublic)).1 = rc at hfail ⊢
    cases rc with
    | done => exact absurd rfl hfail
    | constraint | error => exact nofun

theorem repoCreate_alongside (caller : Session) (request : Pb.RepoCreate) :
    (HttpResponse.api <$> dispatch d (some caller) (.repoCreate request)).Alongside rely
      (fun events response ↦ ∀ info,
        response = .api { outcome := .returned true (.repoInfo info) } →
        info.status = some .kSucceed →
          ∃ repoId, info.id = some repoId ∧ Created d caller.userId repoId events rely) w := by
  rw [dispatch, answer, Service.repoCreate, Service.authenticateUser_orReturn,
    map_eq_pure_bind, LawfulMonad.bind_assoc, LawfulMonad.bind_assoc]
  refine alongside_bind ((create_alongside _ _ _ _).mono fun events created h v ↦ ?_)
  cases created with
  | error errmsg =>
    rintro info ⟨⟩ hstatus
    cases hstatus
  | ok repoId =>
    rintro info ⟨⟩ -
    rw [List.append_nil]
    exact ⟨repoId, rfl, h repoId rfl⟩

/-! ## Every interleaving -/

variable {c : System} {k : ℕ} {s : List (ℕ × Env)} {caller : Session} {request : Pb.RepoCreate}
  {info : Pb.RepoInfo}

/-- **A creation among any other requests.** A call that reports success has created its own
repository if no other thread changes the number of the last row while the call is about to read
it; and in any case exactly when the number was kept. -/
theorem repoCreate_own_iff
    (hk : c.threads k = .api <$> dispatch d (some caller) (.repoCreate request))
    (hdone : (c.run s).threads k = .done (.api { outcome := .returned true (.repoInfo info) }))
    (hsucceed : info.status = some .kSucceed) :
    (c.Undisturbed keepsRowid k s → CreatesOwn d caller (c.events k s) info) ∧
      (CreatesOwn d caller (c.events k s) info ↔ RowidKept (c.events k s)) := by
  have halongside (rely : {β : Type} → Op β → World → World → Prop)
      (hrefl : ∀ {β : Type} (op : Op β) w, rely op w w)
      (htrans : ∀ {β : Type} (op : Op β) {u v w}, rely op u v → rely op v w → rely op u w)
      (hs : c.Undisturbed rely k s) :
      ∃ repoId, info.id = some repoId ∧
        Created d caller.userId repoId (c.events k s) rely := by
    have h : (c.threads k).Alongside rely _ c.world := hk ▸ repoCreate_alongside caller request
    exact Pool.alongside_run hrefl htrans h hs hdone info rfl hsucceed
  constructor
  · intro hs
    obtain ⟨repoId, hid, hpaths, husers, own, hrepos, -, v, u, hv, hu, hkept⟩ :=
      halongside keepsRowid (fun _ _ _ ↦ rfl) (fun _ _ _ _ huv hvw hop ↦
        (hvw hop).trans (huv hop)) hs
    have hown : own = repoId := by rw [← hv, ← hu, hkept rfl]
    exact ⟨repoId, hid, hown ▸ hrepos, hpaths, husers⟩
  · obtain ⟨repoId, hid, hpaths, husers, own, hrepos, hkept, -⟩ :=
      halongside (fun _ _ _ ↦ True) (fun _ _ ↦ trivial) (fun _ _ _ _ _ _ ↦ trivial)
        (Pool.undisturbed_true k c s)
    rw [hkept]
    constructor
    · rintro ⟨repoId', hid', hrepos', -⟩
      have hown : own = repoId' := List.singleton_inj.mp (hrepos.symm.trans hrepos')
      exact hown.trans (Option.some_inj.mp (hid'.symm.trans hid))
    · intro hown
      exact ⟨repoId, hid, hown ▸ hrepos, hpaths, husers⟩

/-! ## Two requests -/

/-- One user creates a repository while another one, who owns the first, adds a key. -/
def createAndAddKey : System where
  threads
    | 0 => .api <$> dispatch .plain (some { user := text "v", userId := 2 })
        (.repoCreate { name := text "s", desc := [], isPublic := false })
    | 1 => serve .plain
        { cookies := { user := some (text "u"), token := some (text "t") }
          target := .api (.userAddSshKey { key := { type := .kSshKeyRsa, key := text "AAAA" } }) }
    | _ => .done (.logout [])
  world := { World.initial with
    db := Write.applyAll 0 .twoSessions
      [.insertRepo (text "r") [] false, .insertRepoUser 1 1 Pb.Role.kOwner.toInt] }

/-- What the creation answers when it gets `repoId`. -/
def createdInfo (repoId : ℤ) : Pb.RepoInfo where
  name := some (text "s")
  desc := some []
  id := some repoId
  isPublic := some false
  status := some .kSucceed

/-- The key is inserted after the number of the repository has been read. -/
theorem repoCreate_own_interleaved :
    let s : List (ℕ × Env) := [0, 1, 0, 1, 0, 0, 1, 1].map (·, {})
    CreatesOwn .plain { user := text "v", userId := 2 } (createAndAddKey.events 0 s)
      (createdInfo 2) := by
  intro s
  have hdone : (createAndAddKey.run s).threads 0 =
      .done (.api { outcome := .returned true (.repoInfo (createdInfo 2)) }) := rfl
  refine (repoCreate_own_iff rfl hdone rfl).1 ?_
  have hown (i : ℕ) {P : Prop} (h : i ≠ i) : P := absurd rfl h
  -- before the number is read the other thread only asks for its session
  refine ⟨hown 0, fun _ β op next _ _ ↦ rfl, hown 0, fun _ β op next hcall hreads ↦ ?_, hown 0,
    hown 0, fun _ β op next hcall ↦ ?_, fun _ β op next hcall ↦ ?_, trivial⟩
  · cases hcall
    cases hreads
  · cases hcall
  · cases hcall

/-- The number of the key is the number of somebody else's repository. -/
theorem not_createsOwn_between :
    let s : List (ℕ × Env) := [0, 1, 1, 0, 0, 0].map (·, {})
    (createAndAddKey.run s).threads 0 =
        .done (.api { outcome := .returned true (.repoInfo (createdInfo 1)) }) ∧
      ¬ CreatesOwn .plain { user := text "v", userId := 2 } (createAndAddKey.events 0 s)
        (createdInfo 1) ∧
      ⟨1, 2, Pb.Role.kOwner.toInt⟩ ∈ (createAndAddKey.run s).world.db.reposUsers.rows := by
  intro s
  have hinserted : insertedRepos (createAndAddKey.events 0 s) = [2] := by decide +kernel
  refine ⟨rfl, ?_, by decide +kernel⟩
  rintro ⟨repoId, hid, hrepos, -⟩
  have hone : 1 = repoId := Option.some_inj.mp hid
  rw [hinserted, ← hone] at hrepos
  cases hrepos

end Scissy
