import Scissy.Security.Hidden

/-!
# The database and the disk

A repository is a row of `repos` and a directory. `repoCreate` makes the row, the directory and the
owner, in this order, and takes the row back when the directory or the owner fails; `repoDelete`
deletes the row and then the directory.

`DiskAgrees` says that the rows and the directories are those of the same repositories. A call
keeps it, and is contained in what it may change, exactly when it is carried out
(`StorageCall.sound_iff`). It is not when the owner of a new repository cannot be set: the row is
taken back and the directory stays.

## Carried out

`CarriedOut` is a condition on the state before a call and on the faults that its statements meet,
and the theorem is about sequences of calls that all meet it. It does not ask that everything goes
well. A directory that cannot be made is fine, for then the row is taken back and there is nothing
to remove; a name that is used is fine, for then there is no row. What it excludes is a fault, or a
caller who is no user, right after a row has been inserted, and a fault of the deletion of a row.

## Directories and numbers

The name of a directory is the number of the repository in hexadecimal, so different repositories
have different directories, and as a name has no slash no directory lies below another one. Removing
one leaves the others alone (`under_getRepoPath_iff`).
-/

open Relational Interaction Interaction.Prog

namespace Scissy

open Repositories (getRepoPath)

/-! ## Directories -/

/-- A directory exists exactly for the repositories that have a row. -/
def DiskAgrees (d : Deployment) (w : World) : Prop :=
  ∀ i, 0 < i → i ≤ maxRowid → ((w.repositories (getRepoPath d i)).isSome ↔ i ∈ w.db.repos.ids)

theorem diskAgrees_initial (d : Deployment) : DiskAgrees d .initial :=
  fun _ _ _ ↦ iff_of_false Bool.false_ne_true List.not_mem_nil

/-- No directory lies below the directory of another repository. -/
theorem under_getRepoPath_iff (d : Deployment) {i j : ℤ} (hi : 0 < i ∧ i ≤ maxRowid)
    (hj : 0 < j ∧ j ≤ maxRowid) :
    World.under (getRepoPath d i) (getRepoPath d j) = true ↔ j = i := by
  rw [World.under, Bool.or_eq_true, decide_eq_true_eq, List.isPrefixOf_iff_prefix]
  constructor
  · rintro (heq | hprefix)
    · exact getRepoPath_injOn d hj hi heq
    · -- the name of a directory is a numeral, without a slash
      rw [getRepoPath, getRepoPath, List.append_assoc _ (Numeral.numeral _ _) _,
        List.prefix_append_right_inj] at hprefix
      have hslash : (47 : UInt8) ∈ Numeral.numeral 16 (j % 2 ^ 64).toNat :=
        hprefix.subset (List.mem_append_right _ List.mem_cons_self)
      have hdigit := Numeral.isDigit_of_mem_numeral (by decide) (by decide) hslash
      exact absurd hdigit (by decide)
  · rintro rfl
    exact Or.inl rfl

/-! ## Calls -/

/-- The two requests that make and remove directories. -/
inductive StorageRequest
  | create (request : Pb.RepoCreate)
  | delete (request : Pb.RepoDelete)

def StorageRequest.rpc : StorageRequest → Rpc
  | create request => .repoCreate request
  | delete request => .repoDelete request

structure StorageCall where
  session : Session
  request : StorageRequest
  env : ℕ → Env

/-- The worlds have the same repositories, the same owners and members, and the same directories. -/
structure World.SameStorage (w v : World) : Prop where
  repos : v.db.repos.rows = w.db.repos.rows
  reposUsers : v.db.reposUsers.rows = w.db.reposUsers.rows
  directories : ∀ path, (v.repositories path).isSome ↔ (w.repositories path).isSome

/-- All that changes on the disk lies in the directory of the repository the request names. -/
def World.RemovesOnly (d : Deployment) (msg : Pb.RepoRef) (w v : World) : Prop :=
  ∀ path, v.repositories path ≠ w.repositories path →
    ∃ repoId, w.db.NamesRepo msg repoId ∧ World.under (getRepoPath d repoId) path = true ∧
      ∀ i, 0 < i → i ≤ maxRowid → i ≠ repoId → path ≠ getRepoPath d i

/-- SQLite inserts the repository. -/
def Database.TakesRepo (db : Database) (request : Pb.RepoCreate) (fault : Option SqliteError) :
    Prop :=
  fault = none ∧ request.name ∉ db.repos.rows.map (·.2.name) ∧ db.repos.seq + 1 ≤ maxRowid

namespace StorageCall

variable (d : Deployment) (c : StorageCall) (w : World)

def serve : Reply × World := (dispatch d (some c.session) c.request.rpc).run c.env w

/-- A creation that is reported as failed changes nothing, and a deletion only what it names. -/
def Contained : Prop :=
  match c.request with
  | .create _ => (c.serve d w).1.outcome.status ≠ some .kSucceed → w.SameStorage (c.serve d w).2
  | .delete request => w.RemovesOnly d request.toRepoRef (c.serve d w).2

/-- After a row is inserted, the next statement is not hit by an error from outside, and is not
about a caller who is no user; and the deletion of a row is not hit by such an error. -/
def CarriedOut : Prop :=
  match c.request with
  | .create request => w.db.TakesRepo request (c.env 0).fault →
      (c.env 3).fault = none ∧ ((c.env 2).gitInitFails = true ∨ c.session.userId ∈ w.db.users.ids)
  | .delete request => ∀ repoId, w.db.OwnsNamed c.session.userId request.toRepoRef repoId →
      (c.env (lookups request.repoId + 1)).fault = none

end StorageCall

/-! ## The statements of a creation -/

section Statements

variable {w u : World} {request : Pb.RepoCreate}

/-- The world after the row is inserted, whatever has happened on the disk since. -/
structure World.Inserted (w : World) (request : Pb.RepoCreate) (u : World) : Prop where
  rows : u.db.repos.rows =
    w.db.repos.rows ++ [(w.db.repos.seq + 1, ⟨request.name, request.desc, request.isPublic⟩)]
  tables : ∀ t ≠ Table.repos, t.Same w.db u.db

theorem World.Inserted.mem_ids (h : w.Inserted request u) {i : ℤ} :
    i ∈ u.db.repos.ids ↔ i ∈ w.db.repos.ids ∨ i = w.db.repos.seq + 1 := by
  rw [AutoTable.ids, h.rows, List.map_append, List.mem_append, List.map_singleton,
    List.mem_singleton]
  rfl

theorem World.write_insertRepo (w : World) (request : Pb.RepoCreate) (e : Env) :
    let r := w.write e (.insertRepo request.name request.desc request.isPublic)
    w.db.TakesRepo request e.fault ∧ r.1 = .done ∧ w.Inserted request r.2 ∧
        r.2.lastInsertRowid = w.db.repos.seq + 1 ∧ r.2.repositories = w.repositories ∨
      ¬ w.db.TakesRepo request e.fault ∧ r.1 ≠ .done ∧ r.2 = w := by
  intro r
  rcases World.write_spec (.insertRepo request.name request.desc request.isPublic) e w with
    ⟨hdone, hfault, ⟨hname, t, ht, hdb⟩, hw⟩ | ⟨hcode, hw⟩
  · obtain ⟨hrows, hseq⟩ := AutoTable.rows_of_insert ht
    refine Or.inl ⟨⟨hfault, hname, hseq ▸ t.seq_le_bound⟩, hdone, ⟨?_, fun t' ht' ↦ ?_⟩, ?_, ?_⟩
    · rw [hdb]
      exact hrows
    · rw [hdb]
      cases t' with
      | repos => exact absurd rfl ht'
      | _ => rfl
    · rw [hw]
      rfl
    · rw [hw]
  · refine Or.inr ⟨?_, hcode, hw⟩
    rintro ⟨hfault, hname, hbound⟩
    apply hcode
    simp only [World.write, hfault, Write.apply, Write.insertInto, hname, not_false_eq_true,
      if_true, AutoTable.insert, hbound, dite_true]

theorem World.Inserted.write_deleteRepoByName (h : w.Inserted request u) (hw : w.db.Valid)
    (hname : request.name ∉ w.db.repos.rows.map (·.2.name)) (e : Env) :
    let v := (u.write e (.deleteRepoByName request.name)).2
    v.repositories = u.repositories ∧
      (e.fault = none ∧ v.db.repos.rows = w.db.repos.rows ∧
          v.db.reposUsers.rows = w.db.reposUsers.rows ∨
        e.fault ≠ none ∧ v = u) := by
  intro v
  by_cases hfault : e.fault = none
  · have hdb : v.db = u.db.deleteRepos fun r ↦ !decide (r.2.name = request.name) := by
      simp only [v, World.write, hfault, Write.apply]
    have hrows : v.db.repos.rows = w.db.repos.rows := by
      have hkept : ∀ r ∈ w.db.repos.rows, (!decide (r.2.name = request.name)) = true := by
        intro r hr
        rw [Bool.not_eq_true', decide_eq_false_iff_not]
        rintro heq
        exact hname (heq ▸ List.mem_map_of_mem hr)
      rw [hdb, Database.deleteRepos, AutoTable.filter_rows, h.rows, List.filter_append,
        List.filter_eq_self.mpr hkept]
      simp
    refine ⟨?_, Or.inl ⟨hfault, hrows, ?_⟩⟩
    · simp only [v, World.write, hfault]
    · -- every member is one of a repository that is left
      have hids : (u.db.repos.filter fun r ↦ !decide (r.2.name = request.name)).ids =
          w.db.repos.ids := by
        rw [AutoTable.ids, AutoTable.ids, ← hrows, hdb]
        rfl
      have husers : u.db.reposUsers = w.db.reposUsers := h.tables .reposUsers (by decide)
      rw [hdb, Database.deleteRepos, KeyTable.filter_rows, hids, husers]
      exact List.filter_eq_self.mpr fun r hr ↦ decide_eq_true (hw.reposUsers_repo r hr)
  · have hv : v = u := by
      obtain ⟨err, herr⟩ := Option.ne_none_iff_exists'.mp hfault
      simp only [v, World.write, herr]
    exact ⟨hv ▸ rfl, Or.inr ⟨hfault, hv⟩⟩

theorem World.Inserted.write_insertRepoUser (h : w.Inserted request u) (hw : w.db.Valid)
    (userId : ℤ) (e : Env) :
    let r := u.write e (.insertRepoUser (w.db.repos.seq + 1) userId Pb.Role.kOwner.toInt)
    (e.fault = none ∧ userId ∈ w.db.users.ids) ∧ r.1 = .done ∧ r.2.db.repos = u.db.repos ∧
        r.2.repositories = u.repositories ∨
      ¬ (e.fault = none ∧ userId ∈ w.db.users.ids) ∧ r.1 ≠ .done ∧ r.2 = u := by
  intro r
  have husers : u.db.users = w.db.users := h.tables .users (by decide)
  rcases World.write_spec (.insertRepoUser (w.db.repos.seq + 1) userId Pb.Role.kOwner.toInt) e u
    with ⟨hdone, hfault, ⟨-, huser, -, t, -, hdb⟩, hv⟩ | ⟨hcode, hv⟩
  · refine Or.inl ⟨⟨hfault, husers ▸ huser⟩, hdone, ?_, ?_⟩
    · rw [hdb]
    · rw [hv]
  · refine Or.inr ⟨?_, hcode, hv⟩
    rintro ⟨hfault, huser⟩
    apply hcode
    -- the number is new, so nobody is a member yet
    have hkey : RepoUser.key ⟨w.db.repos.seq + 1, userId, Pb.Role.kOwner.toInt⟩ ∉
        u.db.reposUsers.rows.map RepoUser.key := by
      have hreposUsers : u.db.reposUsers = w.db.reposUsers := h.tables .reposUsers (by decide)
      rw [hreposUsers, List.mem_map]
      rintro ⟨r, hr, hkey⟩
      have hid : r.repoId = w.db.repos.seq + 1 := congrArg Prod.fst hkey
      have hrepo : r.repoId ∈ w.db.repos.ids := hw.reposUsers_repo r hr
      rw [hid] at hrepo
      exact AutoTable.seq_succ_notMem_ids hrepo
    obtain ⟨t, ht⟩ := KeyTable.exists_insert_of_notMem hkey
    have hallowed : w.db.repos.seq + 1 ∈ u.db.repos.ids ∧ userId ∈ u.db.users.ids ∧
        Pb.Role.kOwner.toInt ∈ roleIds :=
      ⟨h.mem_ids.mpr (Or.inr rfl), husers.symm ▸ huser, by decide⟩
    simp only [World.write, hfault, Write.apply, Write.insertInto, ht, if_pos hallowed]

end Statements

/-! ## The two calls -/

variable {d : Deployment} {w : World}

/-- **How a creation goes on** after the row is inserted. Without a directory, or without an owner,
the row is taken back. -/
theorem createDirectory_spec {v : World} {request : Pb.RepoCreate} (h : w.db.Valid)
    (hv : w.Inserted request v) (userId : ℤ) (env : ℕ → Env) :
    let path := getRepoPath d (w.db.repos.seq + 1)
    let r := (Repositories.createDirectory d request.name userId (w.db.repos.seq + 1)).run env v
    let owned := (env 1).fault = none ∧ userId ∈ w.db.users.ids
    (env 0).gitInitFails = true ∧ (∃ err, r.1 = .error err) ∧
        r.2 = (v.write (env 1) (.deleteRepoByName request.name)).2 ∨
      (env 0).gitInitFails = false ∧ ∃ u, w.Inserted request u ∧ u.db = v.db ∧
        (∀ p, (u.repositories p).isSome ↔ (v.repositories p).isSome ∨ p = path) ∧
        (owned ∧ r.1 = .ok (w.db.repos.seq + 1) ∧ r.2.db.repos = u.db.repos ∧
            r.2.repositories = u.repositories ∨
          ¬ owned ∧ (∃ err, r.1 = .error err) ∧
            r.2 = (u.write (env 2) (.deleteRepoByName request.name)).2) := by
  intro path r owned
  by_cases hgit : (env 0).gitInitFails = true
  · have hinit : Interp.exec (Op.gitRepositoryInit (getRepoPath d (w.db.repos.seq + 1))) (env 0) v =
        (false, v) := if_pos hgit
    have hr : r = (.error (text "failed to initialize git repository"),
        (v.write (env 1) (.deleteRepoByName request.name)).2) := by
      simp only [r, Repositories.createDirectory, issue, call_bind, run_call, hinit]
      rfl
    rw [hr]
    exact Or.inl ⟨hgit, ⟨_, rfl⟩, rfl⟩
  · -- the directory is made, and only the owner is missing
    obtain ⟨u, hinit, hu, hdirs⟩ : ∃ u,
        Interp.exec (Op.gitRepositoryInit (getRepoPath d (w.db.repos.seq + 1))) (env 0) v =
          (true, u) ∧ u.db = v.db ∧
        ∀ p, (u.repositories p).isSome ↔ (v.repositories p).isSome ∨ p = path := by
      refine ⟨_, if_neg hgit, rfl, fun p ↦ ?_⟩
      dsimp only
      by_cases hp : p = path
      · rw [if_pos hp]
        exact iff_of_true rfl (Or.inr hp)
      · rw [if_neg hp, or_iff_left hp]
    have hv' : w.Inserted request u := ⟨hu ▸ hv.rows, hu ▸ hv.tables⟩
    refine Or.inr ⟨Bool.eq_false_iff.mpr hgit, u, hv', hu, hdirs, ?_⟩
    rcases hv'.write_insertRepoUser h userId (env 1) with
      ⟨hok, hdone, hrepos, hdisk⟩ | ⟨hno, hcode, hsame⟩
    · have hr : r = (.ok (w.db.repos.seq + 1), (u.write (env 1)
          (.insertRepoUser (w.db.repos.seq + 1) userId Pb.Role.kOwner.toInt)).2) := by
        simp only [r, Repositories.createDirectory, Db.repoAddUser, issue, call_bind, run_call,
          done_bind, hinit, Bool.not_true, Bool.false_eq_true, if_false, exec_write, hdone]
        rfl
      rw [hr]
      exact Or.inl ⟨hok, rfl, hrepos, hdisk⟩
    · have hr : r = (.error (text "failed to set owner"),
          (u.write (env 2) (.deleteRepoByName request.name)).2) := by
        simp only [r, Repositories.createDirectory, Db.repoAddUser, issue, call_bind, run_call,
          done_bind, hinit, Bool.not_true, Bool.false_eq_true, if_false, exec_write, hsame]
        rw [pure_bind, if_pos (by simpa using hcode)]
        rfl
      rw [hr]
      exact Or.inr ⟨hno, ⟨_, rfl⟩, rfl⟩

theorem createDirectory_run {v : World} {request : Pb.RepoCreate} (h : w.db.Valid)
    (hv : w.Inserted request v) (hname : request.name ∉ w.db.repos.rows.map (·.2.name))
    (userId : ℤ) (env : ℕ → Env) :
    let path := getRepoPath d (w.db.repos.seq + 1)
    let r := (Repositories.createDirectory d request.name userId (w.db.repos.seq + 1)).run env v
    ((env 1).fault = none ∧ ((env 0).gitInitFails = true ∨ userId ∈ w.db.users.ids)) ∧
        ((∃ err, r.1 = .error err) ∧ r.2.db.repos.rows = w.db.repos.rows ∧
            r.2.db.reposUsers.rows = w.db.reposUsers.rows ∧ r.2.repositories = v.repositories ∨
          (∃ id, r.1 = .ok id) ∧ r.2.db.repos = v.db.repos ∧
            ∀ p, (r.2.repositories p).isSome ↔ (v.repositories p).isSome ∨ p = path) ∨
      ¬ ((env 1).fault = none ∧ ((env 0).gitInitFails = true ∨ userId ∈ w.db.users.ids)) ∧
        (∃ err, r.1 = .error err) ∧
        (r.2.db.repos = v.db.repos ∨
          r.2.db.repos.rows = w.db.repos.rows ∧ (r.2.repositories path).isSome) := by
  intro path r
  rcases createDirectory_spec (d := d) h hv userId env with ⟨hgit, herr, hr⟩ |
    ⟨hgit, u, hu, hdb, hdirs, ⟨howned, hok, hrepos, hdisk⟩ | ⟨hno, herr, hr⟩⟩
  · obtain ⟨hdisk, ⟨hfault, hrepos, husers⟩ | ⟨hfault, hsame⟩⟩ :=
      hv.write_deleteRepoByName h hname (env 1)
    · rw [hr]
      exact Or.inl ⟨⟨hfault, Or.inl hgit⟩, Or.inl ⟨herr, hrepos, husers, hdisk⟩⟩
    · rw [hr, hsame]
      exact Or.inr ⟨fun hok ↦ hfault hok.1, herr, Or.inl rfl⟩
  · rw [hdisk, hrepos, hdb]
    exact Or.inl ⟨⟨howned.1, Or.inr howned.2⟩, Or.inr ⟨⟨_, hok⟩, rfl, hdirs⟩⟩
  · have hor : (env 0).gitInitFails = true ∨ userId ∈ w.db.users.ids ↔
        userId ∈ w.db.users.ids := or_iff_right (Bool.eq_false_iff.mp hgit)
    rw [hor]
    refine Or.inr ⟨hno, herr, ?_⟩
    obtain ⟨hdisk, ⟨-, hrepos, -⟩ | ⟨-, hsame⟩⟩ := hu.write_deleteRepoByName h hname (env 2)
    · rw [hr, hdisk]
      exact Or.inr ⟨hrepos, (hdirs path).mpr (Or.inr rfl)⟩
    · rw [hr, hsame, hdb]
      exact Or.inl rfl

theorem create_run (request : Pb.RepoCreate) (userId : ℤ) (env : ℕ → Env) (w : World) :
    let r := (Repositories.create d request.name request.desc request.isPublic userId).run env w
    w.db.TakesRepo request (env 0).fault ∧ (∃ v, w.Inserted request v ∧
        v.repositories = w.repositories ∧
        r = (Repositories.createDirectory d request.name userId (w.db.repos.seq + 1)).run
          (fun n ↦ env (n + 2)) v) ∨
      ¬ w.db.TakesRepo request (env 0).fault ∧ ∃ err, r = (.error err, w) := by
  intro r
  rcases w.write_insertRepo request (env 0) with
    ⟨htakes, hdone, hv, hrowid, hdisk⟩ | ⟨hrefused, hcode, hsame⟩
  · refine Or.inl ⟨htakes, _, hv, hdisk, ?_⟩
    simp only [r, Repositories.create, issue, call_bind, run_call, exec_write, hdone]
    rw [← hrowid]
    rfl
  · refine Or.inr ⟨hrefused, ?_⟩
    generalize hins : w.write (env 0)
      (.insertRepo request.name request.desc request.isPublic) = v at hcode hsame
    obtain ⟨rc, v⟩ := v
    obtain rfl : v = w := hsame
    simp only [r, Repositories.create, issue, call_bind, run_call, exec_write, hins]
    cases rc with
    | done => exact absurd rfl hcode
    | constraint | error => exact ⟨_, rfl⟩

theorem repoCreate_run (session : Session) (request : Pb.RepoCreate) (env : ℕ → Env) (w : World) :
    let x := (Repositories.create d request.name request.desc request.isPublic session.userId).run
      env w
    let r := (dispatch d (some session) (.repoCreate request)).run env w
    r.2 = x.2 ∧ ((∃ err, x.1 = .error err) → r.1.outcome.status ≠ some .kSucceed) ∧
      ((∃ id, x.1 = .ok id) → r.1.outcome.status = some .kSucceed) := by
  obtain ⟨n, hbind⟩ := exists_run_bind
    (Repositories.create d request.name request.desc request.isPublic session.userId) env w
  simp only [dispatch, answer, Service.repoCreate, Service.authenticateUser_orReturn,
    Service.userIdOf_helper, LawfulMonad.bind_assoc, hbind]
  generalize (Repositories.create d request.name request.desc request.isPublic session.userId).run
    env w = x
  obtain ⟨created, v⟩ := x
  cases created with
  | error err =>
    refine ⟨rfl, ?_, ?_⟩
    · rintro - ⟨⟩
    · rintro ⟨id, ⟨⟩⟩
  | ok id =>
    refine ⟨rfl, ?_, fun _ ↦ rfl⟩
    rintro ⟨err, ⟨⟩⟩

/-- **A creation, carried out or not.** What it reports and leaves behind in each case. -/
theorem repoCreate_storage (h : w.db.Valid) (session : Session) (request : Pb.RepoCreate)
    (env : ℕ → Env) :
    let path := getRepoPath d (w.db.repos.seq + 1)
    let r := (dispatch d (some session) (.repoCreate request)).run env w
    let carriedOut := (env 3).fault = none ∧
      ((env 2).gitInitFails = true ∨ session.userId ∈ w.db.users.ids)
    (¬ w.db.TakesRepo request (env 0).fault ∨ carriedOut) ∧
        (r.1.outcome.status ≠ some .kSucceed ∧ r.2.db.repos.rows = w.db.repos.rows ∧
            r.2.db.reposUsers.rows = w.db.reposUsers.rows ∧ r.2.repositories = w.repositories ∨
          w.db.repos.seq + 1 ≤ maxRowid ∧ r.1.outcome.status = some .kSucceed ∧
            (∀ i, i ∈ r.2.db.repos.ids ↔ i ∈ w.db.repos.ids ∨ i = w.db.repos.seq + 1) ∧
            ∀ p, (r.2.repositories p).isSome ↔ (w.repositories p).isSome ∨ p = path) ∨
      (w.db.TakesRepo request (env 0).fault ∧ ¬ carriedOut) ∧
        r.1.outcome.status ≠ some .kSucceed ∧
        (w.db.repos.seq + 1 ∈ r.2.db.repos.ids ∨
          r.2.db.repos.rows = w.db.repos.rows ∧ (r.2.repositories path).isSome) := by
  intro path r carriedOut
  obtain ⟨hworld, herr, hok⟩ := repoCreate_run (d := d) session request env w
  rcases create_run (d := d) request session.userId env w with
    ⟨htakes, v, hv, hdisk, hx⟩ | ⟨hrefused, err, hx⟩
  · rw [hx] at hworld herr hok
    rcases createDirectory_run (d := d) h hv htakes.2.1 session.userId (fun n ↦ env (n + 2))
      with ⟨hcarried, ⟨hfail, hrepos, husers, hdirs⟩ | ⟨hsucc, hrepos, hdirs⟩⟩ |
        ⟨hnot, hfail, hleft⟩
    · rw [hdisk] at hdirs
      exact Or.inl ⟨Or.inr hcarried, Or.inl ⟨herr hfail, hworld ▸ hrepos, hworld ▸ husers,
        hworld ▸ hdirs⟩⟩
    · rw [hdisk] at hdirs
      refine Or.inl ⟨Or.inr hcarried, Or.inr ⟨htakes.2.2, hok hsucc, fun i ↦ ?_, hworld ▸ hdirs⟩⟩
      rw [hworld, hrepos]
      exact hv.mem_ids
    · refine Or.inr ⟨⟨htakes, hnot⟩, herr hfail, hworld ▸ hleft.imp_left fun hrepos ↦ ?_⟩
      rw [hrepos]
      exact hv.mem_ids.mpr (Or.inr rfl)
  · rw [hx] at hworld herr
    exact Or.inl ⟨Or.inl hrefused, Or.inl ⟨herr ⟨_, rfl⟩, hworld ▸ rfl, hworld ▸ rfl, hworld ▸ rfl⟩⟩

/-- A deletion of a repository that the caller does not own, or that is named in vain, changes
nothing; any other one removes the directory, and the row if SQLite does. -/
theorem repoDelete_storage (h : w.db.Valid) (session : Session) (request : Pb.RepoDelete)
    (env : ℕ → Env) :
    let v := ((dispatch d (some session) (.repoDelete request)).run env w).2
    (∃ repoId, w.db.OwnsNamed session.userId request.toRepoRef repoId ∧
        (∀ p, v.repositories p =
          if World.under (getRepoPath d repoId) p then none else w.repositories p) ∧
        ((env (lookups request.repoId + 1)).fault = none ∧
            (∀ i, i ∈ v.db.repos.ids ↔ i ∈ w.db.repos.ids ∧ i ≠ repoId) ∨
          (env (lookups request.repoId + 1)).fault ≠ none ∧ v.db = w.db)) ∨
      (∀ repoId, ¬ w.db.OwnsNamed session.userId request.toRepoRef repoId) ∧ v = w := by
  intro v
  have hv : v = ((Service.repoDelete d (some session) request).run env w).2 :=
    congrArg Prod.snd (run_map _ _ env w)
  rw [hv]
  rcases Service.ownerGate_run h session.userId request.toRepoRef (fun repoId ↦ do
      if !(← Repositories.remove d repoId) then
        return Service.reply .kFailed (text "database error")
      else return Service.succeed) env with ⟨repoId, howns, hrun⟩ | ⟨hnone, status, msg, -, hrun⟩
  · refine Or.inl ⟨repoId, howns, ?_⟩
    have hrun' : ((Service.repoDelete d (some session) request).run env w).2 =
        (Interp.exec (Op.rm (getRepoPath d repoId)) (env (1 + (lookups request.repoId + 1)))
          (w.write (env (lookups request.repoId + 1)) (.deleteRepo repoId)).2).2 := by
      refine (congrArg Prod.snd hrun).trans ?_
      simp only [Repositories.remove, issue, call_bind, run_call, Nat.zero_add]
      rfl
    rw [hrun']
    generalize env (lookups request.repoId + 1) = e
    by_cases hfault : e.fault = none
    · have hw : (w.write e (.deleteRepo repoId)).2 =
          { w with db := w.db.deleteRepos fun r ↦ !decide (r.1 = repoId) } := by
        simp only [World.write, hfault, Write.apply]
        rfl
      rw [hw]
      refine ⟨fun p ↦ rfl, Or.inl ⟨hfault, fun i ↦ ?_⟩⟩
      change i ∈ (w.db.repos.filter fun r ↦ !decide (r.1 = repoId)).ids ↔ _
      simp only [AutoTable.mem_ids, AutoTable.filter_rows, List.mem_filter, Bool.not_eq_true',
        decide_eq_false_iff_not, exists_and_right]
    · have hw : (w.write e (.deleteRepo repoId)).2 = w := by
        obtain ⟨err, herr⟩ := Option.ne_none_iff_exists'.mp hfault
        simp only [World.write, herr]
      rw [hw]
      exact ⟨fun p ↦ rfl, Or.inr ⟨hfault, rfl⟩⟩
  · exact Or.inr ⟨hnone, congrArg Prod.snd hrun⟩

/-! ## Any sequence of calls -/

/-- The call leaves database and disk in agreement, and is contained. -/
def StorageCall.Sound (d : Deployment) (c : StorageCall) (w : World) : Prop :=
  DiskAgrees d (c.serve d w).2 ∧ c.Contained d w

theorem DiskAgrees.congr {v : World} (hdisk : DiskAgrees d w)
    (hrepos : v.db.repos.rows = w.db.repos.rows) (hdirs : v.repositories = w.repositories) :
    DiskAgrees d v := by
  intro i hpos hle
  rw [hdirs, AutoTable.ids, hrepos]
  exact hdisk i hpos hle

theorem sound_create_iff (h : w.db.Valid) (hdisk : DiskAgrees d w) (session : Session)
    (request : Pb.RepoCreate) (env : ℕ → Env) :
    StorageCall.Sound d ⟨session, .create request, env⟩ w ↔
      StorageCall.CarriedOut ⟨session, .create request, env⟩ w := by
  have hnew : w.db.repos.seq + 1 ∉ w.db.repos.ids := AutoTable.seq_succ_notMem_ids
  have hpos : 0 < w.db.repos.seq + 1 := Int.lt_add_one_of_le w.db.repos.seq_nonneg
  rcases repoCreate_storage (d := d) h session request env with
    ⟨hcarried, hcase⟩ | ⟨⟨htakes, hnot⟩, hstatus, hleft⟩
  · refine iff_of_true ?_ fun htakes ↦ hcarried.resolve_left fun hno ↦ hno htakes
    rcases hcase with ⟨-, hrepos, husers, hdirs⟩ | ⟨hbound, hstatus, hids, hdirs⟩
    · refine ⟨hdisk.congr hrepos hdirs, fun _ ↦ ⟨hrepos, husers, fun path ↦ ?_⟩⟩
      exact iff_of_eq (congrArg (fun f : Bytes → Option GitRepository ↦ (f path).isSome = true)
        hdirs)
    · refine ⟨fun i hi hle ↦ ?_, fun hfail ↦ absurd hstatus hfail⟩
      refine (hdirs _).trans (.trans (or_congr (hdisk i hi hle) ?_) (hids i).symm)
      exact ⟨fun heq ↦ getRepoPath_injOn d ⟨hi, hle⟩ ⟨hpos, hbound⟩ heq, fun heq ↦ heq ▸ rfl⟩
  · refine iff_of_false ?_ fun hcarried ↦ hnot (hcarried htakes)
    rintro ⟨hagrees, hcontained⟩
    have hids : ∀ {v : World}, v.db.repos.rows = w.db.repos.rows →
        w.db.repos.seq + 1 ∉ v.db.repos.ids := by
      intro v hrows hmem
      rw [AutoTable.ids, hrows] at hmem
      exact hnew hmem
    rcases hleft with hrow | ⟨hrows, hdir⟩
    · exact hids (hcontained hstatus).repos hrow
    · -- the row is gone, and the directory is not
      exact hids hrows ((hagrees _ hpos htakes.2.2).mp hdir)

theorem StorageCall.serve_delete (session : Session) (request : Pb.RepoDelete) (env : ℕ → Env)
    (w : World) : StorageCall.serve d ⟨session, .delete request, env⟩ w =
      (dispatch d (some session) (.repoDelete request)).run env w := rfl

theorem sound_delete_iff (h : w.db.Valid) (hdisk : DiskAgrees d w) (session : Session)
    (request : Pb.RepoDelete) (env : ℕ → Env) :
    StorageCall.Sound d ⟨session, .delete request, env⟩ w ↔
      StorageCall.CarriedOut ⟨session, .delete request, env⟩ w := by
  rcases repoDelete_storage (d := d) h session request env with
    ⟨repoId, howns, hdirs, hrow⟩ | ⟨hnone, hsame⟩
  · have hrepo : repoId ∈ w.db.repos.ids := h.mem_ids_of_kOwner_le howns.2
    have hrange := AutoTable.bounds_of_mem_ids hrepo
    have hunder : World.under (getRepoPath d repoId) (getRepoPath d repoId) = true :=
      (under_getRepoPath_iff d hrange hrange).mpr rfl
    rcases hrow with ⟨hfault, hids⟩ | ⟨hfault, hdb⟩
    · refine iff_of_true ⟨fun i hi hle ↦ ?_, fun path hchanged ↦ ?_⟩ fun other hother ↦ ?_
      · refine .trans ?_ (hids i).symm
        rw [StorageCall.serve_delete, hdirs]
        by_cases heq : i = repoId
        · rw [heq, if_pos hunder]
          exact iff_of_false Bool.false_ne_true fun hmem ↦ hmem.2 rfl
        · rw [if_neg fun hu ↦ heq ((under_getRepoPath_iff d hrange ⟨hi, hle⟩).mp hu),
            and_iff_left heq]
          exact hdisk i hi hle
      · have hpath : World.under (getRepoPath d repoId) path = true := by
          by_contra hno
          apply hchanged
          rw [StorageCall.serve_delete, hdirs, if_neg hno]
        refine ⟨repoId, howns.1, hpath, fun i hi hle hne heq ↦ ?_⟩
        rw [heq] at hpath
        exact hne ((under_getRepoPath_iff d hrange ⟨hi, hle⟩).mp hpath)
      · exact hfault
    · -- the row stays, and the directory is gone
      refine iff_of_false (fun hsound ↦ ?_) fun hcarried ↦ hfault (hcarried repoId howns)
      have hagrees := hsound.1 repoId hrange.1 hrange.2
      rw [StorageCall.serve_delete, hdb, hdirs, if_pos hunder] at hagrees
      cases hagrees.mpr hrepo
  · have hserve : (StorageCall.serve d ⟨session, .delete request, env⟩ w).2 = w := hsame
    refine iff_of_true ⟨?_, fun path hchanged ↦ ?_⟩ fun repoId howns ↦ absurd howns (hnone repoId)
    · rwa [hserve]
    · rw [hserve] at hchanged
      exact absurd rfl hchanged

theorem StorageCall.sound_iff (h : w.db.Valid) (hdisk : DiskAgrees d w) (c : StorageCall) :
    c.Sound d w ↔ c.CarriedOut w := by
  obtain ⟨session, request, env⟩ := c
  cases request with
  | create request => exact sound_create_iff h hdisk session request env
  | delete request => exact sound_delete_iff h hdisk session request env

/-- The calls, one after the other, each with a condition on the world it starts from. -/
def StorageCall.Along (d : Deployment) (ok : StorageCall → World → Prop) :
    List StorageCall → World → Prop
  | [], _ => True
  | c :: calls, w => ok c w ∧ Along d ok calls (c.serve d w).2

theorem StorageCall.serve_valid (h : w.db.Valid) (c : StorageCall) : (c.serve d w).2.db.Valid :=
  run_valid _ c.env h

/-- **Any sequence of calls.** Database and disk agree after each of them, and each is contained,
exactly when each of them is carried out. -/
theorem diskAgrees_along_iff (h : w.db.Valid) (hdisk : DiskAgrees d w) (calls : List StorageCall) :
    StorageCall.Along d (fun c v ↦ c.Sound d v) calls w ↔
      StorageCall.Along d StorageCall.CarriedOut calls w := by
  induction calls generalizing w with
  | nil => exact Iff.rfl
  | cons c calls ih =>
    have hstep := StorageCall.sound_iff h hdisk c
    constructor
    · rintro ⟨hsound, hrest⟩
      exact ⟨hstep.mp hsound, (ih (c.serve_valid h) hsound.1).mp hrest⟩
    · rintro ⟨hcarried, hrest⟩
      have hsound := hstep.mpr hcarried
      exact ⟨hsound, (ih (c.serve_valid h) hsound.1).mpr hrest⟩

/-- A user to create repositories. -/
def Database.creator : Database :=
  Write.applyAll 0 initial [.insertUser (text "u") (text "u@h") [] [] []]

theorem Database.creator_valid : Database.creator.Valid :=
  Write.applyAll_valid 0 valid_initial _

/-- The request to create the repository `r`. -/
def createR : Pb.RepoCreate := { name := text "r", desc := [], isPublic := false }

/-- A creation, a second one of the same name, and a deletion. -/
theorem diskAgrees_along_createR :
    StorageCall.Along .plain (fun c v ↦ c.Sound .plain v)
      [⟨{ userId := 1 }, .create createR, fun _ ↦ {}⟩,
        ⟨{ userId := 1 }, .create createR, fun _ ↦ {}⟩,
        ⟨{ userId := 1 }, .delete { repo := some (text "r") }, fun _ ↦ {}⟩]
      { World.initial with db := .creator } := by
  have hdisk : DiskAgrees .plain { World.initial with db := .creator } := by
    intro i _ _
    exact iff_of_false Bool.false_ne_true (List.not_mem_nil (a := i))
  refine (diskAgrees_along_iff Database.creator_valid hdisk _).mpr ⟨?_, ?_, ?_, trivial⟩
  · exact fun _ ↦ ⟨rfl, Or.inr (by decide +kernel)⟩
  · exact fun _ ↦ ⟨rfl, Or.inr (by decide +kernel)⟩
  · exact fun _ _ ↦ rfl

/-- A creation without a session. The call fails, no row is left, and the directory is. -/
theorem not_diskAgrees :
    let c : StorageCall := ⟨{}, .create createR, fun _ ↦ {}⟩
    let r := c.serve .plain .initial
    DiskAgrees .plain .initial ∧ r.1.outcome.status = some .kFailed ∧ r.2.db.repos.rows = [] ∧
      (r.2.repositories (getRepoPath .plain 1)).isSome ∧ ¬ DiskAgrees .plain r.2 ∧
      ¬ c.Contained .plain .initial := by
  intro c r
  have hstatus : r.1.outcome.status = some .kFailed := by decide +kernel
  have hrows : r.2.db.repos.rows = [] := by decide +kernel
  have hdir : (r.2.repositories (getRepoPath .plain 1)).isSome := by decide +kernel
  refine ⟨diskAgrees_initial _, hstatus, hrows, hdir, fun hagrees ↦ ?_, fun hcontained ↦ ?_⟩
  · have hmem := (hagrees 1 (by decide) (by decide)).mp hdir
    rw [AutoTable.ids, hrows] at hmem
    cases hmem
  · have hsame : World.SameStorage .initial r.2 := hcontained (by rw [hstatus]; decide)
    cases (hsame.directories (getRepoPath .plain 1)).mp hdir

end Scissy
