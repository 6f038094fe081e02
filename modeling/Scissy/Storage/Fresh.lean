import Scissy.Security.Escalation
import Scissy.Security.Hidden

/-!
# What a new repository or group starts with

A name can be used again after its repository or group is gone, and `repoUpdate` moves names
between repositories. What belongs to a repository or a group hangs on its number, though, and a
number is never given out twice: its members go with the row, and no earlier row had the same
directory (`nothing_survives`).

## Every state of a run

That the directory of a new repository has never been that of another is about all states of the
run before, the ones in the middle of a call included: `repoCreate` inserts a row and may delete it
again before it returns. So `visited` lists the states operation by operation, and the largest
number so far, which only grows, bounds the numbers of all of them.
-/

open Relational Interaction Interaction.Prog

namespace Scissy

open Repositories (getRepoPath)

/-! ## Numbers -/

theorem Write.Effect.repos_seq_le {s : Write} {now : ℤ} {db db' : Database}
    (h : s.Effect now db db') : db.repos.seq ≤ db'.repos.seq := by
  by_cases htouches : Table.repos ∈ s.touches
  · cases s with
    | insertRepo =>
      obtain ⟨-, t, ht, rfl⟩ := h
      rw [(AutoTable.rows_of_insert ht).2]
      exact (lt_add_one _).le
    | updateRepo =>
      obtain ⟨-, rfl⟩ := h
      exact le_rfl
    | deleteRepo | deleteRepoByName =>
      obtain rfl := h
      exact le_rfl
    | _ => simp [touches] at htouches
  · have hsame : db'.repos = db.repos := h.same htouches
    rw [hsame]

theorem exec_repos_seq_le {β : Type} (op : Op β) (e : Env) (w : World) :
    w.db.repos.seq ≤ (Interp.exec op e w).2.db.repos.seq := by
  by_cases htouches : Resource.table .repos ∈ op.touches
  · cases op with
    | write s =>
      rw [exec_write]
      rcases World.write_spec s e w with ⟨-, -, heffect, -⟩ | ⟨-, hw⟩
      · exact heffect.repos_seq_le
      · rw [hw]
    | _ => simp at htouches
  · have hsame : (Interp.exec op e w).2.db.repos = w.db.repos := Op.exec_same htouches e w
    rw [hsame]

/-! ## A new repository -/

/-- The repository has its row, its creator as the owner, and nobody else. -/
structure NewRepo (request : Pb.RepoCreate) (caller : Session) (repoId : ℤ) (db : Database) :
    Prop where
  row : (repoId, ⟨request.name, request.desc, request.isPublic⟩) ∈ db.repos.rows
  users : ∀ r : RepoUser, r ∈ db.reposUsers.rows ∧ r.repoId = repoId ↔
    r = ⟨repoId, caller.userId, Pb.Role.kOwner.toInt⟩
  groups : ∀ r ∈ db.reposGroups.rows, r.repoId ≠ repoId

/-- The group has its row, its creator as the owner, nobody else, and no role on a repository. -/
structure NewGroup (request : Pb.GroupCreate) (caller : Session) (grpId : ℤ) (db : Database) :
    Prop where
  row : (grpId, ⟨request.grp.getD [], request.desc⟩) ∈ db.groups.rows
  users : ∀ r : GroupUser, r ∈ db.groupsUsers.rows ∧ r.groupId = grpId ↔
    r = ⟨grpId, caller.userId, Pb.Role.kOwner.toInt⟩
  repos : ∀ r ∈ db.reposGroups.rows, r.groupId ≠ grpId

namespace Service

variable {d : Deployment} {A : Env → Prop} {w : World}

theorem repoCreate_new (h : w.db.Valid) (caller : Session) (request : Pb.RepoCreate) :
    (repoCreate d (some caller) request).wp A (fun outcome v ↦
      (outcome.map .repoInfo).status = some .kSucceed →
        ∃ info, outcome = .returned true info ∧ info.id = some (w.db.repos.seq + 1) ∧
          NewRepo request caller (w.db.repos.seq + 1) v.db) w := by
  rw [repoCreate, authenticateUser_orReturn, wp_bind]
  suffices hcreate : (Repositories.create d request.name request.desc request.isPublic
      caller.userId).wp A (fun created v ↦ ∀ repoId, created = .ok repoId →
        repoId = w.db.repos.seq + 1 ∧ NewRepo request caller repoId v.db) w by
    refine wp_mono hcreate fun created v hv ↦ ?_
    cases created with
    | error errmsg =>
      rintro ⟨⟩
    | ok repoId =>
      obtain ⟨rfl, hnew⟩ := hv repoId rfl
      exact fun _ ↦ ⟨_, rfl, rfl, hnew⟩
  refine wp_write (fun e _ v heffect hv ↦ ?_) fun rc hrc ↦ ?_
  · have hrowid : v.lastInsertRowid = w.db.repos.seq + 1 := by rw [hv]; rfl
    obtain ⟨-, t, ht, hdb⟩ := heffect
    intro e' _
    rw [exec_lastInsertRowid, hrowid]
    intro e' _
    have hu := exec_gitRepositoryInit_db e' v (getRepoPath d (w.db.repos.seq + 1))
    generalize Interp.exec (Op.gitRepositoryInit (getRepoPath d (w.db.repos.seq + 1))) e' v = r at *
    obtain ⟨ok, u⟩ := r
    have hudb : u.db = { w.db with repos := t } := hu.trans hdb
    cases ok with
    | false =>
      refine wp_write (fun _ _ _ _ _ ↦ ?_) fun _ _ ↦ ?_ <;> rintro repoId ⟨⟩
    | true =>
      dsimp only
      rw [Db.repoAddUser, LawfulMonad.bind_assoc]
      refine wp_write (fun e' _ u' heffect _ ↦ ?_) fun rc hrc ↦ ?_
      · rintro repoId ⟨⟩
        have hnew : w.db.repos.seq + 1 ∉ w.db.repos.ids := AutoTable.seq_succ_notMem_ids
        obtain ⟨-, -, -, t', ht', hdb'⟩ := heffect
        refine ⟨rfl, ?_, fun r ↦ ?_, ?_⟩
        · rw [hdb', hudb]
          dsimp only
          rw [(AutoTable.rows_of_insert ht).1]
          exact List.mem_append_right _ (List.mem_singleton_self _)
        · rw [hdb']
          dsimp only
          rw [(KeyTable.rows_of_insert ht').1, hudb]
          exact h.reposUsers_repo.mem_append_singleton_iff
            (a := ⟨w.db.repos.seq + 1, caller.userId, Pb.Role.kOwner.toInt⟩) hnew
        · rw [hdb', hudb]
          exact h.reposGroups_repo.ne_of_notMem hnew
      · rw [decide_eq_false hrc]
        refine wp_write (fun _ _ _ _ _ ↦ ?_) fun _ _ ↦ ?_ <;> rintro repoId ⟨⟩
  · split_ifs <;> rintro repoId ⟨⟩

theorem groupCreate_new (h : w.db.Valid) (caller : Session) (request : Pb.GroupCreate) :
    (groupCreate (some caller) request).wp A (fun outcome v ↦
      (outcome.map .groupInfo).status = some .kSucceed →
        ∃ info, outcome = .returned true info ∧ ∃ grpId ∉ w.db.groups.ids,
          info.grpId = some grpId ∧ NewGroup request caller grpId v.db) w := by
  rw [groupCreate, authenticateUser_orReturn]
  dsimp only
  rw [wp_bind]
  refine wp_mono (groupCreate_wp _ _) fun created v hv ↦ ?_
  cases created with
  | error err =>
    rintro ⟨⟩
  | ok =>
    dsimp only
    refine (fetch_returns fun _ ↦ rfl).wp_bind ?_
    cases ((Query.groupGetId (request.grp.getD [])).rows 0 v.db).head? with
    | none =>
      rintro ⟨⟩
    | some _ =>
      dsimp only
      refine (fetch_returns fun _ ↦ rfl).wp_bind ?_
      cases hgrp : ((Query.groupGetId (request.grp.getD [])).rows 0 v.db).head? with
      | none =>
        rintro ⟨⟩
      | some grpId =>
        have hnew : grpId ∉ w.db.groups.ids := groupGetId_notMem_ids h hv hgrp
        dsimp only
        rw [Db.groupAddUser, LawfulMonad.bind_assoc]
        refine wp_write (fun e _ u heffect _ ↦ ?_) fun rc hrc ↦ ?_
        · intro _
          obtain ⟨-, t, ht, hdb⟩ := hv
          obtain ⟨hgroup, -, -, t', ht', hdb'⟩ := heffect
          -- the name leads to the row just inserted
          obtain ⟨group, hgroup⟩ := AutoTable.mem_ids.mp hgroup
          rw [hdb] at hgroup
          dsimp only at hgroup
          rw [(AutoTable.rows_of_insert ht).1, List.mem_append, List.mem_singleton] at hgroup
          rcases hgroup with hgroup | hgroup
          · exact absurd (AutoTable.mem_ids_of_mem hgroup) hnew
          refine ⟨_, rfl, grpId, hnew, rfl, ?_, fun r ↦ ?_, ?_⟩
          · rw [hdb', hdb]
            dsimp only
            rw [(AutoTable.rows_of_insert ht).1, ← (Prod.mk.inj hgroup).1]
            exact List.mem_append_right _ (List.mem_singleton_self _)
          · rw [hdb']
            dsimp only
            rw [(KeyTable.rows_of_insert ht').1, hdb]
            exact h.groupsUsers_group.mem_append_singleton_iff
              (a := ⟨grpId, caller.userId, Pb.Role.kOwner.toInt⟩) hnew
          · rw [hdb', hdb]
            exact h.reposGroups_group.ne_of_notMem hnew
        · rw [decide_eq_false hrc]
          refine wp_write (fun _ _ _ _ _ ↦ ?_) fun _ _ ↦ ?_ <;> rintro ⟨⟩

end Service

/-! ## Any sequence of calls -/

/-- A call, with the session of the thread that serves it and the choices of its environment. -/
structure RpcCall where
  thread : Option Session
  rpc : Rpc
  env : ℕ → Env

namespace RpcCall

variable (d : Deployment)

def run (c : RpcCall) (w : World) : Reply × World := (dispatch d c.thread c.rpc).run c.env w

/-- The calls one after the other. -/
def runAll : List RpcCall → World → World
  | [], w => w
  | c :: calls, w => runAll calls (c.run d w).2

/-- The states the calls go through, those in the middle of a call included. -/
def visited : List RpcCall → World → List World
  | [], w => [w]
  | c :: calls, w => (dispatch d c.thread c.rpc).visited c.env w ++ visited calls (c.run d w).2

variable {d} {w : World}

theorem runAll_valid (h : w.db.Valid) (calls : List RpcCall) : (runAll d calls w).db.Valid := by
  induction calls generalizing w with
  | nil => exact h
  | cons c calls ih =>
    exact ih (run_valid _ c.env h)

theorem mem_visited (calls : List RpcCall) (w : World) : w ∈ visited d calls w := by
  cases calls with
  | nil => exact List.mem_singleton_self w
  | cons c calls => exact List.mem_append_left _ (Prog.mem_visited _ _ _)

theorem repos_seq_le_runAll {calls : List RpcCall} {v : World} (hv : v ∈ visited d calls w) :
    v.db.repos.seq ≤ (runAll d calls w).db.repos.seq := by
  induction calls generalizing v w with
  | nil =>
    obtain rfl := List.mem_singleton.mp hv
    exact le_rfl
  | cons c calls ih =>
    rcases List.mem_append.mp hv with hv | hv
    · have hcall : v.db.repos.seq ≤ (c.run d w).2.db.repos.seq :=
        rel_of_mem_visited (R := fun u v : World ↦ u.db.repos.seq ≤ v.db.repos.seq)
          (fun _ ↦ le_rfl) le_trans exec_repos_seq_le hv
      exact hcall.trans (ih (mem_visited calls _))
    · exact ih hv

theorem getRepoPath_ne_of_mem_visited {calls : List RpcCall} {v : World}
    (hv : v ∈ visited d calls w) {i j : ℤ} (hi : (runAll d calls w).db.repos.seq < i)
    (hbound : i ≤ maxRowid) (hj : j ∈ v.db.repos.ids) : getRepoPath d j ≠ getRepoPath d i := by
  intro hpath
  have hjpos := AutoTable.bounds_of_mem_ids hj
  have hjseq : j ≤ v.db.repos.seq := AutoTable.le_seq_of_mem_ids hj
  have hseq := repos_seq_le_runAll hv
  have hlt : j < i := hjseq.trans_lt (hseq.trans_lt hi)
  exact hlt.ne (getRepoPath_injOn d hjpos ⟨hjpos.1.trans hlt, hbound⟩ hpath)

end RpcCall

/-- **Nothing survives a deletion.** After any calls, a repository that is created belongs to its
creator alone, and its directory has never been that of another; a group that is created has its
creator as its only member, and no role. -/
theorem nothing_survives {d : Deployment} {w : World} (h : w.db.Valid) (calls : List RpcCall)
    (caller : Session) (env : ℕ → Env) :
    let u := RpcCall.runAll d calls w
    (∀ request, let p := dispatch d (some caller) (.repoCreate request)
      (p.run env u).1.outcome.status = some .kSucceed →
        ∃ info, (p.run env u).1.outcome = .returned true (.repoInfo info) ∧
          ∃ repoId, info.id = some repoId ∧ NewRepo request caller repoId (p.run env u).2.db ∧
            (∀ v ∈ RpcCall.visited d calls w, ∀ i ∈ v.db.repos.ids,
              getRepoPath d i ≠ getRepoPath d repoId) ∧
            ∀ v ∈ p.visited env u, ∀ i ∈ v.db.repos.ids,
              getRepoPath d i = getRepoPath d repoId → i = repoId) ∧
      ∀ request, let r := (dispatch d (some caller) (.groupCreate request)).run env u
        r.1.outcome.status = some .kSucceed →
          ∃ info, r.1.outcome = .returned true (.groupInfo info) ∧
            ∃ grpId ∉ u.db.groups.ids, info.grpId = some grpId ∧
              NewGroup request caller grpId r.2.db := by
  intro u
  have hu : u.db.Valid := RpcCall.runAll_valid h calls
  constructor
  · intro request p hstatus
    have hp : p.wp (fun _ ↦ True) (fun reply v ↦ reply.outcome.status = some .kSucceed →
        ∃ info, reply.outcome = .returned true (.repoInfo info) ∧
          info.id = some (u.db.repos.seq + 1) ∧
          NewRepo request caller (u.db.repos.seq + 1) v.db) u := by
      refine wp_bind.mpr (wp_mono (Service.repoCreate_new hu caller request) ?_)
      rintro outcome v hv hstatus
      obtain ⟨info, rfl, hnew⟩ := hv hstatus
      exact ⟨info, rfl, hnew⟩
    obtain ⟨info, hinfo, hid, hnew⟩ := hp.run env (fun _ ↦ trivial) hstatus
    have hbounds := AutoTable.bounds_of_mem_ids (AutoTable.mem_ids_of_mem hnew.row)
    refine ⟨info, hinfo, _, hid, hnew, fun v hv i hi ↦ ?_, fun v _ i hi hpath ↦ ?_⟩
    · exact RpcCall.getRepoPath_ne_of_mem_visited hv (lt_add_one _) hbounds.2 hi
    · exact getRepoPath_injOn d (AutoTable.bounds_of_mem_ids hi) hbounds hpath
  · intro request r hstatus
    have hp : (dispatch d (some caller) (.groupCreate request)).wp (fun _ ↦ True)
        (fun reply v ↦ reply.outcome.status = some .kSucceed →
          ∃ info, reply.outcome = .returned true (.groupInfo info) ∧
            ∃ grpId ∉ u.db.groups.ids, info.grpId = some grpId ∧
              NewGroup request caller grpId v.db) u := by
      refine wp_bind.mpr (wp_mono (Service.groupCreate_new hu caller request) ?_)
      rintro outcome v hv hstatus
      obtain ⟨info, rfl, hnew⟩ := hv hstatus
      exact ⟨info, rfl, hnew⟩
    exact hp.run env (fun _ ↦ trivial) hstatus

/-- One user creates the repository `r`, makes another one a writer, and deletes it. -/
def createAndDelete : List RpcCall :=
  [⟨some { userId := 1 }, .repoCreate { name := text "r", desc := [], isPublic := false },
      fun _ ↦ {}⟩,
    ⟨some { userId := 1 }, .repoAddUser { repoId := some 1, userId := some 2, role := .kWriter },
      fun _ ↦ {}⟩,
    ⟨some { userId := 1 }, .repoDelete { repoId := some 1 }, fun _ ↦ {}⟩]

/-- The two of them. -/
def World.ofTwoUsers : World :=
  { World.initial with
    db := Write.applyAll 0 .initial
      [.insertUser (text "u") (text "u@h") [] [] [], .insertUser (text "v") (text "v@h") [] [] []] }

/-- The other one takes the name. -/
theorem newRepo_of_deleted_name :
    ∃ repoId, NewRepo { name := text "r", desc := [], isPublic := true } { userId := 2 } repoId
      ((dispatch .plain (some { userId := 2 })
        (.repoCreate { name := text "r", desc := [], isPublic := true })).run (fun _ ↦ {})
          (RpcCall.runAll .plain createAndDelete .ofTwoUsers)).2.db := by
  have hvalid : World.ofTwoUsers.db.Valid := Write.applyAll_valid 0 Database.valid_initial _
  obtain ⟨-, -, repoId, -, hnew, -⟩ := (nothing_survives (d := .plain) hvalid createAndDelete
    { userId := 2 } fun _ ↦ {}).1 { name := text "r", desc := [], isPublic := true }
      (by decide +kernel)
  exact ⟨repoId, hnew⟩

end Scissy
