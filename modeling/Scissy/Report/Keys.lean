import Scissy.Security.AuthorizedKeys

/-!
# What the calls that change keys report

`userAddSshKey` and `userRemoveSshKey` end in one statement each and take the result code of `step`
as a condition. Every code is different from zero, success as well as failure, so both calls print
the file and report a success whatever the statement did. `keysReported_iff` says when that is the
truth.

## Adding and removing

The two calls have the same fault, and yet it shows in different cases. An insert that is refused
leaves a client who believes in a key that is not there, so an addition is right exactly if SQLite
takes the row. A delete is never refused, and finding nothing to delete is no error. So a removal
is wrong only if the statement fails from outside, and only if there is a key, which then stays.
-/

open Relational Interaction Interaction.Prog

namespace Scissy

namespace Database

/-- SQLite inserts the key: there is no error from outside, the user exists, the user has no such
key, and there is a number left for the row. -/
def TakesKey (db : Database) (session : Session) (key : Pb.SshKey) (fault : Option SqliteError) :
    Prop :=
  fault = none ∧ session.userId ∈ db.users.ids ∧
    (session.userId, key.key, key.type.toInt) ∉ db.usersSshKeys.rows.map (·.2.uniqueKey) ∧
    db.usersSshKeys.seq + 1 ≤ maxRowid

/-- The row of the key has been inserted, under a new number. -/
def KeyInserted (db : Database) (session : Session) (key : Pb.SshKey) (db' : Database) : Prop :=
  ∃ id ∉ db.usersSshKeys.ids, ∃ now, db'.usersSshKeys.rows = db.usersSshKeys.rows ++
    [(id, ⟨session.userId, key.type.toInt, key.key, key.desc.getD [], now⟩)]

/-- The user has a key of that number. -/
def HasKey (db : Database) (session : Session) (keyId : ℤ) : Prop :=
  ∃ r ∈ db.usersSshKeys.rows, r.2.userId = session.userId ∧ r.1 = keyId

/-- The keys of all other users are the same. -/
def KeepsOthersKeys (db : Database) (session : Session) (db' : Database) : Prop :=
  ∀ r : ℤ × UserSshKey, r.2.userId ≠ session.userId →
    (r ∈ db'.usersSshKeys.rows ↔ r ∈ db.usersSshKeys.rows)

end Database

/-- A call of `userAddSshKey` succeeds exactly if it has inserted the row. If SQLite refuses the
row, the call fails, and the table and the file are as before. -/
structure AddReported (session : Session) (key : Pb.SshKey) (fault : Option SqliteError)
    (before after : World) (reply : Reply) : Prop where
  inserted : reply.outcome.status = some .kSucceed ↔ before.db.KeyInserted session key after.db
  refused : ¬ before.db.TakesKey session key fault → reply.outcome.status = some .kFailed ∧
    after.db.usersSshKeys = before.db.usersSshKeys ∧ after.authKeys = before.authKeys
  others : before.db.KeepsOthersKeys session after.db

/-- A call of `userRemoveSshKey` succeeds only if the key is gone. -/
structure RemoveReported (session : Session) (keyId : ℤ) (before after : World) (reply : Reply) :
    Prop where
  removed : reply.outcome.status = some .kSucceed → ¬ after.db.HasKey session keyId
  others : before.db.KeepsOthersKeys session after.db

variable {d : Deployment} {w : World} {session : Session}

/-! ## The statements -/

theorem Database.KeepsOthersKeys.refl (db : Database) (session : Session) :
    db.KeepsOthersKeys session db := fun _ _ ↦ Iff.rfl

theorem Database.KeyInserted.keepsOthersKeys {db db' : Database} {key : Pb.SshKey}
    (h : db.KeyInserted session key db') : db.KeepsOthersKeys session db' := by
  obtain ⟨id, -, now, hrows⟩ := h
  intro r hr
  rw [hrows, List.mem_append, List.mem_singleton]
  refine or_iff_left ?_
  rintro rfl
  exact hr rfl

/-- The insert is made if SQLite takes it, and only then. -/
theorem World.write_insertUserSshKey (session : Session) (key : Pb.SshKey) (e : Env)
    (w : World) :
    let v := (w.write e (.insertUserSshKey session.userId key.type.toInt key.key
      (key.desc.getD []))).2
    w.db.TakesKey session key e.fault ∧ w.db.KeyInserted session key v.db ∨
      ¬ w.db.TakesKey session key e.fault ∧ v = w := by
  intro v
  rcases World.write_spec (.insertUserSshKey session.userId key.type.toInt key.key
    (key.desc.getD [])) e w with ⟨-, hfault, ⟨huser, hkey, t, ht, hdb⟩, -⟩ | ⟨hrc, hw⟩
  · obtain ⟨hrows, hseq⟩ := AutoTable.rows_of_insert ht
    refine Or.inl ⟨⟨hfault, huser, hkey, hseq ▸ t.seq_le_bound⟩, _,
      AutoTable.seq_succ_notMem_ids, e.now, ?_⟩
    rw [show v.db = { w.db with usersSshKeys := t } from hdb, ← hrows]
  · refine Or.inr ⟨fun htakes ↦ hrc ?_, hw⟩
    obtain ⟨hfault, huser, hkey, hseq⟩ := htakes
    simp only [World.write, hfault, Write.apply, Write.insertInto, AutoTable.insert,
      dif_pos hseq, if_pos (And.intro huser hkey)]

theorem World.write_deleteUserSshKey (session : Session) (keyId : ℤ) (e : Env) (w : World) :
    let v := (w.write e (.deleteUserSshKey session.userId keyId)).2
    w.db.KeepsOthersKeys session v.db ∧
      (v.db.HasKey session keyId ↔ e.fault ≠ none ∧ w.db.HasKey session keyId) := by
  intro v
  rcases World.write_spec (.deleteUserSshKey session.userId keyId) e w with
    ⟨-, hfault, hdb, -⟩ | ⟨hrc, hw⟩
  · have hmem (r : ℤ × UserSshKey) : r ∈ v.db.usersSshKeys.rows ↔
        r ∈ w.db.usersSshKeys.rows ∧ ¬ (r.2.userId = session.userId ∧ r.1 = keyId) := by
      change v.db = _ at hdb
      rw [hdb, AutoTable.filter_rows, List.mem_filter, Bool.not_eq_true', decide_eq_false_iff_not]
    refine ⟨fun r hr ↦ ?_, iff_of_false ?_ fun h ↦ h.1 hfault⟩
    · rw [hmem]
      exact and_iff_left fun hboth ↦ hr hboth.1
    · rintro ⟨r, hr, hboth⟩
      exact ((hmem r).mp hr).2 hboth
  · rw [show v = w from hw]
    refine ⟨.refl _ _, (and_iff_right ?_).symm⟩
    intro hfault
    exact hrc (by rw [World.write, hfault]; rfl)

/-! ## The calls -/

theorem Service.run_changeSshKeys (s : Write) (env : ℕ → Env) (w : World) :
    (changeSshKeys d s).run env w = (succeed,
      { (w.write (env 0) s).2 with authKeys := keyFile d (w.write (env 0) s).2.db }) := by
  rw [changeSshKeys, issue, call_bind, run_call, exec_write]
  have hprint (rc : ResultCode) (u : World) :
      (if !(rc.code ≠ 0) then return Service.reply .kFailed (text "SQL error") else do
        genAuthorizedKeys d
        return Service.succeed : Server (Outcome Pb.StatusMsg)).wp (fun _ ↦ True)
      (fun r v ↦ r = succeed ∧ v = { u with authKeys := keyFile d u.db }) u := by
    rw [if_neg (by simp [rc.code_ne_zero]), wp_bind]
    exact wp_mono genAuthorizedKeys_wp fun _ v hv ↦ ⟨rfl, hv⟩
  obtain ⟨hr, hv⟩ := (hprint (w.write (env 0) s).1 (w.write (env 0) s).2).run
    (fun n ↦ env (n + 1)) fun _ ↦ trivial
  exact Prod.ext hr hv

/-- **When the calls that change keys tell the truth.** An addition does exactly if SQLite takes
the row, a removal exactly if there is no error from outside or no such key to begin with. -/
theorem keysReported_iff (d : Deployment) (session : Session) (request : Pb.UserSshKey)
    (env : ℕ → Env) (w : World) :
    let fault := (env 0).fault
    let keyId := request.key.keyId.getD 0
    let added := (dispatch d (some session) (.userAddSshKey request)).run env w
    let removed := (dispatch d (some session) (.userRemoveSshKey request)).run env w
    (AddReported session request.key fault w added.2 added.1 ↔
        w.db.TakesKey session request.key fault) ∧
      (RemoveReported session keyId w removed.2 removed.1 ↔
        fault = none ∨ ¬ w.db.HasKey session keyId) := by
  intro fault keyId added removed
  have hrun (s : Write) : (answer .statusMsg (Service.changeSshKeys d s)).run env w =
      ({ outcome := .returned true (.statusMsg { status := some .kSucceed }) },
        { (w.write (env 0) s).2 with authKeys := keyFile d (w.write (env 0) s).2.db }) := by
    have hmap := run_map (fun outcome : Outcome Pb.StatusMsg ↦
      (⟨outcome.map .statusMsg, []⟩ : Reply)) (Service.changeSshKeys d s) env w
    rw [Service.run_changeSshKeys] at hmap
    exact hmap
  constructor
  · have hr : added = _ := hrun _
    have hstatus : added.1.outcome.status = some .kSucceed := by
      rw [hr]
      rfl
    rcases World.write_insertUserSshKey session request.key (env 0) w with
      ⟨htakes, hinserted⟩ | ⟨hrefused, -⟩
    · have hinserted' : w.db.KeyInserted session request.key added.2.db := by
        rw [hr]
        exact hinserted
      exact iff_of_true ⟨iff_of_true hstatus hinserted', fun hno ↦ absurd htakes hno,
        hinserted'.keepsOthersKeys⟩ htakes
    · refine iff_of_false (fun hreported ↦ ?_) hrefused
      exact absurd (hstatus.symm.trans (hreported.refused hrefused).1) (by decide)
  · have hr : removed = _ := hrun _
    have hstatus : removed.1.outcome.status = some .kSucceed := by
      rw [hr]
      rfl
    obtain ⟨hothers, hkey⟩ := World.write_deleteUserSshKey session keyId (env 0) w
    have hgone : removed.2.db.HasKey session keyId ↔
        fault ≠ none ∧ w.db.HasKey session keyId := by
      rw [hr]
      exact hkey
    rw [← not_and_or.trans (or_congr_left not_not), ← hgone]
    refine ⟨fun hreported ↦ hreported.removed hstatus, fun hno ↦ ⟨fun _ ↦ hno, ?_⟩⟩
    rw [hr]
    exact hothers

/-- A key that the user has already: no row is inserted, and the call succeeds. And a key that
SQLite fails to delete: it stays, and the call succeeds. -/
theorem not_keysReported :
    let key : Pb.SshKey := { type := .kSshKeyRsa, key := text "AAAA", keyId := some 1 }
    let w := { World.initial with
      db := Write.applyAll 0 .twoSessions [.insertUserSshKey 1 0 (text "AAAA") []] }
    let added := (dispatch .plain (some { userId := 1 }) (.userAddSshKey { key })).run
      (fun _ ↦ {}) w
    let removed := (dispatch .plain (some { userId := 1 }) (.userRemoveSshKey { key })).run
      (fun _ ↦ { fault := some .busy }) w
    (added.1.outcome.status = some .kSucceed ∧
        added.2.db.usersSshKeys.rows = w.db.usersSshKeys.rows ∧
        ¬ AddReported { userId := 1 } key none w added.2 added.1) ∧
      removed.1.outcome.status = some .kSucceed ∧ removed.2.db.HasKey { userId := 1 } 1 ∧
        ¬ RemoveReported { userId := 1 } 1 w removed.2 removed.1 := by
  intro key w added removed
  have hadded : added.1.outcome.status = some .kSucceed := by decide +kernel
  have hremoved : removed.1.outcome.status = some .kSucceed := by decide +kernel
  have hrows : added.2.db.usersSshKeys.rows = w.db.usersSshKeys.rows := by decide +kernel
  have hkey : removed.2.db.HasKey { userId := 1 } 1 :=
    ⟨(1, ⟨1, 0, text "AAAA", [], 0⟩), by decide +kernel, rfl, rfl⟩
  refine ⟨⟨hadded, hrows, fun h ↦ ?_⟩, hremoved, hkey, fun h ↦ h.removed hremoved hkey⟩
  obtain ⟨id, -, now, hinserted⟩ := h.inserted.mp hadded
  have hlength := congrArg List.length (hrows.symm.trans hinserted)
  rw [List.length_append] at hlength
  exact absurd hlength (by simp)

end Scissy
