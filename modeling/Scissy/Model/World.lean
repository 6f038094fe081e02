import Scissy.Interaction.Program
import Scissy.Model.Statement
import Scissy.Text.File
import Scissy.Text.Numeral

/-!
# The world of the server

What the server reads and changes: the database with the connection's last row number, the git
repositories on the disk, and the file of authorized keys. `Op` lists the operations the server
performs on it, and `Op.exec` is what each one does. The server keeps nothing else between two
requests, so a state of the system is a `World`.

## What an operation cannot control

`Env` is the environment's part in one operation: whether the disk is full, which bytes the random
generator hands out, the time, the answer of an external program. A write may fail for a reason
outside the tables, and then changes nothing. Reads and writes to the file of keys do what they are
asked: the server does not look at their errors.

## What the server is configured with

`Deployment` has the values that are fixed while the server runs: its configuration, and the
functions of libraries whose values it passes on without looking into them, such as the encoding of
a token or the hash of a password. A result that needs something of such a function says so.

## Git

A repository is what libgit2 answers about it. No call of the service changes the contents of a
repository, and a push may put any other one in its place, so a `GitRepository` is a record of
answers, and nothing relates one answer to another.

## Frames

`Op.touches` lists the parts of the world an operation may change, and `Op.exec_same` says that it
leaves the others alone.
-/

open Interaction

namespace Scissy

/-! ## Configuration -/

inductive AuthMethod
  | kAuthBuiltin | kAuthProcess
  deriving DecidableEq

structure Config where
  repos : Bytes
  socket : Bytes
  crackPasswords : Bool
  cloneUser : Bytes
  cloneHost : Bytes
  gitLogLimit : UInt32
  cookieDuration : UInt32
  isRegisterEnabled : Bool
  authenticator : AuthMethod

/-- The library functions whose values the server passes on. -/
structure Libraries where
  /-- `FascistCheck` with the default dictionary: the complaint about a password. -/
  fascistCheck : Bytes → Option Bytes
  sha3_512 : Bytes → Bytes
  base16Encode : Bytes → Bytes
  base16Decode : Bytes → Bytes
  /-- `mimosa::http::time` -/
  httpTime : ℤ → Bytes
  /-- `MimeDb::mimeType` -/
  mimeType : Bytes → Bytes
  /-- `SCISSY_VERSION` -/
  version : Bytes

structure Deployment extends Config, Libraries

/-- The defaults of `Config`, but open for registration and with an external authenticator, and
libraries of no interest. -/
def Deployment.plain : Deployment where
  repos := text "/var/lib/scissy"
  socket := text "/var/run/scissy/socket"
  crackPasswords := false
  cloneUser := text "git"
  cloneHost := text "localhost"
  gitLogLimit := 200
  cookieDuration := 7
  isRegisterEnabled := true
  authenticator := .kAuthProcess
  fascistCheck _ := none
  sha3_512 s := s
  base16Encode s := s.flatMap fun c ↦
    [Numeral.digit (c.toNat / 16), Numeral.digit (c.toNat % 16)]
  base16Decode s := s
  httpTime _ := []
  mimeType _ := []
  version := []

/-! ## Git repositories -/

structure GitSignature where
  name : Bytes
  email : Bytes
  time : ℤ
  offset : ℤ

structure GitCommit where
  id : Bytes
  parents : List Bytes
  treeId : Bytes
  message : Bytes
  time : ℤ
  timeOffset : ℤ
  committer : GitSignature
  author : GitSignature

structure GitTree where
  id : Bytes
  entries : List Pb.GitTreeEntry

structure GitBlob where
  isBinary : Bool
  rawContent : Bytes

/-- A repository as libgit2 shows it: its answers to the calls the server makes. -/
structure GitRepository where
  lastCommitTime : ℕ
  /-- The names of the local branches. -/
  branches : List Bytes
  /-- The names and targets of the tags. -/
  tags : List (Bytes × Bytes)
  referenceToOid : Bytes → Option Bytes
  commitLookup : Bytes → Option GitCommit
  /-- Whether a revision walker can be created. -/
  canWalk : Bool
  /-- What a walker returns, newest first, after a push of a commit or of the head. -/
  walk : Option Bytes → List Bytes
  /-- The directory below a tree. -/
  tree : Bytes → Bytes → Option GitTree
  /-- The object of the entry at a path below a tree. -/
  treeEntryByPath : GitTree → Bytes → Option Bytes
  blobLookup : Bytes → Option GitBlob
  /-- The patches between two trees, one for each delta that has one. -/
  diffTreeToTree : Option GitTree → GitTree → Option (List (Option Bytes))

/-- What `git_repository_init` creates. -/
def GitRepository.empty : GitRepository where
  lastCommitTime := 0
  branches := []
  tags := []
  referenceToOid _ := none
  commitLookup _ := none
  canWalk := true
  walk _ := []
  tree _ _ := none
  treeEntryByPath _ _ := none
  blobLookup _ := none
  diffTreeToTree _ _ := none

/-! ## World and environment -/

structure World where
  db : Database
  /-- `sqlite3_last_insert_rowid` of the one connection. -/
  lastInsertRowid : ℤ
  /-- The git repositories by path. -/
  repositories : Bytes → Option GitRepository
  /-- The contents of the file of authorized keys. -/
  authKeys : Bytes

/-- The world before the first start. -/
def World.initial : World where
  db := .initial
  lastInsertRowid := 0
  repositories _ := none
  authKeys := []

structure Env where
  /-- The error of a write that fails for a reason outside the tables. -/
  fault : Option SqliteError := none
  /-- The row an aggregate query takes its bare columns from. -/
  pick : ℕ := 0
  /-- The row number of a row inserted into a table that does not number its rows. -/
  rowid : ℤ := 1
  /-- The time in seconds. -/
  now : ℤ := 0
  /-- The start of the process in milliseconds. -/
  started : ℤ := 0
  random : ℕ → UInt8 := fun _ ↦ 0
  rndFails : Bool := false
  /-- The exit status of an external program, `none` when it does not start. -/
  exitStatus : Option ℤ := none
  gitInitFails : Bool := false

/-! ## Operations -/

/-- What the server asks of the world; each operation is atomic. -/
inductive Op : Type → Type 1
  /-- Step through the complete result of a `select`. -/
  | query {β : Type} (q : Query β) : Op (List β)
  | write (s : Write) : Op ResultCode
  | lastInsertRowid : Op ℤ
  /-- `gnutls_rnd`, with the bytes it fills in. -/
  | gnutlsRnd (size : ℕ) : Op (Option Bytes)
  | time : Op ℤ
  /-- The uptime subtracted from the time, in milliseconds. -/
  | startTime : Op ℤ
  /-- Start the configured authentication program and wait for its exit status. -/
  | authProcess (username password : Bytes) : Op (Option ℤ)
  /-- `git_repository_init`; an existing repository is kept. -/
  | gitRepositoryInit (path : Bytes) : Op Bool
  | gitOpen (path : Bytes) : Op (Option GitRepository)
  /-- `mimosa::fs::rm`, recursive and forced. -/
  | rm (path : Bytes) : Op Unit
  /-- Construct the `ofstream` of the authorized keys, which truncates the file. -/
  | openAuthKeys : Op Unit
  /-- Flush bytes to the file of authorized keys at the stream's own offset. -/
  | writeAuthKeys (offset : ℕ) (data : Bytes) : Op Unit

/-- The row number a successful insert uses. -/
def Write.newRowid (rowid : ℤ) (db : Database) : Write → Option ℤ
  | insertUser .. => some (db.users.seq + 1)
  | insertUserSshKey .. => some (db.usersSshKeys.seq + 1)
  | insertGroup .. => some (db.groups.seq + 1)
  | insertRepo .. => some (db.repos.seq + 1)
  | insertUserAuth .. | insertGroupUser .. | insertRepoUser .. | insertRepoGroup .. => some rowid
  | _ => none

namespace World

/-- Run a write on the connection. -/
def write (w : World) (e : Env) (s : Write) : ResultCode × World :=
  match e.fault with
  | some err => (.error err, w)
  | none =>
    let r := s.apply e.now w.db
    let rowid := if r.1 = .done then s.newRowid e.rowid w.db else none
    (r.1, { w with db := r.2, lastInsertRowid := rowid.getD w.lastInsertRowid })

/-- Whether `path` is `root` or lies below it. -/
def under (root path : Bytes) : Bool := decide (path = root) || (root ++ text "/").isPrefixOf path

end World

namespace Op

/-- What an operation answers and does. -/
def exec : {β : Type} → Op β → Env → World → β × World
  | _, query q, e, w => (q.rows e.pick w.db, w)
  | _, write s, e, w => w.write e s
  | _, lastInsertRowid, _, w => (w.lastInsertRowid, w)
  | _, gnutlsRnd size, e, w =>
    (if e.rndFails then none else some ((List.range size).map e.random), w)
  | _, time, e, w => (e.now, w)
  | _, startTime, e, w => (e.started, w)
  | _, authProcess _ _, e, w => (e.exitStatus, w)
  | _, gitRepositoryInit path, e, w =>
    if e.gitInitFails then (false, w)
    else (true, { w with
      repositories := fun p ↦
        if p = path then some ((w.repositories path).getD .empty) else w.repositories p })
  | _, gitOpen path, _, w => (w.repositories path, w)
  | _, rm path, _, w =>
    ((), { w with repositories := fun p ↦ if World.under path p then none else w.repositories p })
  | _, openAuthKeys, _, w => ((), { w with authKeys := [] })
  | _, writeAuthKeys offset data, _, w =>
    ((), { w with authKeys := TextFile.overwrite 0 w.authKeys offset data })

end Op

instance : Interp Op Env World := ⟨Op.exec⟩

section Exec

variable {β : Type} (e : Env) (w : World)

@[simp] theorem exec_query (q : Query β) :
    Interp.exec (Op.query q) e w = (q.rows e.pick w.db, w) := rfl

@[simp] theorem exec_write (s : Write) : Interp.exec (Op.write s) e w = w.write e s := rfl

@[simp] theorem exec_lastInsertRowid :
    Interp.exec Op.lastInsertRowid e w = (w.lastInsertRowid, w) := rfl

@[simp] theorem exec_gnutlsRnd (size : ℕ) : Interp.exec (Op.gnutlsRnd size) e w =
    (if e.rndFails then none else some ((List.range size).map e.random), w) := rfl

@[simp] theorem exec_time : Interp.exec Op.time e w = (e.now, w) := rfl

@[simp] theorem exec_startTime : Interp.exec Op.startTime e w = (e.started, w) := rfl

@[simp] theorem exec_authProcess (username password : Bytes) :
    Interp.exec (Op.authProcess username password) e w = (e.exitStatus, w) := rfl

@[simp] theorem exec_gitOpen (path : Bytes) :
    Interp.exec (Op.gitOpen path) e w = (w.repositories path, w) := rfl

@[simp] theorem exec_openAuthKeys :
    Interp.exec Op.openAuthKeys e w = ((), { w with authKeys := [] }) := rfl

@[simp] theorem exec_writeAuthKeys (offset : ℕ) (data : Bytes) :
    Interp.exec (Op.writeAuthKeys offset data) e w =
      ((), { w with authKeys := TextFile.overwrite 0 w.authKeys offset data }) := rfl

theorem exec_gitRepositoryInit_db (path : Bytes) :
    (Interp.exec (Op.gitRepositoryInit path) e w).2.db = w.db := by
  change (Op.exec _ e w).2.db = w.db
  rw [Op.exec]
  split <;> rfl

end Exec

/-! ## What a write does to the world -/

section Write

variable {e : Env} {w : World} {s : Write}

/-- **The contract of a write on the connection.** It succeeds and has its effect, or it fails and
changes nothing. -/
theorem World.write_spec (s : Write) (e : Env) (w : World) :
    (w.write e s).1 = .done ∧ e.fault = none ∧ s.Effect e.now w.db (w.write e s).2.db ∧
        (w.write e s).2 = { w with
          db := (w.write e s).2.db
          lastInsertRowid := (s.newRowid e.rowid w.db).getD w.lastInsertRowid } ∨
      (w.write e s).1 ≠ .done ∧ (w.write e s).2 = w := by
  unfold World.write
  cases hf : e.fault with
  | some err => exact Or.inr ⟨nofun, rfl⟩
  | none =>
    rcases s.apply_spec e.now w.db with ⟨hdone, heffect⟩ | ⟨hcode, hdb⟩
    · refine Or.inl ⟨hdone, rfl, heffect, ?_⟩
      simp only [hdone, if_true]
    · refine Or.inr ⟨hcode, ?_⟩
      simp only [hcode, if_false, hdb, Option.getD_none]

/-- The rule for a write: the program goes on from the new tables, or from the old ones. -/
theorem wp_write {α : Type} {A : Env → Prop} {k : ResultCode → Prog Op α}
    {Q : α → World → Prop}
    (hdone : ∀ e, A e → ∀ v : World, s.Effect e.now w.db v.db →
      v = { w with
        db := v.db
        lastInsertRowid := (s.newRowid e.rowid w.db).getD w.lastInsertRowid } →
      (k .done).wp A Q v)
    (hfail : ∀ rc ≠ .done, (k rc).wp A Q w) : (Prog.issue (.write s) >>= k).wp A Q w := by
  intro e he
  rw [exec_write]
  rcases World.write_spec s e w with ⟨hrc, -, heffect, hw⟩ | ⟨hrc, hw⟩
  · rw [hrc]
    exact hdone e he _ heffect hw
  · rw [hw]
    exact hfail _ hrc

theorem World.write_of_ne_done (h : (w.write e s).1 ≠ .done) : (w.write e s).2 = w :=
  ((World.write_spec s e w).resolve_left fun hyes ↦ h hyes.1).2

theorem World.write_of_fault (h : e.fault ≠ none) : (w.write e s).2 = w :=
  ((World.write_spec s e w).resolve_left fun hyes ↦ h hyes.2.1).2

theorem World.effect_of_done (h : (w.write e s).1 = .done) :
    s.Effect e.now w.db (w.write e s).2.db :=
  ((World.write_spec s e w).resolve_right fun hno ↦ hno.1 h).2.2.1

theorem World.write_valid (s : Write) (e : Env) (h : w.db.Valid) : (w.write e s).2.db.Valid := by
  rcases World.write_spec s e w with ⟨-, -, heffect, -⟩ | ⟨-, hw⟩
  · exact heffect.valid h
  · rwa [hw]

end Write

theorem exec_valid {β : Type} (op : Op β) (e : Env) (w : World) (h : w.db.Valid) :
    (Interp.exec op e w).2.db.Valid := by
  cases op with
  | write s => exact World.write_valid s e h
  | gitRepositoryInit path =>
    rw [exec_gitRepositoryInit_db]
    exact h
  | _ => exact h

theorem run_valid {α : Type} (p : Prog Op α) (env : ℕ → Env) {w : World} (h : w.db.Valid) :
    (p.run env w).2.db.Valid :=
  Prog.run_invariant (I := fun v : World ↦ v.db.Valid) exec_valid p env h

/-! ## Frames -/

/-- The parts of a world. -/
inductive Resource
  | table (t : Table)
  | lastInsertRowid
  | repositories
  | authKeys
  deriving DecidableEq

/-- The two worlds agree on one part. -/
def Resource.Same (w w' : World) : Resource → Prop
  | table t => t.Same w.db w'.db
  | lastInsertRowid => w'.lastInsertRowid = w.lastInsertRowid
  | repositories => w'.repositories = w.repositories
  | authKeys => w'.authKeys = w.authKeys

namespace Resource.Same

variable {r : Resource} {w₁ w₂ w₃ : World}

theorem refl (r : Resource) (w : World) : r.Same w w := by
  cases r with
  | table t => exact Table.Same.refl t w.db
  | _ => rfl

theorem trans (h : r.Same w₁ w₂) (h' : r.Same w₂ w₃) : r.Same w₁ w₃ := by
  cases r with
  | table t => exact Table.Same.trans h h'
  | _ => exact Eq.trans h' h

end Resource.Same

/-- The parts of the world an operation may change. -/
@[simp] def Op.touches : {β : Type} → Op β → List Resource
  | _, write s => .lastInsertRowid :: s.touches.map .table
  | _, gitRepositoryInit _ | _, rm _ => [.repositories]
  | _, openAuthKeys | _, writeAuthKeys _ _ => [.authKeys]
  | _, _ => []

/-- **The frame of an operation.** -/
theorem Op.exec_same {β : Type} {op : Op β} {r : Resource} (h : r ∉ op.touches) (e : Env)
    (w : World) : r.Same w (Interp.exec op e w).2 := by
  cases op with
  | write s =>
    rcases World.write_spec s e w with ⟨-, -, heffect, hw⟩ | ⟨-, hw⟩
    · rw [exec_write, hw]
      simp only [Op.touches, List.mem_cons, List.mem_map, not_or, not_exists, not_and] at h
      cases r with
      | table t => exact heffect.same fun ht ↦ h.2 t ht rfl
      | lastInsertRowid => exact absurd rfl h.1
      | repositories | authKeys => rfl
    · rw [exec_write, hw]
      exact Resource.Same.refl r w
  | gitRepositoryInit path =>
    change r.Same w (Op.exec _ e w).2
    rw [Op.exec]
    split
    · exact Resource.Same.refl r w
    · cases r with
      | table t => exact Table.Same.refl t w.db
      | repositories => exact absurd List.mem_cons_self h
      | lastInsertRowid | authKeys => rfl
  | rm path =>
    cases r with
    | table t => exact Table.Same.refl t w.db
    | repositories => exact absurd List.mem_cons_self h
    | lastInsertRowid | authKeys => rfl
  | openAuthKeys | writeAuthKeys =>
    cases r with
    | table t => exact Table.Same.refl t w.db
    | authKeys => exact absurd List.mem_cons_self h
    | lastInsertRowid | repositories => rfl
  | _ => exact Resource.Same.refl r w

/-- A program that issues only operations keeping clear of a part leaves that part alone. -/
theorem run_same {α : Type} {p : Prog Op α} {Q : α → Prop} {r : Resource}
    (h : p.Within (fun op ↦ r ∉ op.touches) Q) (env : ℕ → Env) (w : World) :
    r.Same w (p.run env w).2 :=
  h.run_rel (R := fun v v' ↦ r.Same v v') (Resource.Same.refl r) Resource.Same.trans
    (fun _ hop ↦ Op.exec_same hop) env w

end Scissy
