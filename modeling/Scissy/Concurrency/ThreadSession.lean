import Scissy.Interaction.Machine
import Scissy.Server.Footprint

/-!
# The session pointer of a thread

`SessionHandler::handle` constructs the session of an HTTP request on its stack and stores its
address in the thread's `thread_session`; nothing ever resets the pointer. A call that arrives at
the unix socket goes to the same handlers without passing `SessionHandler`, so a handler that asks
for the session finds the null pointer, or what the thread's last HTTP request left behind.

## The handlers

A handler that asks for the session on a null pointer crashes there. Up to that point it is the same
program as on a session, and what sends it there is one of two answers: the repository is private,
or the token of a new login has been stored (`dispatch_parts`). Some calls ask before anything
else.

## The process

`Process` has one pointer for each thread and the session objects that exist, numbered as they are
constructed, so that a destroyed object is never mistaken for a later one at the same address. The
threads take requests and calls in any order and perform their operations in any order.

## Why a record

What a handler does on a dangling pointer is not defined by the source, so the model of a call on
the socket ends where the session is asked for. To tell that it has been asked for, an activity
keeps the record of the operations of the call, with the answers. The rest of the handler is
replayed from the record, once with a session and once without, and the two part exactly at an
answer that asks (`Prog.KeepsStep.ends_replay_concat_iff`). Nothing in the state says directly that
the pointer was read: it is a fact about the program and what it was told.

## Main results

- `forall_reached_designates_iff`: in every state of a run, a handler that has asked for the session
  found its own request's there, exactly if no event leads a call on the socket to its session.
- `not_designates`: on the socket, `userGetSession` reads the null pointer, and after an HTTP
  request on the same thread that request's destroyed session.
-/

open Interaction Interaction.Prog

namespace Scissy

/-! ## Where the session is asked for -/

def Outcome.crashed {ρ : Type} : Outcome ρ → Bool
  | crash => true
  | _ => false

@[simp] theorem Outcome.crashed_map {ρ σ : Type} (f : ρ → σ) (o : Outcome ρ) :
    (o.map f).crashed = o.crashed := by
  cases o <;> rfl

/-- The call asks for the session before it issues an operation. -/
def Rpc.asksAtOnce (d : Deployment) : Rpc → Bool
  | userSetPassword request => (Service.userCheckPassword d request.newPassword).isNone
  | userGetSession | userAddSshKey _ | userRemoveSshKey _ | userGetSshKeys | groupCreate _
  | groupDelete _ | groupAddUser _ | groupRemoveUser _ | repoCreate _ | repoUpdate _ | repoDelete _
  | repoAddUser _ | repoRemoveUser _ | repoAddGroup _ | repoRemoveGroup _ => true
  | _ => false

/-- The call begins with `CHECK_PUBLIC_REPO`. -/
def Rpc.checksPublicRepo : Rpc → Bool
  | repoGetInfo _ | repoListMembers _ | repoListBranches _ | repoGetCommit _ | repoGetLog _
  | repoGetTree _ | repoGetBlob _ | repoGetPatch _ | repoGetTags _ => true
  | _ => false

/-- The answers after which the handler asks for the session. -/
def Rpc.asks (rpc : Rpc) : {β : Type} → Op β → β → Prop
  | _, .query (.repoIsPublic _), rows => rpc.checksPublicRepo = true ∧ rows.head? = some false
  | _, .write (.insertUserAuth ..), rc => rc = .done
  | _, _, _ => False

theorem Rpc.asks_repoIsPublic {rpc : Rpc} {repoId : ℤ} {rows : List Bool} :
    rpc.asks (.query (.repoIsPublic repoId)) rows ↔
      rpc.checksPublicRepo = true ∧ rows.head? = some false := Iff.rfl

/-- The same, told from the state the operation meets: the repository is private, or the token is
stored. -/
def Rpc.LeadsToSession (rpc : Rpc) (e : Env) (w : World) : {β : Type} → Op β → Prop
  | _, .query (.repoIsPublic repoId) =>
    rpc.checksPublicRepo = true ∧ ∃ repo, (repoId, repo) ∈ w.db.repos.rows ∧ repo.isPublic = false
  | _, .write (.insertUserAuth userId token _) =>
    e.fault = none ∧ userId ∈ w.db.users.ids ∧
      (token, userId) ∉ w.db.usersAuths.rows.map UserAuth.key
  | _, _ => False

theorem Rpc.asks_iff_leadsToSession (rpc : Rpc) {β : Type} (op : Op β) (e : Env) (w : World) :
    rpc.asks op (Interp.exec op e w).1 ↔ rpc.LeadsToSession e w op := by
  cases op with
  | query q =>
    cases q with
    | repoIsPublic repoId =>
      refine and_congr_right fun _ ↦ ?_
      rw [exec_query, Query.rows, List.head?_map, Option.map_eq_some_iff]
      constructor
      · rintro ⟨r, hr, hprivate⟩
        obtain ⟨hmem, rfl⟩ := Relational.AutoTable.head?_filter_id.mp hr
        exact ⟨r.2, hmem, hprivate⟩
      · rintro ⟨repo, hmem, hprivate⟩
        exact ⟨(repoId, repo), Relational.AutoTable.head?_filter_id.mpr ⟨hmem, rfl⟩, hprivate⟩
    | _ => rfl
  | write s =>
    cases s with
    | insertUserAuth userId token tsStart =>
      change (w.write e _).1 = .done ↔ _
      rcases World.write_spec (.insertUserAuth userId token tsStart) e w with
        ⟨hdone, hfault, ⟨huser, t, ht, -⟩, -⟩ | ⟨hcode, -⟩
      · exact iff_of_true hdone ⟨hfault, huser, (Relational.KeyTable.rows_of_insert ht).2⟩
      · refine iff_of_false hcode ?_
        rintro ⟨hfault, huser, hkey⟩
        obtain ⟨t, ht⟩ := Relational.KeyTable.exists_insert_of_notMem
          (a := (⟨userId, token, tsStart⟩ : UserAuth)) hkey
        apply hcode
        simp only [World.write, hfault, Write.apply, Write.insertInto, huser, if_true, ht]
    | _ => rfl
  | _ => rfl

/-! ## The handlers on a null pointer -/

section Handlers

variable {rpc : Rpc} {d : Deployment} {session : Session} {ρ : Type} {prior : Prop}

/-- No answer to the operation leads to the session. -/
def Rpc.Silent (rpc : Rpc) {β : Type} (op : Op β) : Prop := ∀ b, ¬ rpc.asks op b

/-- The handler on a null pointer parts from the handler on a session when it is asked, and crashes
there. -/
def Crashes (rpc : Rpc) (p q : Server (Outcome ρ)) (prior : Prop) : Prop :=
  p.KeepsStep rpc.asks q prior (Parts (·.crashed = true))

namespace Service

theorem authenticateUser_crashes {k k' : Pb.Session → Server (Outcome ρ)} (hprior : prior) :
    Crashes rpc ((authenticateUser none).orReturn k) ((authenticateUser (some session)).orReturn k')
      prior :=
  ⟨iff_of_true rfl hprior, fun hno ↦ absurd rfl hno⟩

theorem within_crashes {p : Server (Outcome ρ)} (h : p.Within rpc.Silent fun o ↦ o.crashed = false)
    (hprior : ¬ prior) : Crashes rpc p p prior :=
  (h.mono (fun _ hop ↦ hop) fun _ ho ↦ Bool.eq_false_iff.mp ho).keepsStep_parts hprior

theorem fetch_crashes {β : Type} {q : Query β} {k k' : Option β → Server (Outcome ρ)}
    (hprior : ¬ prior)
    (hk : ∀ rows, Crashes rpc (k rows.head?) (k' rows.head?) (rpc.asks (.query q) rows)) :
    Crashes rpc (fetch q >>= k) (fetch q >>= k') prior := ⟨hprior, _, rfl, hk⟩

theorem setId_crashes {id? : Option ℤ} {name? : Option Bytes} {getId : Bytes → Query ℤ}
    {unspecified notFound : Outcome ρ} {k k' : ℤ → Server (Outcome ρ)} (hprior : ¬ prior)
    (hquery : ∀ name, rpc.Silent (.query (getId name))) (hunspecified : unspecified.crashed = false)
    (hnotFound : notFound.crashed = false)
    (hk : ∀ id prior, ¬ prior → Crashes rpc (k id) (k' id) prior) :
    Crashes rpc
      ((setId id? name? (fun name ↦ fetch (getId name)) unspecified notFound).orReturn k)
      ((setId id? name? (fun name ↦ fetch (getId name)) unspecified notFound).orReturn k')
      prior := by
  cases id? with
  | some id => exact hk id prior hprior
  | none =>
    cases name? with
    | none => exact within_crashes (p := .done unspecified) hunspecified hprior
    | some name =>
      rw [setId, orReturn, orReturn, LawfulMonad.bind_assoc, LawfulMonad.bind_assoc]
      refine fetch_crashes hprior fun rows ↦ ?_
      cases rows.head? with
      | none => exact within_crashes (p := .done notFound) hnotFound (hquery name rows)
      | some id => exact hk id _ (hquery name rows)

theorem checkPublicRepo_crashes [Pb.HasStatus ρ] (hrpc : rpc.checksPublicRepo = true)
    (hprior : ¬ prior) {msg : Pb.RepoRef} {k : ℤ → Server (Outcome ρ)}
    (hk : ∀ repoId, (k repoId).Within rpc.Silent fun o ↦ o.crashed = false) :
    Crashes rpc ((checkPublicRepo none msg).orReturn k)
      ((checkPublicRepo (some session) msg).orReturn k) prior := by
  rw [checkPublicRepo, checkPublicRepo, andThen_orReturn, andThen_orReturn]
  refine setId_crashes hprior (fun name rows ↦ id) rfl rfl fun repoId prior hprior ↦ ?_
  rw [orReturn, orReturn, LawfulMonad.bind_assoc, LawfulMonad.bind_assoc]
  refine fetch_crashes hprior fun rows ↦ ?_
  rw [Rpc.asks_repoIsPublic, and_iff_right hrpc]
  cases rows.head? with
  | none =>
    refine within_crashes (p := .done _) rfl ?_
    rintro ⟨⟩
  | some isPublic =>
    cases isPublic with
    | true =>
      refine within_crashes (hk repoId) ?_
      rintro ⟨⟩
    | false =>
      dsimp only
      have hprivate : (!false) = true := rfl
      rw [if_pos hprivate, if_pos hprivate, ← orReturn, ← orReturn, andThen_orReturn,
        andThen_orReturn]
      exact authenticateUser_crashes rfl

theorem gitView_crashes [Pb.HasStatus ρ] (hrpc : rpc.checksPublicRepo = true) (hprior : ¬ prior)
    {msg : Pb.RepoRef} {view : GitRepository → Outcome ρ}
    (hview : ∀ repo, (view repo).crashed = false) :
    Crashes rpc (gitView d none msg view) (gitView d (some session) msg view) prior := by
  refine checkPublicRepo_crashes hrpc hprior fun repoId ↦ ⟨fun _ ↦ id, fun repo ↦ ?_⟩
  cases repo with
  | none => rfl
  | some repo => exact hview repo

theorem repoGetInfo_crashes (hprior : ¬ prior) (request : Pb.RepoSelector) :
    Crashes (.repoGetInfo request) (repoGetInfo d none request)
      (repoGetInfo d (some session) request) prior := by
  refine checkPublicRepo_crashes rfl hprior fun repoId ↦ ?_
  refine within_step (fetch_within fun _ ↦ id) fun row ↦ ?_
  cases row with
  | none => rfl
  | some row => exact ⟨fun _ ↦ id, fun _ ↦ rfl⟩

theorem repoGetLog_crashes (hprior : ¬ prior) (request : Pb.LogSelector) :
    Crashes (.repoGetLog request) (repoGetLog d none request)
      (repoGetLog d (some session) request) prior := by
  refine gitView_crashes rfl hprior fun repo ↦ ?_
  dsimp only
  by_cases hwalk : repo.canWalk = true
  · rw [hwalk]
    cases request.revision with
    | none => rfl
    | some revision =>
      dsimp only
      cases repo.referenceToOid revision <;> rfl
  · rw [Bool.not_eq_true] at hwalk
    rw [hwalk]
    rfl

theorem repoGetTree_crashes (hprior : ¬ prior) (request : Pb.TreeSelector) :
    Crashes (.repoGetTree request) (repoGetTree d none request)
      (repoGetTree d (some session) request) prior := by
  refine gitView_crashes rfl hprior fun repo ↦ ?_
  cases lookupRevision repo (request.revision.getD []) with
  | none => rfl
  | some commit =>
    dsimp only
    cases repo.tree commit.treeId (request.directory.getD []) <;> rfl

theorem repoGetBlob_crashes (hprior : ¬ prior) (request : Pb.BlobSelector) :
    Crashes (.repoGetBlob request) (repoGetBlob d none request)
      (repoGetBlob d (some session) request) prior := by
  refine gitView_crashes rfl hprior fun repo ↦ ?_
  dsimp only
  split
  · rfl
  split
  · rfl
  split
  · rfl
  split <;> rfl

theorem repoGetPatch_crashes (hprior : ¬ prior) (request : Pb.DiffSelector) :
    Crashes (.repoGetPatch request) (repoGetPatch d none request)
      (repoGetPatch d (some session) request) prior := by
  refine gitView_crashes rfl hprior fun repo ↦ ?_
  split
  · rfl
  split
  · rfl
  split
  · rfl
  dsimp only
  split <;> rfl

theorem userCreate_silent (request : Pb.UserCreate) :
    (userCreate d request).Within rpc.Silent fun o ↦ o.crashed = false := by
  rw [userCreate]
  cases userCheckPassword d request.password with
  | some msg => split_ifs <;> rfl
  | none =>
    split_ifs
    iterate 4 rfl
    refine within_step ⟨fun _ ↦ id, fun _ ↦ trivial⟩ fun salt ↦ ?_
    cases salt with
    | none => rfl
    | some salt =>
      refine within_step ⟨fun _ ↦ id, fun _ ↦ trivial⟩ fun rc ↦ ?_
      split_ifs <;> rfl

theorem reposList_silent : (reposList d).Within rpc.Silent fun o ↦ o.crashed = false := by
  have hinfos : ∀ rows, (reposListInfos d rows).Within rpc.Silent fun _ ↦ True := by
    intro rows
    induction rows with
    | nil => trivial
    | cons row rows ih =>
      exact within_step ⟨fun _ ↦ id, fun _ ↦ trivial⟩ fun _ ↦ within_step ih fun _ ↦ trivial
  exact within_step ⟨fun _ ↦ id, fun _ ↦ trivial⟩ fun rows ↦ within_step (hinfos rows) fun _ ↦ rfl

theorem groupGetInfo_silent (request : Pb.GroupSelector) :
    (groupGetInfo request).Within rpc.Silent fun o ↦ o.crashed = false := by
  refine within_step (fetch_within fun _ ↦ id) fun row ↦ ?_
  cases row <;> rfl

/-- `shellControl` also reads whether the repository is public, and does not ask for a session. -/
theorem shellControl_silent (hrpc : rpc.checksPublicRepo = false) (request : Pb.ShellControl) :
    (shellControl d request).Within rpc.Silent fun o ↦ o.crashed = false := by
  refine within_step (fetch_within fun _ ↦ id) fun repoId ↦ ?_
  cases repoId with
  | none => rfl
  | some repoId =>
    have hpublic : rpc.Silent (.query (.repoIsPublic repoId)) := by
      rintro rows ⟨hchecks, -⟩
      rw [hrpc] at hchecks
      cases hchecks
    refine within_step (fetch_within fun _ ↦ id) fun isAdmin ↦ ?_
    refine within_step ⟨fun _ ↦ id, fun _ ↦ trivial⟩ fun role ↦ ?_
    exact within_step (fetch_within hpublic) fun _ ↦ rfl

/-- `userAuth` asks for the session to add its cookies, when everything else has succeeded. -/
theorem userAuth_parts (hprior : ¬ prior) (request : Pb.UserAuth) :
    (userAuth d none request).KeepsStep (Rpc.userAuth request).asks
      (userAuth d (some session) request) prior (Parts (·.1.crashed = true)) := by
  let rpc := Rpc.userAuth request
  have hauth : (authenticate d request).Within rpc.Silent fun _ ↦ True := by
    rw [authenticate]
    cases d.authenticator with
    | kAuthBuiltin =>
      refine within_step (fetch_within fun _ ↦ id) fun row ↦ ?_
      cases row with
      | none => trivial
      | some row =>
        dsimp only
        split_ifs <;> trivial
    | kAuthProcess =>
      refine within_step ⟨fun _ ↦ id, fun _ ↦ trivial⟩ fun status ↦ ?_
      cases status with
      | none => trivial
      | some status =>
        dsimp only
        split_ifs <;> trivial
  have hreturned {prior : Prop} (hprior : ¬ prior) (response : Pb.Session) :
      Parts (F := Op) (·.1.crashed = true) prior
        (Outcome.returned true response, ([] : List Cookie))
        (.done (.returned true response, [])) :=
    ⟨iff_of_false Bool.false_ne_true hprior, fun _ ↦ rfl⟩
  refine hauth.keepsStep_bind hprior fun r prior _ hprior ↦ ?_
  cases r with
  | error msg => exact hreturned hprior _
  | ok =>
    refine (fetch_within (P := rpc.Silent) fun _ ↦ id).keepsStep_bind hprior
      fun userId prior _ hprior ↦ ?_
    cases userId with
    | none => exact hreturned hprior _
    | some userId =>
      refine keepsStep_issue_bind hprior fun auth ↦ ?_
      cases auth with
      | none => exact hreturned id _
      | some auth =>
        refine keepsStep_issue_bind id fun start ↦ keepsStep_issue_bind id fun rc ↦ ?_
        by_cases hrc : rc = .done
        · rw [if_neg (not_not_intro hrc), if_neg (not_not_intro hrc)]
          exact ⟨iff_of_true rfl hrc, fun hno ↦ absurd rfl hno⟩
        · rw [if_pos hrc, if_pos hrc]
          exact hreturned hrc _

end Service

theorem Crashes.answer {message : ρ → Pb.Message} {p q : Server (Outcome ρ)}
    (h : Crashes rpc p q prior) :
    (answer message p).KeepsStep rpc.asks (answer message q) prior
      (Parts (·.outcome.crashed = true)) := by
  refine KeepsStep.bind_parts h (fun o ho ↦ ⟨_, rfl, ?_⟩) fun o prior ho hprior ↦ ⟨?_, fun _ ↦ rfl⟩
  · exact (o.crashed_map message).trans ho
  · exact iff_of_false (fun h ↦ ho ((o.crashed_map message).symm.trans h)) hprior

/-- **A handler on a null pointer** is the handler on a session, until it asks for the session. -/
theorem dispatch_parts (session : Session) (rpc : Rpc) :
    (dispatch d none rpc).KeepsStep rpc.asks (dispatch d (some session) rpc)
      (rpc.asksAtOnce d = true) (Parts (·.outcome.crashed = true)) := by
  have hno : ¬ false = true := Bool.false_ne_true
  cases rpc with
  | userAuth request =>
    refine (Service.userAuth_parts hno request).bind_parts (fun r hr ↦ ⟨_, rfl, ?_⟩)
      fun r prior hr hprior ↦ ⟨?_, fun _ ↦ rfl⟩
    · exact (r.1.crashed_map _).trans hr
    · exact iff_of_false (fun h ↦ hr ((r.1.crashed_map _).symm.trans h)) hprior
  | userSetPassword request =>
    refine Crashes.answer ?_
    rw [Service.userSetPassword, Service.userSetPassword, Rpc.asksAtOnce]
    cases Service.userCheckPassword d request.newPassword with
    | some msg => exact Service.within_crashes (p := .done _) rfl hno
    | none => exact Service.authenticateUser_crashes rfl
  | serviceInfo =>
    exact (Service.within_crashes (p := Service.serviceInfo d) ⟨fun _ ↦ id, fun _ ↦ rfl⟩ hno).answer
  | userCreate request =>
    exact (Service.within_crashes (Service.userCreate_silent request) hno).answer
  | groupGetInfo request =>
    exact (Service.within_crashes (Service.groupGetInfo_silent request) hno).answer
  | groupsList =>
    exact (Service.within_crashes (p := Service.groupsList) ⟨fun _ ↦ id, fun _ ↦ rfl⟩ hno).answer
  | groupListMembers request =>
    exact (Service.within_crashes (p := Service.groupListMembers request)
      ⟨fun _ ↦ id, fun _ ↦ rfl⟩ hno).answer
  | reposList => exact (Service.within_crashes Service.reposList_silent hno).answer
  | shellControl request =>
    exact (Service.within_crashes (Service.shellControl_silent rfl request) hno).answer
  | repoGetInfo request => exact (Service.repoGetInfo_crashes hno request).answer
  | repoListMembers request =>
    refine Crashes.answer (Service.checkPublicRepo_crashes rfl hno fun repoId ↦ ?_)
    exact ⟨fun _ ↦ id, fun _ ↦ ⟨fun _ ↦ id, fun _ ↦ rfl⟩⟩
  | repoListBranches request => exact (Service.gitView_crashes rfl hno fun _ ↦ rfl).answer
  | repoGetTags request => exact (Service.gitView_crashes rfl hno fun _ ↦ rfl).answer
  | repoGetCommit request =>
    refine (Service.gitView_crashes rfl hno fun repo ↦ ?_).answer
    cases Service.lookupRevision repo request.revision <;> rfl
  | repoGetLog request => exact (Service.repoGetLog_crashes hno request).answer
  | repoGetTree request => exact (Service.repoGetTree_crashes hno request).answer
  | repoGetBlob request => exact (Service.repoGetBlob_crashes hno request).answer
  | repoGetPatch request => exact (Service.repoGetPatch_crashes hno request).answer
  -- every other handler begins with `AUTHENTICATE_USER`
  | _ => exact (Service.authenticateUser_crashes rfl).answer

end Handlers

/-! ## The process -/

/-- A request or a call in the hands of its handler. -/
structure Serving where
  /-- The session object of the request with its number; a call on the socket has none. -/
  session : Option (ℕ × Session)
  rpc : Rpc
  /-- The operations so far, each with its choice and the world it met. -/
  record : List (Env × World)

namespace Serving

/-- What is left of the handler. The model of a call on the socket ends where it asks for the
session. -/
def program (d : Deployment) (s : Serving) : Server Reply :=
  (dispatch d (s.session.map (·.2)) s.rpc).replay s.record

/-- The handler has called `threadSession()`: on a null pointer it would have crashed by now. -/
def CallsThreadSession (d : Deployment) (s : Serving) : Prop :=
  ((dispatch d none s.rpc).replay s.record).Ends (·.outcome.crashed = true)

end Serving

/-- What a thread is doing. -/
inductive Activity
  | idle
  /-- `Session session(request, response)`; the pointer still has its old value. -/
  | constructing (rpc : Rpc) (constructor : Server Session)
  | handling (s : Serving)

/-- The session object of the request being served. -/
def Activity.object : Activity → Option (ℕ × Session)
  | handling s => s.session
  | _ => none

/-- scissyd. -/
structure Process (ι : Type) where
  /-- `thread_local Session * thread_session`, the number of an object or null. -/
  threadSession : ι → Option ℕ
  activity : ι → Activity
  /-- The session objects that exist. -/
  sessions : List (ℕ × Session)
  /-- The number of the next one. -/
  next : ℕ
  world : World

namespace Process

variable {ι : Type}

/-- All threads have just started. -/
def start (w : World) : Process ι where
  threadSession _ := none
  activity _ := .idle
  sessions := []
  next := 0
  world := w

def object (c : Process ι) (i : ι) : Option (ℕ × Session) := (c.activity i).object

/-- **The session pointers are right.** Whenever a handler has called `threadSession()`, the pointer
of its thread designates the session of the request being served, which exists. -/
def Designates (d : Deployment) (c : Process ι) : Prop :=
  ∀ i s, c.activity i = .handling s → s.CallsThreadSession d →
    ∃ object ∈ c.sessions, s.session = some object ∧ c.threadSession i = some object.1

/-- The invariant of the pointers: each points to the object its thread serves, and threads serve
different objects. -/
structure Wf (c : Process ι) : Prop where
  pointer : ∀ i object, c.object i = some object →
    c.threadSession i = some object.1 ∧ object ∈ c.sessions
  old : ∀ object ∈ c.sessions, object.1 < c.next
  own : ∀ i j object object', c.object i = some object → c.object j = some object' →
    object.1 = object'.1 → i = j

theorem wf_start (w : World) : (start w : Process ι).Wf where
  pointer := by
    rintro i object ⟨⟩
  old := by
    intro object hmem
    cases hmem
  own := by
    rintro i j object object' ⟨⟩

/-- If a call on the socket is being served, it has not called `threadSession()`. -/
def KeptAway (d : Deployment) (a : Activity) : Prop :=
  ∀ s, a = .handling s → s.session = none → ¬ s.CallsThreadSession d

variable {d : Deployment} {c : Process ι}

/-- An HTTP request finds its own session at any time. -/
theorem Wf.designates_iff_keptAway (h : c.Wf) :
    c.Designates d ↔ ∀ i, KeptAway d (c.activity i) := by
  constructor
  · intro hdesignates i s hs hnone hcalls
    obtain ⟨object, -, hobject, -⟩ := hdesignates i s hs hcalls
    rw [hnone] at hobject
    cases hobject
  · intro haway i s hs hcalls
    cases hobject : s.session with
    | none => exact absurd hcalls (haway i s hs hobject)
    | some object =>
      have hi : c.object i = some object := by
        rw [Process.object, hs]
        exact hobject
      obtain ⟨hpointer, hmem⟩ := h.pointer i object hi
      exact ⟨object, hmem, rfl, hpointer⟩

theorem keptAway_handling {s : Serving} :
    KeptAway d (.handling s) ↔ (s.session = none → ¬ s.CallsThreadSession d) :=
  ⟨fun h ↦ h s rfl, by rintro h _ ⟨⟩; exact h⟩

/-! ## Events -/

/-- Something a thread does. -/
inductive Event (ι : Type)
  /-- Take an HTTP request under `/api/`. -/
  | http (i : ι) (cookies : Cookies) (isSsl : Bool) (rpc : Rpc)
  /-- Take a call from the socket. -/
  | socket (i : ι) (rpc : Rpc)
  /-- Go on with what it is doing. -/
  | turn (i : ι) (e : Env)

variable [DecidableEq ι]

/-- Thread `i` goes on to `a`, in the world `w`. -/
def goOn (c : Process ι) (i : ι) (a : Activity) (w : World) : Process ι :=
  { c with activity := Function.update c.activity i a, world := w }

/-- The rest of `SessionHandler::handle`, once the session has been constructed. -/
def enter (c : Process ι) (i : ι) (session : Session) (rpc : Rpc) : Process ι where
  threadSession := Function.update c.threadSession i (some c.next)
  activity := Function.update c.activity i (.handling ⟨some (c.next, session), rpc, []⟩)
  sessions := (c.next, session) :: c.sessions
  next := c.next + 1
  world := c.world

/-- The handler has returned. Its session goes out of scope, and the pointer keeps its value. -/
def leave (c : Process ι) (i : ι) (s : Serving) : Process ι :=
  { c with
    activity := Function.update c.activity i .idle
    sessions := c.sessions.filter fun object ↦ decide (s.session.map (·.1) ≠ some object.1) }

def step (d : Deployment) (c : Process ι) : Event ι → Process ι
  | .http i cookies isSsl rpc =>
    match c.activity i with
    | .idle => c.goOn i (.constructing rpc (Session.auth cookies isSsl)) c.world
    | _ => c
  | .socket i rpc =>
    match c.activity i with
    | .idle => c.goOn i (.handling ⟨none, rpc, []⟩) c.world
    | _ => c
  | .turn i e =>
    match c.activity i with
    | .idle => c
    | .constructing rpc (.done session) => c.enter i session rpc
    | .constructing rpc (.call op next) =>
      let r := Interp.exec op e c.world
      c.goOn i (.constructing rpc (next r.1)) r.2
    | .handling s =>
      match s.program d with
      | .done _ => c.leave i s
      | .call op _ =>
        c.goOn i (.handling { s with record := s.record ++ [(e, c.world)] })
          (Interp.exec op e c.world).2

/-- The event does not lead a call on the socket to its session: the call does not ask for it at
once, and its next operation does not get an answer after which it does. -/
def KeepsAway (d : Deployment) (c : Process ι) : Event ι → Prop
  | .http .. => True
  | .socket i rpc => c.activity i = .idle → rpc.asksAtOnce d = false
  | .turn i e => ∀ s, c.activity i = .handling s → s.session = none →
    ∀ {β : Type} (op : Op β) next, s.program d = .call op next →
      ¬ s.rpc.LeadsToSession e c.world op

/-! ## The invariant -/

section Invariant

variable {i : ι}

theorem object_update (c' : Process ι) {a : Activity}
    (h : c'.activity = Function.update c.activity i a) :
    c'.object = Function.update c.object i a.object := by
  funext j
  rw [object, h, Function.apply_update fun _ ↦ Activity.object]
  rfl

theorem Wf.goOn (h : c.Wf) {a : Activity} (ha : a.object = c.object i) (w : World) :
    (c.goOn i a w).Wf := by
  have hobject : (c.goOn i a w).object = c.object := by
    rw [object_update (c := c) (c.goOn i a w) rfl, ha, Function.update_eq_self]
  refine ⟨?_, h.old, ?_⟩
  · rw [hobject]
    exact h.pointer
  · rw [hobject]
    exact h.own

theorem Wf.enter (h : c.Wf) (session : Session) (rpc : Rpc) : (c.enter i session rpc).Wf := by
  have hobject : (c.enter i session rpc).object =
      Function.update c.object i (some (c.next, session)) :=
    object_update (c := c) (a := .handling ⟨some (c.next, session), rpc, []⟩) _ rfl
  -- no other thread serves an object with the new number
  have hnew {j : ι} {object : ℕ × Session} (hj : c.object j = some object) : object.1 ≠ c.next :=
    (h.old _ (h.pointer j object hj).2).ne
  refine ⟨fun j object hj ↦ ?_, fun object hmem ↦ ?_, fun j k object object' hj hk heq ↦ ?_⟩
  · rw [hobject] at hj
    by_cases hji : j = i
    · rw [hji, Function.update_self, Option.some_inj] at hj
      rw [hji, ← hj]
      exact ⟨Function.update_self _ _ _, List.mem_cons_self⟩
    · rw [Function.update_of_ne hji] at hj
      obtain ⟨hpointer, hmem⟩ := h.pointer j object hj
      exact ⟨(Function.update_of_ne hji _ _).trans hpointer, List.mem_cons_of_mem _ hmem⟩
  · rcases List.mem_cons.mp hmem with rfl | hmem
    · exact Nat.lt_succ_self _
    · exact Nat.lt_succ_of_lt (h.old object hmem)
  · rw [hobject] at hj hk
    by_cases hji : j = i
    · by_cases hki : k = i
      · rw [hji, hki]
      · rw [hji, Function.update_self, Option.some_inj] at hj
        rw [Function.update_of_ne hki] at hk
        rw [← hj] at heq
        exact absurd heq.symm (hnew hk)
    · rw [Function.update_of_ne hji] at hj
      by_cases hki : k = i
      · rw [hki, Function.update_self, Option.some_inj] at hk
        rw [← hk] at heq
        exact absurd heq (hnew hj)
      · rw [Function.update_of_ne hki] at hk
        exact h.own j k object object' hj hk heq

theorem Wf.leave (h : c.Wf) {s : Serving} (hs : c.activity i = .handling s) :
    (c.leave i s).Wf := by
  have hobject {j : ι} {object : ℕ × Session} (hj : (c.leave i s).object j = some object) :
      j ≠ i ∧ c.object j = some object := by
    rw [object_update (c := c) (c.leave i s) rfl] at hj
    by_cases hji : j = i
    · rw [hji, Function.update_self] at hj
      cases hj
    · exact ⟨hji, by rwa [Function.update_of_ne hji] at hj⟩
  refine ⟨fun j object hj ↦ ?_, fun object hmem ↦ ?_, fun j k object object' hj hk heq ↦ ?_⟩
  · obtain ⟨hji, hj⟩ := hobject hj
    obtain ⟨hpointer, hmem⟩ := h.pointer j object hj
    refine ⟨hpointer, List.mem_filter.mpr ⟨hmem, decide_eq_true fun heq ↦ hji ?_⟩⟩
    -- the object destroyed is the one thread `i` serves
    obtain ⟨object', hobject', hnumber⟩ := Option.map_eq_some_iff.mp heq
    refine h.own j i object object' hj ?_ hnumber.symm
    rw [Process.object, hs]
    exact hobject'
  · exact h.old object (List.mem_filter.mp hmem).1
  · exact h.own j k object object' (hobject hj).2 (hobject hk).2 heq

theorem Wf.step (h : c.Wf) (event : Event ι) : (c.step d event).Wf := by
  cases event with
  | http i cookies isSsl rpc =>
    rw [Process.step]
    cases hi : c.activity i with
    | idle => exact h.goOn (by rw [object, hi]; rfl) c.world
    | _ => exact h
  | socket i rpc =>
    rw [Process.step]
    cases hi : c.activity i with
    | idle => exact h.goOn (by rw [object, hi]; rfl) c.world
    | _ => exact h
  | turn i e =>
    rw [Process.step]
    cases hi : c.activity i with
    | idle => exact h
    | constructing rpc constructor =>
      cases constructor with
      | done session => exact h.enter session rpc
      | call op next => exact h.goOn (by rw [object, hi]; rfl) _
    | handling s =>
      dsimp only
      cases s.program d with
      | done reply => exact h.leave hi
      | call op next => exact h.goOn (by rw [object, hi]; rfl) _

/-! ## Calls on the socket -/

theorem forall_keptAway_update (h : ∀ i, KeptAway d (c.activity i)) (a : Activity) :
    (∀ j, KeptAway d (Function.update c.activity i a j)) ↔ KeptAway d a := by
  rw [Function.forall_update_iff (p := fun _ ↦ KeptAway d)]
  exact and_iff_left fun j _ ↦ h j

theorem keptAway_step_iff (h : ∀ i, KeptAway d (c.activity i)) (event : Event ι) :
    (∀ i, KeptAway d ((c.step d event).activity i)) ↔ c.KeepsAway d event := by
  cases event with
  | http i cookies isSsl rpc =>
    refine iff_of_true ?_ trivial
    rw [step]
    cases c.activity i with
    | idle =>
      refine (forall_keptAway_update h _).mpr ?_
      rintro s ⟨⟩
    | _ => exact h
  | socket i rpc =>
    rw [step, KeepsAway]
    cases c.activity i with
    | idle =>
      refine (forall_keptAway_update h _).trans (keptAway_handling.trans ?_)
      refine (imp_iff_right rfl).trans (Iff.trans ?_ (imp_iff_right rfl).symm)
      rw [Serving.CallsThreadSession, replay_nil, (dispatch_parts {} rpc).ends_iff,
        Bool.not_eq_true]
    | _ =>
      refine iff_of_true h ?_
      rintro ⟨⟩
  | turn i e =>
    rw [step, KeepsAway]
    cases c.activity i with
    | idle =>
      refine iff_of_true h ?_
      rintro s ⟨⟩
    | constructing rpc constructor =>
      refine iff_of_true ?_ ?_
      · cases constructor with
        | done session =>
          refine (forall_keptAway_update h _).mpr (keptAway_handling.mpr ?_)
          rintro ⟨⟩
        | call op next =>
          refine (forall_keptAway_update h _).mpr ?_
          rintro s ⟨⟩
      · rintro s ⟨⟩
    | handling s =>
      dsimp only
      cases hprogram : s.program d with
      | done reply =>
        refine iff_of_true ((forall_keptAway_update h _).mpr ?_) ?_
        · rintro s ⟨⟩
        · rintro _ ⟨⟩ - β op next hcall
          rw [hprogram] at hcall
          cases hcall
      | call op next =>
        refine (forall_keptAway_update h _).trans (keptAway_handling.trans ?_)
        -- on the socket, what is left of the handler is what it does with a null pointer
        have hcalls (hnone : s.session = none) :
            Serving.CallsThreadSession d { s with record := s.record ++ [(e, c.world)] } ↔
              s.rpc.LeadsToSession e c.world op := by
          rw [Serving.program, hnone] at hprogram
          exact ((dispatch_parts {} s.rpc).ends_replay_concat_iff hprogram e c.world).trans
            (s.rpc.asks_iff_leadsToSession op e c.world)
        constructor
        · rintro hkept _ ⟨⟩ hnone β' op' next' hcall
          rw [hprogram] at hcall
          cases hcall
          exact (hcalls hnone).not.mp (hkept hnone)
        · intro haway hnone
          exact (hcalls hnone).not.mpr (haway s rfl hnone op next hprogram)

end Invariant

/-- **Exactly when the session pointers are right.** In every run from the start, they are right in
every state reached if and only if no event leads a call on the socket to its session. -/
theorem forall_reached_designates_iff (d : Deployment) (w : World) (events : List (Event ι)) :
    (∀ c ∈ reached (step d) (start w) events, c.Designates d) ↔
      Along (step d) (KeepsAway d) (start w) events := by
  refine forall_reached_iff (I := Wf) (fun c event h ↦ h.step event) ?_ (wf_start w) ?_ events
  · intro c event h hdesignates
    rw [(h.step event).designates_iff_keptAway]
    exact keptAway_step_iff (h.designates_iff_keptAway.mp hdesignates) event
  · refine (wf_start w).designates_iff_keptAway.mpr ?_
    rintro i s ⟨⟩

/-- `userGetSession` on the socket reads the null pointer. After an HTTP request has been served on
the same thread, it reads the session of that request, which has been destroyed. -/
theorem not_designates :
    let call : Event ℕ := .socket 0 .userGetSession
    let request : List (Event ℕ) :=
      [.http 0 {} false .serviceInfo, .turn 0 {}, .turn 0 {}, .turn 0 {}, call]
    let c := (start .initial).step .plain call
    let c' := request.foldl (step .plain) (start .initial)
    (c ∈ reached (step .plain) (start .initial) [call] ∧ c.threadSession 0 = none ∧
        ¬ c.Designates .plain) ∧
      c' ∈ reached (step .plain) (start .initial) request ∧ c'.threadSession 0 = some 0 ∧
        c'.sessions = [] ∧ ¬ c'.Designates .plain := by
  intro call request c c'
  have hnone {v : Process ℕ} (hactivity : v.activity 0 = .handling ⟨none, .userGetSession, []⟩) :
      ¬ v.Designates .plain := by
    intro h
    obtain ⟨object, -, hobject, -⟩ := h 0 _ hactivity rfl
    cases hobject
  refine ⟨⟨List.mem_cons_of_mem _ (List.mem_singleton_self _), rfl, hnone rfl⟩, ?_, rfl, rfl,
    hnone rfl⟩
  iterate 5 apply List.mem_cons_of_mem
  exact List.mem_singleton_self _

end Process

end Scissy
