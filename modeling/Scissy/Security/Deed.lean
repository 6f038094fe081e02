import Scissy.Access.Row
import Scissy.Security.Mediation

/-!
# Deeds

When something is different after the threads of the server have worked on any number of jobs, in
any order of their operations, then some job did it, and had the right to. So a difference can be
read back to the request that asked for it and to the user whom the cookies of that request
identified.

## Two parts of a run

A run is cut in two, `s₁ ++ s₂`. What held after `s₁` and no longer holds after `s₁ ++ s₂` was ended
by one operation, in the second part (`exists_op`, `exists_write`). The cut is the moment that
"afterwards" and "in between" refer to: it can lie anywhere, also right after some operation of the
run, and then the deeds before it are no excuse.

## What a deed is

A `Deed` is an operation that a request has executed in the second part, with the session that its
cookies identified. It carries everything the request did before, in both parts, for that is what
its right to the operation rests on: the request may have been admitted before the moment and act
after it.
-/

open Interaction Interaction.Prog

namespace Scissy

/-! ## The caller -/

/-- The cookies carry a token that is stored for the user. -/
def Database.StoredFor (db : Database) (cookies : Cookies) (userId : ℤ) : Prop :=
  ∃ login token r, cookies = { user := some login, token := some token } ∧
    db.Stored login token r ∧ r.1.1 = userId

/-- The session is that of a stored token, which the cookies carry. -/
def Database.Opens (db : Database) (request : HttpRequest) (session : Session) : Prop :=
  ∃ r, request.cookies = { user := some session.user, token := some session.token } ∧
    db.Stored session.user session.token r ∧ r.1.1 = session.userId

namespace Job

variable {d : Deployment} {job : Job} {past : Past} {request : HttpRequest} {session : Session}
  {s : Write}

/-- The call a job makes. -/
def rpc? : Job → Option Rpc
  | http { target := .api rpc, .. } => some rpc
  | http _ => none
  | socket rpc => some rpc

/-- Who may write: anybody, somebody with a session, or somebody who logs out. -/
theorem authorized_write (h : job.Authorized d past (.write s)) :
    (∃ rpc, job.rpc? = some rpc ∧ s.Open d past rpc) ∨
      ∃ request session, job = http request ∧ Identified past request session ∧
        ((∃ rpc, request.target = .api rpc ∧ s.Permitted session past rpc) ∨
          request.target = .logout ∧ s = .deleteUserAuth session.userId session.token) := by
  cases job with
  | socket rpc =>
    rcases h with hopen | ⟨session, hsession, -⟩
    · exact Or.inl ⟨rpc, rfl, hopen⟩
    · cases hsession
  | http request =>
    obtain ⟨cookies, isSsl, target⟩ := request
    obtain ⟨session, hidentified, h⟩ := h.resolve_left Bool.false_ne_true
    cases target with
    | api rpc =>
      rcases h with hopen | ⟨session', hsession, hpermitted⟩
      · exact Or.inl ⟨rpc, rfl, hopen⟩
      · obtain rfl := Option.some_inj.mp hsession
        exact Or.inr ⟨_, session, rfl, hidentified, Or.inl ⟨rpc, rfl, hpermitted⟩⟩
    | logout => exact Or.inr ⟨_, session, rfl, hidentified, Or.inr ⟨rfl, h⟩⟩
    | archive location =>
      obtain ⟨_, -, ⟨⟩⟩ := h

/-- A session that is not anonymous comes from a token that was stored. -/
theorem Identified.opened (h : Identified past request session)
    (hvalid : ∀ event ∈ past, event.before.db.Valid)
    (hne : session ≠ { isSsl := request.isSsl }) :
    past.Saw fun w ↦ w.db.Opens request session := by
  rcases h with h | ⟨event, hmem, hevent⟩
  · -- not even an empty database would do without a token
    rcases Database.valid_initial.session_cases request.cookies request.isSsl with
      ⟨hs, -⟩ | ⟨login, token, r, -, hr, -⟩
    · exact absurd ((h .initial).symm.trans hs) hne
    · exact absurd hr.1 List.not_mem_nil
  · refine ⟨event, hmem, ?_⟩
    rcases (hvalid event hmem).session_cases request.cookies request.isSsl with
      ⟨hs, -⟩ | ⟨login, token, r, hcookies, hr, hs⟩
    · exact absurd (hevent.symm.trans hs) hne
    · rw [← hevent, hs]
      exact ⟨r, hcookies, hr, rfl⟩

theorem ne_anonymous_of_pos (hpos : 0 < session.userId) (isSsl : Bool) :
    session ≠ { isSsl } := by
  rintro rfl
  exact absurd hpos (lt_irrefl 0)

end Job

theorem Database.Opens.storedFor {db : Database} {request : HttpRequest} {session : Session}
    (h : db.Opens request session) : db.StoredFor request.cookies session.userId := by
  obtain ⟨r, hcookies, hr, huser⟩ := h
  exact ⟨_, _, r, hcookies, hr, huser⟩

/-- Nobody admits somebody anonymous. -/
theorem Gate.not_admits_anonymous {gate : Gate} {db : Database} (h : db.Valid) (isSsl : Bool) :
    ¬ gate.Admits { isSsl } db := by
  have hnobody : (0 : ℤ) ∉ db.users.ids := fun hmem ↦
    absurd (Relational.AutoTable.pos_of_mem_ids hmem) (lt_irrefl 0)
  cases gate with
  | group groupId =>
    rintro (hrole | ⟨row, hrow, -, huser, -⟩)
    · exact absurd hrole (show (0 : ℤ) ≠ 3 by decide)
    · have hzero : row.userId = 0 := huser
      exact hnobody (hzero ▸ h.groupsUsers_user row hrow)
  | repo repoId =>
    intro howner
    rw [Gate.Admits, h.reportedRole_of_notMem_users hnobody] at howner
    exact absurd howner (by decide)

theorem Gate.ne_anonymous_of_knew {gate : Gate} {past : Past} {session : Session}
    (h : past.Knew fun db ↦ gate.Admits session db)
    (hvalid : ∀ event ∈ past, event.before.db.Valid) (isSsl : Bool) : session ≠ { isSsl } := by
  rintro rfl
  rcases h with h | ⟨event, hmem, hevent⟩
  · exact gate.not_admits_anonymous Database.valid_initial isSsl (h .initial)
  · exact gate.not_admits_anonymous (hvalid event hmem) isSsl hevent

/-! ## The run -/

section Run

variable {d : Deployment} {jobs : ℕ → Job} {w : World} {s s₁ s₂ : List (ℕ × Env)} {k : ℕ}

/-- The world after a part of a run. -/
abbrev worldAfter (d : Deployment) (jobs : ℕ → Job) (w : World) (s : List (ℕ × Env)) : World :=
  ((System.serving d jobs w).run s).world

/-- What a thread has done in a part of a run. -/
abbrev pastOf (d : Deployment) (jobs : ℕ → Job) (w : World) (s : List (ℕ × Env)) (k : ℕ) : Past :=
  (System.serving d jobs w).events k s

theorem worldAfter_valid (hw : w.db.Valid) (s : List (ℕ × Env)) :
    (worldAfter d jobs w s).db.Valid :=
  Pool.run_world_invariant (I := fun v : World ↦ v.db.Valid) exec_valid
    (c := System.serving d jobs w) hw s

theorem serving_valid (hw : w.db.Valid) {event : Event Op World} (h : event ∈ pastOf d jobs w s k) :
    event.before.db.Valid :=
  Pool.invariant_of_mem_events exec_valid (I := fun w : World ↦ w.db.Valid) hw h

/-- What the thread has done before an event is a part of what it has done. -/
theorem past_subset {past later : Past} {event : Event Op World}
    (hs : pastOf d jobs w s k = past ++ event :: later) : past ⊆ pastOf d jobs w s k :=
  hs ▸ List.subset_append_left past _

theorem pastOf_subset (s₁ s₂ : List (ℕ × Env)) :
    pastOf d jobs w s₁ k ⊆ pastOf d jobs w (s₁ ++ s₂) k := by
  rw [pastOf, pastOf, Pool.events_append]
  exact List.subset_append_left _ _

/-- Only threads that have had a turn have done something. -/
theorem forall_mem_pastOf {R : World → World → Prop} (n : ℕ) (hs : ∀ turn ∈ s, turn.1 < n)
    (h : ∀ k < n, ∀ event ∈ pastOf d jobs w s k, R event.before event.after) (k : ℕ) :
    ∀ event ∈ pastOf d jobs w s k, R event.before event.after := by
  by_cases hk : k < n
  · exact h k hk
  · rw [pastOf, Pool.events_of_notMem]
    · exact List.forall_mem_nil _
    · intro hmem
      obtain ⟨turn, hturn, rfl⟩ := List.mem_map.mp hmem
      exact hk (hs turn hturn)

/-- **What no longer holds of the world, a job has undone**, with an operation that it was allowed
to perform. -/
theorem exists_op (hw : w.db.Valid) {P : World → Prop} (h : P (worldAfter d jobs w s₁))
    (h' : ¬ P (worldAfter d jobs w (s₁ ++ s₂))) :
    ∃ (k : ℕ) (mid : Past) (β : Type) (op : Op β) (e : Env) (v : World) (later : Past),
      ((System.serving d jobs w).run s₁).events k s₂ = mid ++ .of op e v :: later ∧ v.db.Valid ∧
        P v ∧ ¬ P (Interp.exec op e v).2 ∧
        (jobs k).Authorized d (pastOf d jobs w s₁ k ++ mid) op := by
  rw [worldAfter, Pool.run_append] at h'
  obtain ⟨k, mid, β, op, e, v, later, hs, hchange⟩ :=
    Pool.exists_event_of_not_rel (R := fun v v' : World ↦ P v → P v') (fun _ ↦ id)
      (fun h h' ↦ h' ∘ h) fun hkeeps ↦ h' (hkeeps h)
  obtain ⟨hP, hP'⟩ := Classical.not_imp.mp hchange
  have hrun : pastOf d jobs w (s₁ ++ s₂) k =
      (pastOf d jobs w s₁ k ++ mid) ++ .of op e v :: later := by
    rw [pastOf, Pool.events_append, hs, List.append_assoc]
  refine ⟨k, mid, β, op, e, v, later, hs, ?_, hP, hP', ?_⟩
  · exact serving_valid hw (hrun ▸ List.mem_append_right _ List.mem_cons_self)
  · exact Pool.allowed_of_events (c := System.serving d jobs w) exec_valid hw (jobs k).obeys hrun

/-- The same for the tables, which only a statement changes. -/
theorem exists_write (hw : w.db.Valid) {P : Database → Prop} (h : P (worldAfter d jobs w s₁).db)
    (h' : ¬ P (worldAfter d jobs w (s₁ ++ s₂)).db) :
    ∃ k mid stmt e v later, ((System.serving d jobs w).run s₁).events k s₂ =
        mid ++ .of (.write stmt) e v :: later ∧ v.db.Valid ∧ P v.db ∧
      ¬ P (v.write e stmt).2.db ∧ stmt.Effect e.now v.db (v.write e stmt).2.db ∧
      (jobs k).Authorized d (pastOf d jobs w s₁ k ++ mid) (.write stmt) := by
  obtain ⟨k, mid, β, op, e, v, later, hs, hvalid, hP, hP', hallowed⟩ :=
    exists_op hw (P := fun v ↦ P v.db) h h'
  cases op with
  | write stmt =>
    refine ⟨k, mid, stmt, e, v, later, hs, hvalid, hP, hP', ?_, hallowed⟩
    rcases World.write_spec stmt e v with ⟨-, -, heffect, -⟩ | ⟨-, hsame⟩
    · exact heffect
    · rw [exec_write, hsame] at hP'
      exact absurd hP hP'
  | gitRepositoryInit path =>
    rw [exec_gitRepositoryInit_db] at hP'
    exact absurd hP hP'
  | _ => exact absurd hP hP'

/-! ## What somebody has done -/

/-- A request has executed the operation in the second part of a run. -/
structure Deed (d : Deployment) (jobs : ℕ → Job) (w : World) (s₁ s₂ : List (ℕ × Env))
    (target : Target) {β : Type} (op : Op β) where
  thread : ℕ
  request : HttpRequest
  session : Session
  /-- What the request did in the second part before. -/
  mid : Past
  env : Env
  world : World
  later : Past
  jobs_eq : jobs thread = .http request
  target_eq : request.target = target
  events_eq : ((System.serving d jobs w).run s₁).events thread s₂ =
    mid ++ .of op env world :: later
  identified : Job.Identified (pastOf d jobs w s₁ thread ++ mid) request session

namespace Deed

variable {target : Target} {β : Type} {op : Op β} {stmt : Write}

/-- What the request had done when it executed the operation. -/
def past (deed : Deed d jobs w s₁ s₂ target op) : Past := pastOf d jobs w s₁ deed.thread ++ deed.mid

/-- The world after the deed. -/
def after (deed : Deed d jobs w s₁ s₂ target op) : World :=
  (Interp.exec op deed.env deed.world).2

/-- The deed is that of a user: a token of the session was stored, and the cookies carried it. -/
def ByUser (deed : Deed d jobs w s₁ s₂ target op) : Prop :=
  deed.past.Saw (·.db.Opens deed.request deed.session)

/-- The user was admitted as an owner of the group or the repository, or to a group as an
administrator. -/
def ByOwner (deed : Deed d jobs w s₁ s₂ target op) (gate : Gate) : Prop :=
  deed.ByUser ∧ deed.past.Knew fun db ↦ gate.Admits deed.session db

/-- The deed has made an end of something. -/
def Ends (deed : Deed d jobs w s₁ s₂ target op) (P : World → Prop) : Prop :=
  P deed.world ∧ ¬ P deed.after

theorem pastOf_eq (deed : Deed d jobs w s₁ s₂ target op) :
    pastOf d jobs w (s₁ ++ s₂) deed.thread =
      deed.past ++ .of op deed.env deed.world :: deed.later := by
  rw [pastOf, Pool.events_append, deed.events_eq, past, List.append_assoc]

/-- What no operation of a run makes an end of, no deed does. -/
theorem not_ends (deed : Deed d jobs w s₁ s₂ target op) {P : World → Prop} (hs : s = s₁ ++ s₂)
    (h : ∀ k, ∀ event ∈ pastOf d jobs w s k, P event.before → P event.after) :
    ¬ deed.Ends P := fun hends ↦ by
  subst hs
  refine hends.2 (h deed.thread (.of op deed.env deed.world) ?_ hends.1)
  rw [deed.pastOf_eq]
  exact List.mem_append_right _ List.mem_cons_self

theorem valid (deed : Deed d jobs w s₁ s₂ target op) (hw : w.db.Valid) :
    ∀ event ∈ deed.past, event.before.db.Valid := fun _ hmem ↦
  serving_valid hw (past_subset deed.pastOf_eq hmem)

theorem byUser (deed : Deed d jobs w s₁ s₂ target op) (hw : w.db.Valid)
    (hne : deed.session ≠ { isSsl := deed.request.isSsl }) : deed.ByUser :=
  deed.identified.opened (deed.valid hw) hne

theorem byUser_of_pos (deed : Deed d jobs w s₁ s₂ target op) (hw : w.db.Valid)
    (hpos : 0 < deed.session.userId) : deed.ByUser :=
  deed.byUser hw (Job.ne_anonymous_of_pos hpos _)

theorem byOwner (deed : Deed d jobs w s₁ s₂ target op) (hw : w.db.Valid) {gate : Gate}
    (hknew : deed.past.Knew fun db ↦ gate.Admits deed.session db) : deed.ByOwner gate :=
  ⟨deed.byUser hw (Gate.ne_anonymous_of_knew hknew (deed.valid hw) _), hknew⟩

/-- What was done in a part of a run was done in the run. -/
def append (deed : Deed d jobs w s₁ s₂ target op) (s : List (ℕ × Env)) :
    Deed d jobs w s₁ (s₂ ++ s) target op :=
  { deed with
    later := deed.later ++ (((System.serving d jobs w).run s₁).run s₂).events deed.thread s
    events_eq := by
      rw [Pool.events_append, deed.events_eq, List.append_assoc, List.cons_append] }

end Deed

end Run

end Scissy
