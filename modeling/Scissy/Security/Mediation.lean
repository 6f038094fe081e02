import Scissy.Concurrency.Task
import Scissy.Security.Authorization
import Scissy.Server.Footprint

/-!
# Every operation is authorized

`Job.mediated`: whatever the threads of the server do in between, every operation of a request is
one the rules allow after what the request has done before. The proof walks through the handlers
once; each macro has one rule, which hands to the rest of the handler what the macro has seen.

## One walk, one lemma for each handler

A handler is a sequence of macros and operations. The rule of a macro takes what is to be shown of
the rest of the handler, for the past that the macro leaves (`ThenReads`), and for the value it
passes on. So the proof for a handler follows its text, and a handler that is changed needs a new
proof of that handler and no other. The four handlers that give or take a role on a repository
differ in the lookup and the statement, and are one case.

## What the rules are proved with

All that is assumed of the world is that the tables satisfy the schema, whenever an operation is
executed. The other threads keep that. Nothing else is known between two operations of a request, so
the evidence for a later operation is in the past of the request, never in the present world.
-/

open Interaction Interaction.Prog

namespace Scissy

open Repositories (getRepoPath)

/-! ## What stays known -/

namespace Past

variable {past past' : Past} {P P' : Database → Prop}

theorem Saw.mono {P : World → Prop} (h : past.Saw P) (hsub : past ⊆ past') : past'.Saw P := by
  obtain ⟨event, hmem, hP⟩ := h
  exact ⟨event, hsub hmem, hP⟩

theorem Knew.mono (h : past.Knew P) (hsub : past ⊆ past') : past'.Knew P :=
  h.imp_right fun hsaw ↦ hsaw.mono hsub

theorem Got.mono {β : Type} {op : Op β} {answer : β} (h : past.Got op answer)
    (hsub : past ⊆ past') : past'.Got op answer := by
  obtain ⟨e, w, hanswer, hmem⟩ := h
  exact ⟨e, w, hanswer, hsub hmem⟩

theorem Accepted.mono {d : Deployment} {request : Pb.UserAuth} (h : past.Accepted d request)
    (hsub : past ⊆ past') : past'.Accepted d request := by
  unfold Accepted at h ⊢
  split at h
  · exact Saw.mono h hsub
  · exact Got.mono h hsub

theorem CreatedGroup.mono {request : Pb.GroupCreate} {grpId : ℤ}
    (h : past.CreatedGroup request grpId) (hsub : past ⊆ past') :
    past'.CreatedGroup request grpId := ⟨h.1.mono hsub, h.2.mono hsub⟩

theorem CreatedRepo.mono {request : Pb.RepoCreate} {repoId : ℤ}
    (h : past.CreatedRepo request repoId) (hsub : past ⊆ past') :
    past'.CreatedRepo request repoId := ⟨Got.mono h.1 hsub, h.2.mono hsub⟩

/-- After `past` came operations that changed nothing. -/
def ThenReads (past past' : Past) : Prop :=
  ∃ reads : Past, past' = past ++ reads ∧ ∀ event ∈ reads, event.after = event.before

theorem ThenReads.refl (past : Past) : past.ThenReads past :=
  ⟨[], (List.append_nil past).symm, List.forall_mem_nil _⟩

theorem ThenReads.trans {past'' : Past} (h : past.ThenReads past')
    (h' : past'.ThenReads past'') : past.ThenReads past'' := by
  obtain ⟨reads, rfl, hreads⟩ := h
  obtain ⟨reads', rfl, hreads'⟩ := h'
  exact ⟨reads ++ reads', List.append_assoc _ _ _, List.forall_mem_append.mpr ⟨hreads, hreads'⟩⟩

theorem ThenReads.subset (h : past.ThenReads past') : past ⊆ past' := by
  obtain ⟨reads, rfl, -⟩ := h
  exact List.subset_append_left past reads

theorem Saw.knew (h : past.Saw fun w ↦ P w.db) : past.Knew P := Or.inr h

theorem Saw.imp {P P' : World → Prop} (h : past.Saw P) (hP : ∀ w, P w → P' w) : past.Saw P' := by
  obtain ⟨event, hmem, hevent⟩ := h
  exact ⟨event, hmem, hP _ hevent⟩

end Past

/-! ## Operations -/

section Operations

variable {m : Monitor Op World} {past : Past} {β : Type}

theorem issue_obeys {op : Op β} {Q : Past → β → Prop} (hop : ∀ e w, m past (.of op e w))
    (hQ : ∀ b past', past ⊆ past' → past'.Got op b → Q past' b) :
    (issue op).Obeys (fun w : World ↦ w.db.Valid) m Q past := by
  refine fun w e _ ↦ ⟨hop e w, hQ _ _ (List.subset_append_left past _) ⟨e, w, rfl, ?_⟩⟩
  exact List.mem_append_right past List.mem_cons_self

/-- The rule for an operation that changes nothing. -/
theorem read_obeys {op : Op β} {Q : Past → β → Prop} (hop : ∀ e w, m past (.of op e w))
    (hread : ∀ (e : Env) (w : World), (Interp.exec op e w).2 = w)
    (hQ : ∀ b past', past.ThenReads past' → past'.Got op b → Q past' b) :
    (issue op).Obeys (fun w : World ↦ w.db.Valid) m Q past := by
  refine fun w e _ ↦ ⟨hop e w, hQ _ _ ⟨_, rfl, List.forall_mem_singleton.mpr (hread e w)⟩ ?_⟩
  exact ⟨e, w, rfl, List.mem_append_right past List.mem_cons_self⟩

theorem query_obeys {q : Query β} {Q : Past → List β → Prop}
    (hop : ∀ e w, m past (.of (.query q) e w)) (hQ : ∀ rows past', past.ThenReads past' →
      past'.Saw (fun w ↦ w.db.Valid ∧ ∃ pick, q.rows pick w.db = rows) → Q past' rows) :
    (issue (.query q)).Obeys (fun w : World ↦ w.db.Valid) m Q past := by
  intro w e hw
  refine ⟨hop e w, hQ _ _ ⟨[.of (.query q) e w], rfl, List.forall_mem_singleton.mpr rfl⟩
    ⟨.of (.query q) e w, ?_, hw, e.pick, rfl⟩⟩
  exact List.mem_append_right past List.mem_cons_self

theorem fetch_obeys {q : Query β} {Q : Past → Option β → Prop}
    (hop : ∀ e w, m past (.of (.query q) e w)) (hpick : ∀ pick db, q.rows pick db = q.rows 0 db)
    (hQ : ∀ row past', past.ThenReads past' →
      past'.Saw (fun w ↦ w.db.Valid ∧ (q.rows 0 w.db).head? = row) → Q past' row) :
    (fetch q).Obeys (fun w : World ↦ w.db.Valid) m Q past := by
  rw [fetch, obeys_bind]
  refine query_obeys hop fun rows past' hreads hsaw ↦ hQ _ _ hreads (hsaw.imp ?_)
  rintro w ⟨hw, pick, hrows⟩
  exact ⟨hw, by rw [← hrows, hpick pick]⟩

end Operations

/-! ## The rules for the macros -/

section Macros

variable {m : Monitor Op World} {past : Past} {ρ : Type} {Q : Past → Outcome ρ → Prop}

namespace Service

theorem authenticateUser_obeys {thread : Option Session} {k : Pb.Session → Server (Outcome ρ)}
    (hcrash : Q past .crash) (hk : ∀ session, thread = some session →
      (k (userGetSessionHelper session).2).Obeys (fun w : World ↦ w.db.Valid) m Q past) :
    ((authenticateUser thread).orReturn k).Obeys (fun w : World ↦ w.db.Valid) m Q past := by
  cases thread with
  | none => exact hcrash
  | some session => exact hk session rfl

theorem setId_obeys {id? : Option ℤ} {name? : Option Bytes} {getId : Bytes → Query ℤ}
    {unspecified notFound : Outcome ρ} {k : ℤ → Server (Outcome ρ)}
    (hquery : ∀ past {β : Type} (q : Query β), q.readsPassword = false →
      ∀ e w, m past (.of (.query q) e w))
    (hget : ∀ name, (getId name).readsPassword = false)
    (hpick : ∀ name pick db, (getId name).rows pick db = (getId name).rows 0 db)
    (hunspecified : Q past unspecified)
    (hnotFound : ∀ past', past.ThenReads past' → Q past' notFound)
    (hk : ∀ id past', past.ThenReads past' → past'.Knew (·.Names id? name? getId id) →
      (k id).Obeys (fun w : World ↦ w.db.Valid) m Q past') :
    ((setId id? name? (fun name ↦ fetch (getId name)) unspecified notFound).orReturn k).Obeys
      (fun w : World ↦ w.db.Valid) m Q past := by
  match id?, name? with
  | some id, _ => exact hk id past (.refl past) (Or.inl fun _ ↦ Or.inl rfl)
  | none, none => exact hunspecified
  | none, some name =>
    rw [setId, orReturn, obeys_bind, obeys_bind]
    refine fetch_obeys (hquery past _ (hget name)) (hpick name) fun row past' hreads hsaw ↦ ?_
    cases row with
    | none => exact hnotFound past' hreads
    | some id =>
      exact hk id past' hreads (Or.inr (hsaw.imp fun w hw ↦ Or.inr ⟨rfl, name, rfl, hw.2⟩))

theorem isGroupOwner_obeys {session : Session} {groupId : ℤ} {k : Bool → Server (Outcome ρ)}
    (hquery : ∀ past {β : Type} (q : Query β), q.readsPassword = false →
      ∀ e w, m past (.of (.query q) e w))
    (hno : ∀ past', past.ThenReads past' →
      (k false).Obeys (fun w : World ↦ w.db.Valid) m Q past')
    (hyes : ∀ past', past.ThenReads past' →
      past'.Knew (fun db ↦ (Gate.group groupId).Admits session db) →
      (k true).Obeys (fun w : World ↦ w.db.Valid) m Q past') :
    (isGroupOwner (userGetSessionHelper session).2 groupId >>= k).Obeys
      (fun w : World ↦ w.db.Valid) m Q past := by
  rw [isGroupOwner]
  split_ifs with howner
  · exact hyes past (.refl past) (Or.inl fun _ ↦ Or.inl howner)
  · rw [obeys_bind, obeys_bind]
    refine fetch_obeys (hquery past _ rfl) (fun _ _ ↦ rfl) fun row past' hreads hsaw ↦ ?_
    cases row with
    | none => exact hno past' hreads
    | some role =>
      rw [obeys_pure]
      by_cases hrole : role = Pb.Role.kOwner.toInt
      · rw [decide_eq_true hrole]
        refine hyes past' hreads (hsaw.imp fun w hw ↦ Or.inr ?_).knew
        exact Gate.head?_groupGetUserRole_iff.mp (hrole ▸ hw.2)
      · rw [decide_eq_false hrole]
        exact hno past' hreads

theorem checkRepoRole_obeys [Pb.HasStatus ρ] {repoId userId : ℤ} {roleId : Pb.Role}
    {k : Unit → Server (Outcome ρ)}
    (hquery : ∀ past {β : Type} (q : Query β), q.readsPassword = false →
      ∀ e w, m past (.of (.query q) e w))
    (hfailed : ∀ past', past.ThenReads past' →
      Q past' (.returned false (Pb.HasStatus.failure .kFailed (text "database error"))))
    (hrefused : ∀ past', past.ThenReads past' →
      Q past' (reply .kInsufficientRight (text "insufficient rights")))
    (hk : ∀ past', past.ThenReads past' →
      past'.Saw (fun w ↦ roleId ≤ w.db.reportedRole repoId userId) →
      (k ()).Obeys (fun w : World ↦ w.db.Valid) m Q past') :
    ((checkRepoRole repoId userId roleId).orReturn k).Obeys (fun w : World ↦ w.db.Valid) m Q
      past := by
  simp only [orReturn, checkRepoRole, Db.repoGetUserRole, obeys_bind]
  refine query_obeys (hquery past _ rfl) fun rows past' hreads hsaw ↦ ?_
  rw [obeys_pure]
  split_ifs with hok hrole
  · exact hfailed past' hreads
  · exact hrefused past' hreads
  · refine hk past' hreads (hsaw.imp ?_)
    rintro w ⟨hw, pick, rfl⟩
    exact not_lt.mp hrole

theorem verifies_of_head?_builtinAuth {d : Deployment} {db : Database} {request : Pb.UserAuth}
    {salt16 hash16 : Bytes} (hhash : d.base16Decode hash16 =
      d.sha3_512 (d.base16Decode salt16 ++ request.password))
    (hrow : ((Query.builtinAuth request.user).rows 0 db).head? =
      some (text "SHA3-512", salt16, hash16)) : db.Verifies d request := by
  rw [Query.rows, List.head?_map, Option.map_eq_some_iff] at hrow
  obtain ⟨⟨id, user⟩, hfirst, heq⟩ := hrow
  obtain ⟨hmem, hlogin⟩ := List.mem_filter.mp (List.mem_of_head? hfirst)
  obtain ⟨htype, heq⟩ := Prod.mk.inj heq
  obtain ⟨rfl, rfl⟩ := Prod.mk.inj heq
  exact ⟨id, user, hmem, of_decide_eq_true hlogin, htype, hhash⟩

theorem authenticate_obeys {d : Deployment} {request : Pb.UserAuth}
    (hquery : ∀ past e w, m past (.of (.query (.builtinAuth request.user)) e w))
    (hprocess : ∀ past e w, m past (.of (.authProcess request.user request.password) e w)) :
    (authenticate d request).Obeys (fun w : World ↦ w.db.Valid) m (fun past' r ↦
      past.ThenReads past' ∧ (r = .ok () → Past.Accepted past' d request)) past := by
  rw [authenticate]
  cases hmethod : d.authenticator with
  | kAuthBuiltin =>
    dsimp only
    rw [builtinAuth, obeys_bind]
    refine fetch_obeys (hquery past) (fun _ _ ↦ rfl) fun row past' hreads hsaw ↦ ?_
    cases row with
    | none => exact ⟨hreads, fun h ↦ by cases h⟩
    | some row =>
      dsimp only
      split_ifs with htype hhash
      · exact ⟨hreads, fun h ↦ by cases h⟩
      · refine ⟨hreads, fun _ ↦ ?_⟩
        rw [Past.Accepted, hmethod]
        refine hsaw.imp fun w hw ↦ ?_
        refine verifies_of_head?_builtinAuth (not_not.mp hhash) ?_
        rw [hw.2, ← htype]
      · exact ⟨hreads, fun h ↦ by cases h⟩
  | kAuthProcess =>
    dsimp only
    rw [processAuth, obeys_bind]
    refine read_obeys (hprocess past) (fun _ _ ↦ rfl) fun status past' hreads hgot ↦ ?_
    cases status with
    | none => exact ⟨hreads, fun h ↦ by cases h⟩
    | some status =>
      dsimp only
      split_ifs with hstatus
      · refine ⟨hreads, fun _ ↦ ?_⟩
        rw [Past.Accepted, hmethod]
        exact hstatus ▸ hgot
      · exact ⟨hreads, fun h ↦ by cases h⟩

end Service

end Macros

/-! ## Calls that follow the rules -/

/-- The program follows the rules for a call. -/
abbrev Follows {α : Type} (d : Deployment) (thread : Option Session) (rpc : Rpc)
    (Q : Past → α → Prop) (p : Server α) (past : Past) : Prop :=
  p.Obeys (fun w : World ↦ w.db.Valid) (fun past event ↦ event.op.Authorized d thread past rpc) Q
    past

/-- No claim about the value that is returned. -/
abbrev anything {α : Type} (_ : Past) (_ : α) : Prop := True

section Rules

variable {d : Deployment} {thread : Option Session} {session : Session} {rpc : Rpc} {past : Past}
  {β ρ : Type}

theorem issue_follows {op : Op β} {Q : Past → β → Prop} (hop : op.Authorized d thread past rpc)
    (hQ : ∀ b past', past ⊆ past' → past'.Got op b → Q past' b) :
    Follows d thread rpc Q (issue op) past := issue_obeys (fun _ _ ↦ hop) hQ

theorem authorized_query {q : Query β} (hq : q.readsPassword = false) :
    (Op.query q).Authorized d thread past rpc := by
  cases q <;> trivial

theorem fetch_follows {q : Query β} {Q : Past → Option β → Prop} (hq : q.readsPassword = false)
    (hpick : ∀ pick db, q.rows pick db = q.rows 0 db) (hQ : ∀ row past', past ⊆ past' →
      past'.Saw (fun w ↦ w.db.Valid ∧ (q.rows 0 w.db).head? = row) → Q past' row) :
    Follows d thread rpc Q (fetch q) past :=
  fetch_obeys (fun _ _ ↦ authorized_query hq) hpick fun row past' hreads ↦
    hQ row past' hreads.subset

namespace Service

theorem authenticateUser_follows {k : Pb.Session → Server (Outcome ρ)}
    (hk : ∀ session, thread = some session →
      Follows d thread rpc anything (k (userGetSessionHelper session).2) past) :
    Follows d thread rpc anything ((authenticateUser thread).orReturn k) past :=
  authenticateUser_obeys trivial hk

theorem setId_follows {id? : Option ℤ} {name? : Option Bytes} {getId : Bytes → Query ℤ}
    {unspecified notFound : Outcome ρ} {k : ℤ → Server (Outcome ρ)}
    (hget : ∀ name, (getId name).readsPassword = false)
    (hpick : ∀ name pick db, (getId name).rows pick db = (getId name).rows 0 db)
    (hk : ∀ id past', past ⊆ past' → past'.Knew (·.Names id? name? getId id) →
      Follows d thread rpc anything (k id) past') :
    Follows d thread rpc anything
      ((setId id? name? (fun name ↦ fetch (getId name)) unspecified notFound).orReturn k) past :=
  setId_obeys (fun _ _ _ hq _ _ ↦ authorized_query hq) hget hpick trivial (fun _ _ ↦ trivial)
    fun id past' hreads ↦ hk id past' hreads.subset

theorem isGroupOwner_follows {groupId : ℤ} {k : Bool → Server (Outcome ρ)}
    (hno : ∀ past', Follows d thread rpc anything (k false) past')
    (hyes : ∀ past', past ⊆ past' → past'.Knew (fun db ↦ (Gate.group groupId).Admits session db) →
      Follows d thread rpc anything (k true) past') :
    Follows d thread rpc anything
      (isGroupOwner (userGetSessionHelper session).2 groupId >>= k) past :=
  isGroupOwner_obeys (fun _ _ _ hq _ _ ↦ authorized_query hq) (fun past' _ ↦ hno past')
    fun past' hreads ↦ hyes past' hreads.subset

variable [Pb.HasStatus ρ]

theorem checkRepoRole_follows {repoId userId : ℤ} {roleId : Pb.Role}
    {k : Unit → Server (Outcome ρ)}
    (hk : ∀ past', past ⊆ past' → past'.Saw (fun w ↦ roleId ≤ w.db.reportedRole repoId userId) →
      Follows d thread rpc anything (k ()) past') :
    Follows d thread rpc anything ((checkRepoRole repoId userId roleId).orReturn k) past :=
  checkRepoRole_obeys (fun _ _ _ hq _ _ ↦ authorized_query hq) (fun _ _ ↦ trivial)
    (fun _ _ ↦ trivial) fun past' hreads ↦ hk past' hreads.subset

theorem checkPublicRepo_follows {msg : Pb.RepoRef} {k : ℤ → Server (Outcome ρ)}
    (hk : ∀ repoId past', past ⊆ past' → past'.Knew (·.NamesRepo msg repoId) →
      past'.Readable thread repoId → Follows d thread rpc anything (k repoId) past') :
    Follows d thread rpc anything ((checkPublicRepo thread msg).orReturn k) past := by
  rw [checkPublicRepo, andThen_orReturn]
  refine setId_follows (fun _ ↦ rfl) (fun _ _ _ ↦ rfl) fun repoId past₁ hsub₁ hnamed ↦ ?_
  rw [orReturn, Follows, obeys_bind, obeys_bind]
  refine fetch_follows rfl (fun _ _ ↦ rfl) fun row past₂ hsub₂ hsaw ↦ ?_
  cases row with
  | none => trivial
  | some isPublic =>
    cases isPublic with
    | true =>
      refine hk repoId past₂ (List.Subset.trans hsub₁ hsub₂) (hnamed.mono hsub₂) (Or.inl ?_)
      exact hsaw.imp fun w hw ↦ hw.2
    | false =>
      rw [← obeys_bind, ← orReturn]
      simp only [Bool.not_false, if_true]
      rw [andThen_orReturn]
      refine authenticateUser_follows fun session hsession ↦ ?_
      rw [andThen_orReturn]
      refine checkRepoRole_follows fun past₃ hsub₃ hrole ↦ ?_
      refine hk repoId past₃ (List.Subset.trans (List.Subset.trans hsub₁ hsub₂) hsub₃)
        (hnamed.mono (List.Subset.trans hsub₂ hsub₃)) (Or.inr ⟨session, hsession, hrole⟩)

end Service

end Rules

/-! ## The handlers -/

namespace Service

variable {d : Deployment} {thread : Option Session} {past : Past}

theorem userCreate_follows (request : Pb.UserCreate) :
    Follows d thread (.userCreate request) anything (userCreate d request) past := by
  rw [userCreate]
  cases hpassword : userCheckPassword d request.password with
  | some msg => split_ifs <;> trivial
  | none =>
    split_ifs with henabled hlength hlogin hemail
    iterate 4 trivial
    rw [Follows, obeys_bind]
    refine issue_follows trivial fun salt past' _ hdrew ↦ ?_
    cases salt with
    | none => trivial
    | some salt =>
      dsimp only
      rw [obeys_bind]
      refine issue_follows (Or.inl ⟨?_, salt, hdrew, rfl⟩) fun rc _ _ _ ↦ ?_
      · exact ⟨by simpa using henabled, not_lt.mp hlength, hpassword, by simpa using hlogin,
          by simpa using hemail⟩
      · split_ifs <;> trivial

theorem userAuth_follows (request : Pb.UserAuth) :
    Follows d thread (.userAuth request) anything (userAuth d thread request) past := by
  have hauth : Follows d thread (.userAuth request) _ (authenticate d request) past :=
    authenticate_obeys (fun _ _ _ ↦ ⟨request, rfl, rfl⟩) fun _ _ _ ↦ ⟨request, rfl, rfl⟩
  rw [userAuth, Follows, obeys_bind]
  refine hauth.mono fun past₁ r _ ⟨_, hr⟩ ↦ ?_
  cases r with
  | error msg => trivial
  | ok =>
    dsimp only
    rw [obeys_bind]
    refine fetch_follows rfl (fun _ _ ↦ rfl) fun row past₂ hsub₂ hid ↦ ?_
    cases row with
    | none => trivial
    | some userId =>
      dsimp only
      rw [obeys_bind]
      refine issue_follows trivial fun auth past₃ hsub₃ hdrew ↦ ?_
      cases auth with
      | none => trivial
      | some auth =>
        dsimp only
        rw [obeys_bind]
        refine issue_follows trivial fun start past₄ hsub₄ _ ↦ ?_
        rw [obeys_bind]
        refine issue_follows (Or.inl ⟨?_, userId, auth, ?_, ?_, rfl⟩) fun rc past₅ _ _ ↦ ?_
        · exact (hr rfl).mono (List.Subset.trans hsub₂ (List.Subset.trans hsub₃ hsub₄))
        · exact hdrew.mono hsub₄
        · refine ((hid.imp fun w hw ↦ ?_).mono hsub₃).mono hsub₄
          exact hw.1.head?_userGetId_iff.mp hw.2
        · split_ifs
          · trivial
          · cases thread with
            | none => trivial
            | some session =>
              dsimp only
              rw [obeys_bind]
              exact issue_follows trivial fun _ _ _ _ ↦ trivial

/-! ### Keys -/

theorem genAuthorizedKeys_follows {rpc : Rpc}
    (hkeys : ∀ past : Past, Op.Authorized d thread past rpc .openAuthKeys) :
    Follows d thread rpc anything (genAuthorizedKeys d) past :=
  ((genAuthorizedKeys_within (P := fun op ↦ ∀ past, op.Authorized d thread past rpc)
    (fun _ ↦ trivial) hkeys fun _ _ ↦ hkeys).obeys (fun _ hop past _ _ ↦ hop past) past).mono
      fun _ _ _ _ ↦ trivial

theorem changeSshKeys_follows {rpc : Rpc} {s : Write}
    (hs : Op.Authorized d thread past rpc (.write s))
    (hkeys : ∀ past : Past, Op.Authorized d thread past rpc .openAuthKeys) :
    Follows d thread rpc anything (changeSshKeys d s) past := by
  rw [changeSshKeys, Follows, obeys_bind]
  refine issue_follows hs fun rc past' _ _ ↦ ?_
  split_ifs
  · trivial
  · rw [obeys_bind]
    exact (genAuthorizedKeys_follows hkeys).mono fun _ _ _ _ ↦ trivial

theorem userAddSshKey_follows (request : Pb.UserSshKey) :
    Follows d thread (.userAddSshKey request) anything (userAddSshKey d thread request) past := by
  refine authenticateUser_follows fun session hsession ↦ ?_
  exact changeSshKeys_follows (Or.inr ⟨session, hsession, rfl⟩) fun _ ↦ Or.inl ⟨request, rfl⟩

theorem userRemoveSshKey_follows (request : Pb.UserSshKey) :
    Follows d thread (.userRemoveSshKey request) anything (userRemoveSshKey d thread request)
      past := by
  refine authenticateUser_follows fun session hsession ↦ ?_
  exact changeSshKeys_follows (Or.inr ⟨session, hsession, rfl, rfl⟩) fun _ ↦ Or.inr ⟨request, rfl⟩

/-! ### Groups -/

/-- The rule for a function that runs one statement and returns its success. -/
theorem write_follows {rpc : Rpc} {s : Write} {ok : ResultCode → Bool}
    (hs : Op.Authorized d thread past rpc (.write s)) :
    Follows d thread rpc anything (do let rc ← issue (.write s); return ok rc) past := by
  rw [Follows, obeys_bind]
  exact issue_follows hs fun _ _ _ _ ↦ trivial

theorem verdict_follows {ρ : Type} {rpc : Rpc} {p : Server Bool} {no yes : Outcome ρ}
    (hp : Follows d thread rpc anything p past) :
    Follows d thread rpc anything
      (p >>= fun ok ↦ if !ok then return no else return yes : Server (Outcome ρ)) past := by
  rw [Follows, obeys_bind]
  refine hp.mono fun past' ok _ _ ↦ ?_
  cases ok <;> trivial

theorem groupCreate_follows (request : Pb.GroupCreate) :
    Follows d thread (.groupCreate request) anything (groupCreate thread request) past := by
  refine authenticateUser_follows fun session hsession ↦ ?_
  change Follows d thread _ anything
    (Db.groupCreate (request.grp.getD []) request.desc >>= fun r ↦ _) past
  rw [Db.groupCreate, Follows, obeys_bind, obeys_bind]
  refine issue_follows (Or.inr ⟨session, hsession, rfl⟩) fun rc past₁ _ hgot ↦ ?_
  split_ifs with hconstraint hdone
  · trivial
  · trivial
  obtain rfl := not_not.mp hdone
  rw [obeys_pure, obeys_bind]
  refine fetch_follows rfl (fun _ _ ↦ rfl) fun grpId past₂ hsub₂ _ ↦ ?_
  cases grpId with
  | none => trivial
  | some _ =>
    dsimp only
    rw [obeys_bind]
    refine fetch_follows rfl (fun _ _ ↦ rfl) fun grpId past₃ hsub₃ hid ↦ ?_
    cases grpId with
    | none => trivial
    | some grpId =>
      have hcreated : past₃.CreatedGroup request grpId :=
        ⟨(hgot.mono hsub₂).mono hsub₃, hid.imp fun w hw ↦ hw.1.head?_groupGetId_iff.mp hw.2⟩
      dsimp only
      rw [Db.groupAddUser, obeys_bind, obeys_bind]
      refine issue_follows (Or.inr ⟨session, hsession, hcreated, rfl⟩) fun rc past₄ hsub₄ _ ↦ ?_
      rw [obeys_pure]
      split_ifs
      · -- the owner could not be added
        rw [Db.groupDelete, obeys_bind, obeys_bind]
        exact issue_follows (Or.inr ⟨session, hsession, hcreated.mono hsub₄⟩)
          fun _ _ _ _ ↦ trivial
      · trivial

theorem groupDelete_follows (request : Pb.GroupDelete) :
    Follows d thread (.groupDelete request) anything (groupDelete thread request) past := by
  refine authenticateUser_follows fun session hsession ↦ ?_
  refine setId_follows (fun _ ↦ rfl) (fun _ _ _ ↦ rfl) fun grpId past₁ _ hnamed ↦ ?_
  refine isGroupOwner_follows (fun _ ↦ trivial) fun past₂ hsub hadmits ↦ ?_
  have hadmitted : past₂.AdmittedToGroup session request.toGroupRef grpId :=
    ⟨hnamed.mono hsub, hadmits⟩
  exact verdict_follows (write_follows (Or.inr ⟨session, hsession, hadmitted⟩))

/-- The rule for the two handlers that change a member of a group. -/
theorem groupChange_follows {rpc : Rpc} {grp : Pb.GroupRef} {user : Pb.UserRef}
    {no : Outcome Pb.StatusMsg} {change : ℤ → ℤ → Server (Outcome Pb.StatusMsg)}
    (hchange : ∀ session grpId userId past', thread = some session →
      past'.AdmittedToGroup session grp grpId →
      past'.Knew (·.Names user.userId user.user .userGetId userId) →
        Follows d thread rpc anything (change grpId userId) past') :
    Follows d thread rpc anything
      ((authenticateUser thread).orReturn fun session ↦ (setGrpId grp).orReturn fun grpId ↦
        (setUserId user).orReturn fun userId ↦ isGroupOwner session grpId >>= fun admits ↦
          if !admits then return no else change grpId userId) past := by
  refine authenticateUser_follows fun session hsession ↦ ?_
  refine setId_follows (fun _ ↦ rfl) (fun _ _ _ ↦ rfl) fun grpId past₁ _ hgrp ↦ ?_
  refine setId_follows (fun _ ↦ rfl) (fun _ _ _ ↦ rfl) fun userId past₂ hsub₂ huser ↦ ?_
  refine isGroupOwner_follows (fun _ ↦ trivial) fun past₃ hsub₃ hadmits ↦ ?_
  have hadmitted : past₃.AdmittedToGroup session grp grpId :=
    ⟨(hgrp.mono hsub₂).mono hsub₃, hadmits⟩
  exact hchange session grpId userId past₃ hsession hadmitted (huser.mono hsub₃)

theorem groupAddUser_follows (request : Pb.GroupAddUser) :
    Follows d thread (.groupAddUser request) anything (groupAddUser thread request) past :=
  groupChange_follows fun session _ _ _ hsession hadmitted huser ↦
    verdict_follows (write_follows (Or.inr ⟨session, hsession, hadmitted, huser, rfl⟩))

theorem groupRemoveUser_follows (request : Pb.GroupRemoveUser) :
    Follows d thread (.groupRemoveUser request) anything (groupRemoveUser thread request) past := by
  refine groupChange_follows fun session grpId userId past' hsession hadmitted huser ↦ ?_
  rw [Db.groupRemoveUser, Follows, obeys_bind, obeys_bind]
  exact issue_follows (Or.inr ⟨session, hsession, hadmitted, huser⟩) fun _ _ _ _ ↦ trivial

/-! ### Repositories -/

theorem createDirectory_follows {session : Session} {request : Pb.RepoCreate} {repoId : ℤ}
    (hsession : thread = some session) (hcreated : past.CreatedRepo request repoId) :
    Follows d thread (.repoCreate request) anything
      (Repositories.createDirectory d request.name session.userId repoId) past := by
  have hdelete (past' : Past) (hsub : past ⊆ past') :
      Op.Authorized d thread past' (.repoCreate request)
        (.write (.deleteRepoByName request.name)) :=
    Or.inr ⟨session, hsession, hcreated.1.mono hsub, rfl⟩
  rw [Repositories.createDirectory, Follows, obeys_bind]
  refine issue_follows ⟨request, repoId, rfl, hcreated, rfl⟩ fun ok past₁ hsub₁ _ ↦ ?_
  split_ifs
  · rw [obeys_bind]
    exact issue_follows (hdelete past₁ hsub₁) fun _ _ _ _ ↦ trivial
  · rw [Db.repoAddUser, obeys_bind, obeys_bind]
    refine issue_follows (Or.inr ⟨session, hsession, hcreated.mono hsub₁, rfl⟩)
      fun rc past₂ hsub₂ _ ↦ ?_
    rw [obeys_pure]
    split_ifs
    · rw [obeys_bind]
      exact issue_follows (hdelete past₂ (List.Subset.trans hsub₁ hsub₂)) fun _ _ _ _ ↦ trivial
    · trivial

theorem repoCreate_follows (request : Pb.RepoCreate) :
    Follows d thread (.repoCreate request) anything (repoCreate d thread request) past := by
  refine authenticateUser_follows fun session hsession ↦ ?_
  have hcreate : Follows d thread (.repoCreate request) anything
      (Repositories.create d request.name request.desc request.isPublic session.userId) past := by
    rw [Repositories.create, Follows, obeys_bind]
    refine issue_follows (Or.inr ⟨session, hsession, rfl⟩) fun rc past₁ _ hgot ↦ ?_
    split_ifs with hconstraint hdone
    · trivial
    · trivial
    · obtain rfl := not_not.mp hdone
      rw [obeys_bind]
      refine issue_follows trivial fun repoId past₂ hsub hid ↦ ?_
      exact createDirectory_follows hsession ⟨hgot.mono hsub, hid⟩
  rw [Follows, obeys_bind]
  refine hcreate.mono fun past' r _ _ ↦ ?_
  cases r <;> trivial

/-- The rule for a handler of an owner. -/
theorem ownerGate_follows {ρ : Type} [Pb.HasStatus ρ] {rpc : Rpc} {session : Session}
    {msg : Pb.RepoRef} {repoId : ℤ} {k : Unit → Server (Outcome ρ)}
    (hnamed : past.Knew (·.NamesRepo msg repoId))
    (hk : ∀ past', past ⊆ past' → past'.AdmittedToRepo session msg repoId →
      Follows d thread rpc anything (k ()) past') :
    Follows d thread rpc anything ((checkRepoRole repoId session.userId .kOwner).orReturn k)
      past :=
  checkRepoRole_follows fun past' hsub hrole ↦ hk past' hsub ⟨hnamed.mono hsub, hrole⟩

theorem repoUpdate_follows (request : Pb.RepoUpdate) :
    Follows d thread (.repoUpdate request) anything (repoUpdate thread request) past := by
  refine authenticateUser_follows fun session hsession ↦ ?_
  refine setId_follows (fun _ ↦ rfl) (fun _ _ _ ↦ rfl) fun repoId past₁ _ hnamed ↦ ?_
  refine ownerGate_follows hnamed fun past₂ _ hadmitted ↦ ?_
  rw [Follows, obeys_bind]
  exact issue_follows (Or.inr ⟨session, hsession, hadmitted, rfl⟩) fun _ _ _ _ ↦ trivial

theorem repoDelete_follows (request : Pb.RepoDelete) :
    Follows d thread (.repoDelete request) anything (repoDelete d thread request) past := by
  refine authenticateUser_follows fun session hsession ↦ ?_
  refine setId_follows (fun _ ↦ rfl) (fun _ _ _ ↦ rfl) fun repoId past₁ _ hnamed ↦ ?_
  refine ownerGate_follows hnamed fun past₂ _ hadmitted ↦ ?_
  rw [Repositories.remove, Follows, obeys_bind, obeys_bind]
  refine issue_follows (Or.inr ⟨session, hsession, hadmitted⟩) fun _ past₃ hsub _ ↦ ?_
  rw [obeys_bind]
  refine issue_follows ⟨session, request, repoId, hsession, rfl, ?_, rfl⟩ fun _ _ _ _ ↦ ?_
  · exact ⟨hadmitted.1.mono hsub, hadmitted.2.mono hsub⟩
  · trivial

/-- The rule for the four handlers that change a row of a user or of a group. -/
theorem memberChange_follows {ρ : Type} [Pb.HasStatus ρ] {rpc : Rpc} {msg : Pb.RepoRef}
    {id? : Option ℤ} {name? : Option Bytes} {getId : Bytes → Query ℤ}
    {unspecified notFound no yes : Outcome ρ} {change : ℤ → ℤ → Server Bool}
    (hget : ∀ name, (getId name).readsPassword = false)
    (hpick : ∀ name pick db, (getId name).rows pick db = (getId name).rows 0 db)
    (hchange : ∀ session repoId memberId past', thread = some session →
      past'.AdmittedToRepo session msg repoId → past'.Knew (·.Names id? name? getId memberId) →
        Follows d thread rpc anything (change repoId memberId) past') :
    Follows d thread rpc anything
      ((authenticateUser thread).orReturn fun session ↦ (setRepoId msg).orReturn fun repoId ↦
        (setId id? name? (fun name ↦ fetch (getId name)) unspecified notFound).orReturn
          fun memberId ↦ (checkRepoRole repoId (userIdOf session) .kOwner).orReturn fun () ↦
            change repoId memberId >>= fun ok ↦ if !ok then return no else return yes) past := by
  refine authenticateUser_follows fun session hsession ↦ ?_
  refine setId_follows (fun _ ↦ rfl) (fun _ _ _ ↦ rfl) fun repoId past₁ _ hrepo ↦ ?_
  refine setId_follows hget hpick fun memberId past₂ hsub₂ hmember ↦ ?_
  refine ownerGate_follows (hrepo.mono hsub₂) fun past₃ hsub₃ hadmitted ↦ ?_
  exact verdict_follows (hchange session repoId memberId past₃ hsession hadmitted
    (hmember.mono hsub₃))

theorem repoAddUser_follows (request : Pb.RepoAddUser) :
    Follows d thread (.repoAddUser request) anything (repoAddUser thread request) past :=
  memberChange_follows (fun _ ↦ rfl) (fun _ _ _ ↦ rfl)
    fun session _ _ _ hsession hadmitted huser ↦
      write_follows (Or.inr ⟨session, hsession, hadmitted, huser, rfl⟩)

theorem repoRemoveUser_follows (request : Pb.RepoRemoveUser) :
    Follows d thread (.repoRemoveUser request) anything (repoRemoveUser thread request) past :=
  memberChange_follows (fun _ ↦ rfl) (fun _ _ _ ↦ rfl)
    fun session _ _ _ hsession hadmitted huser ↦
      write_follows (Or.inr ⟨session, hsession, hadmitted, huser⟩)

theorem repoAddGroup_follows (request : Pb.RepoAddGroup) :
    Follows d thread (.repoAddGroup request) anything (repoAddGroup thread request) past :=
  memberChange_follows (fun _ ↦ rfl) (fun _ _ _ ↦ rfl)
    fun session _ _ _ hsession hadmitted hgrp ↦
      write_follows (Or.inr ⟨session, hsession, hadmitted, hgrp, rfl⟩)

theorem repoRemoveGroup_follows (request : Pb.RepoRemoveGroup) :
    Follows d thread (.repoRemoveGroup request) anything (repoRemoveGroup thread request) past :=
  memberChange_follows (fun _ ↦ rfl) (fun _ _ _ ↦ rfl)
    fun session _ _ _ hsession hadmitted hgrp ↦
      write_follows (Or.inr ⟨session, hsession, hadmitted, hgrp⟩)

/-! ### The views -/

theorem gitView_follows {ρ : Type} [Pb.HasStatus ρ] {rpc : Rpc} {msg : Pb.RepoRef}
    {view : GitRepository → Outcome ρ} (hrpc : rpc.shown = some msg) :
    Follows d thread rpc anything (gitView d thread msg view) past := by
  refine checkPublicRepo_follows fun repoId past' _ hnamed hreadable ↦ ?_
  rw [Follows, obeys_bind]
  refine issue_follows ⟨repoId, rfl, Or.inr ⟨msg, hrpc, hnamed, hreadable⟩⟩ fun repo _ _ _ ↦ ?_
  cases repo <;> trivial

theorem repoGetInfo_follows (request : Pb.RepoSelector) :
    Follows d thread (.repoGetInfo request) anything (repoGetInfo d thread request) past := by
  refine checkPublicRepo_follows fun repoId past₁ _ hnamed hreadable ↦ ?_
  rw [Follows, obeys_bind]
  refine fetch_follows rfl (fun _ _ ↦ rfl) fun row past₂ hsub _ ↦ ?_
  cases row with
  | none => trivial
  | some row =>
    dsimp only
    rw [obeys_bind]
    refine issue_follows ⟨repoId, rfl, Or.inr ⟨_, rfl, hnamed.mono hsub, ?_⟩⟩
      fun _ _ _ _ ↦ trivial
    exact hreadable.imp (·.mono hsub) fun ⟨session, hsession, h⟩ ↦ ⟨session, hsession, h.mono hsub⟩

theorem repoListMembers_follows (request : Pb.RepoSelector) :
    Follows d thread (.repoListMembers request) anything (repoListMembers thread request)
      past := by
  refine checkPublicRepo_follows fun repoId past₁ _ _ _ ↦ ?_
  rw [Follows, obeys_bind]
  refine issue_follows trivial fun groups past₂ _ _ ↦ ?_
  rw [obeys_bind]
  exact issue_follows trivial fun _ _ _ _ ↦ trivial

theorem reposListInfos_follows {rows : List (Bytes × Bytes × ℤ × Bool)}
    (hrows : ∀ row ∈ rows, past.Saw (row.2.2.1 ∈ ·.db.repos.ids)) :
    Follows d thread .reposList anything (reposListInfos d rows) past := by
  induction rows generalizing past with
  | nil => trivial
  | cons row rows ih =>
    obtain ⟨hrow, hrows⟩ := List.forall_mem_cons.mp hrows
    rw [reposListInfos, Follows, obeys_bind]
    refine issue_follows ⟨row.2.2.1, rfl, Or.inl ⟨rfl, hrow⟩⟩ fun repo past' hsub _ ↦ ?_
    rw [obeys_bind]
    exact (ih fun r hr ↦ (hrows r hr).mono hsub).mono fun _ _ _ _ ↦ trivial

theorem reposList_follows :
    Follows d thread .reposList anything (reposList d) past := by
  rw [reposList, Follows, obeys_bind]
  refine query_obeys (fun _ _ ↦ trivial) fun rows past' _ hsaw ↦ ?_
  rw [obeys_bind]
  refine (reposListInfos_follows fun row hrow ↦ ?_).mono fun _ _ _ _ ↦ trivial
  refine hsaw.imp fun w hw ↦ ?_
  obtain ⟨-, pick, rfl⟩ := hw
  rw [Query.rows, orderBy, List.mem_insertionSort] at hrow
  obtain ⟨r, hr, rfl⟩ := List.mem_map.mp hrow
  exact Relational.AutoTable.mem_ids_of_mem hr

theorem free_follows {α : Type} {rpc : Rpc} {p : Server α} {V : α → Prop}
    (h : p.Within (fun op ↦ op.free = true) V) : Follows d thread rpc anything p past := by
  refine (h.obeys (fun op hop past e w ↦ ?_) past).mono fun _ _ _ _ ↦ trivial
  cases op with
  | query q => exact authorized_query (by simpa [Op.free] using hop)
  | _ => trivial

theorem shellControl_follows (request : Pb.ShellControl) :
    Follows d thread (.shellControl request) anything (shellControl d request) past := by
  refine free_follows (V := fun _ ↦ True) (within_step (fetch_within rfl) fun repoId ↦ ?_)
  cases repoId with
  | none => trivial
  | some repoId =>
    refine within_step (fetch_within rfl) fun isAdmin ↦ ?_
    refine within_step ⟨rfl, fun _ ↦ trivial⟩ fun role ↦ ?_
    exact within_step (fetch_within rfl) fun _ ↦ trivial

theorem groupGetInfo_follows (request : Pb.GroupSelector) :
    Follows d thread (.groupGetInfo request) anything (groupGetInfo request) past := by
  refine free_follows (V := fun _ ↦ True) (within_step (fetch_within rfl) fun row ↦ ?_)
  cases row <;> trivial

theorem userSetPassword_follows (request : Pb.UserPasswordChange) :
    Follows d thread (.userSetPassword request) anything (userSetPassword d thread request)
      past := by
  rw [userSetPassword]
  cases userCheckPassword d request.newPassword with
  | some msg => trivial
  | none =>
    refine authenticateUser_follows fun session _ ↦ ?_
    refine free_follows (V := fun _ ↦ True) (within_step (fetch_within rfl) fun userId ↦ ?_)
    cases userId with
    | none => trivial
    | some userId => dsimp only; split_ifs <;> trivial

end Service

/-! ## All calls and requests -/

variable {d : Deployment} {thread : Option Session} {past : Past}

theorem answer_follows {ρ : Type} {rpc : Rpc} {message : ρ → Pb.Message}
    {handler : Server (Outcome ρ)} (h : Follows d thread rpc anything handler past) :
    Follows d thread rpc anything (answer message handler) past := by
  rw [answer, Follows, obeys_bind]
  exact h.mono fun _ _ _ _ ↦ trivial

/-- **Every call follows the rules.** -/
theorem dispatch_follows (rpc : Rpc) :
    Follows d thread rpc anything (dispatch d thread rpc) past := by
  cases rpc with
  | userAuth request =>
    rw [dispatch, Follows, obeys_bind]
    exact (Service.userAuth_follows request).mono fun _ _ _ _ ↦ trivial
  | userCreate request => exact answer_follows (Service.userCreate_follows request)
  | userAddSshKey request => exact answer_follows (Service.userAddSshKey_follows request)
  | userRemoveSshKey request => exact answer_follows (Service.userRemoveSshKey_follows request)
  | userSetPassword request => exact answer_follows (Service.userSetPassword_follows request)
  | groupCreate request => exact answer_follows (Service.groupCreate_follows request)
  | groupDelete request => exact answer_follows (Service.groupDelete_follows request)
  | groupAddUser request => exact answer_follows (Service.groupAddUser_follows request)
  | groupRemoveUser request => exact answer_follows (Service.groupRemoveUser_follows request)
  | groupGetInfo request => exact answer_follows (Service.groupGetInfo_follows request)
  | repoCreate request => exact answer_follows (Service.repoCreate_follows request)
  | repoUpdate request => exact answer_follows (Service.repoUpdate_follows request)
  | repoDelete request => exact answer_follows (Service.repoDelete_follows request)
  | repoAddUser request => exact answer_follows (Service.repoAddUser_follows request)
  | repoRemoveUser request => exact answer_follows (Service.repoRemoveUser_follows request)
  | repoAddGroup request => exact answer_follows (Service.repoAddGroup_follows request)
  | repoRemoveGroup request => exact answer_follows (Service.repoRemoveGroup_follows request)
  | reposList => exact answer_follows Service.reposList_follows
  | repoGetInfo request => exact answer_follows (Service.repoGetInfo_follows request)
  | repoListMembers request => exact answer_follows (Service.repoListMembers_follows request)
  | repoListBranches | repoGetCommit | repoGetLog | repoGetTree | repoGetBlob | repoGetPatch
  | repoGetTags => exact answer_follows (Service.gitView_follows rfl)
  | shellControl request => exact answer_follows (Service.shellControl_follows request)
  | serviceInfo | groupsList | groupListMembers =>
    exact answer_follows (Service.free_follows (V := fun _ ↦ True) ⟨rfl, fun _ ↦ trivial⟩)
  | userGetSession =>
    exact answer_follows (Service.authenticateUser_follows fun _ _ ↦ trivial)
  | userGetSshKeys =>
    refine answer_follows (Service.authenticateUser_follows fun _ _ ↦ ?_)
    exact Service.free_follows (V := fun _ ↦ True) ⟨rfl, fun _ ↦ trivial⟩

theorem sessionAuth_obeys {cookies : Cookies} {isSsl : Bool} {m : Monitor Op World}
    (hquery : ∀ past {β : Type} (q : Query β), q.readsPassword = false →
      ∀ e w, m past (.of (.query q) e w)) :
    (Session.auth cookies isSsl).Obeys (fun w : World ↦ w.db.Valid) m
      (fun past' (session : Session) ↦ past.ThenReads past' ∧
        Past.Knew past' (·.session cookies isSsl = session)) past := by
  obtain ⟨user, token⟩ := cookies
  cases user with
  | none => exact ⟨.refl past, Or.inl fun _ ↦ rfl⟩
  | some user =>
    cases token with
    | none => exact ⟨.refl past, Or.inl fun _ ↦ rfl⟩
    | some token =>
      rw [Session.auth, obeys_bind]
      refine fetch_obeys (hquery _ _ rfl) (fun _ _ ↦ rfl) fun row past' hreads hsaw ↦ ?_
      cases row with
      | none => exact ⟨hreads, (hsaw.imp fun w hw ↦ by simp only [Database.session, hw.2]).knew⟩
      | some row =>
        exact ⟨hreads, (hsaw.imp fun w hw ↦ by simp only [Database.session, hw.2]).knew⟩

theorem accessCheckRepo_obeys {m : Monitor Op World} {session : Session} {repoId : ℤ}
    (hquery : ∀ past {β : Type} (q : Query β), q.readsPassword = false →
      ∀ e w, m past (.of (.query q) e w)) :
    (accessCheckRepo session repoId .kReader).Obeys (fun w : World ↦ w.db.Valid) m
      (fun past' (ok : Bool) ↦ ok = true → Past.Saw past' (·.db.isPublic? repoId = some true) ∨
        1 ≤ session.userId ∧
          Past.Saw past' fun w ↦ w.db.reportedRole repoId session.userId ≤ .kNone) past := by
  rw [accessCheckRepo, obeys_bind]
  refine fetch_obeys (hquery _ _ rfl) (fun _ _ ↦ rfl) fun row past₁ _ hsaw ↦ ?_
  cases row with
  | none => exact fun h ↦ by cases h
  | some isPublic =>
    dsimp only
    split_ifs with hpublic huser
    · refine fun _ ↦ Or.inl (hsaw.imp fun w hw ↦ ?_)
      rw [Database.isPublic?, hw.2, (Bool.and_eq_true_iff.mp hpublic).1]
    · exact fun h ↦ by cases h
    · rw [obeys_bind, Db.repoGetUserRole, obeys_bind]
      refine query_obeys (hquery _ _ rfl) fun rows past₂ _ hsaw ↦ ?_
      rw [obeys_pure]
      split_ifs
      · exact fun h ↦ by cases h
      · refine fun hrole ↦ Or.inr ⟨not_lt.mp huser, hsaw.imp ?_⟩
        rintro w ⟨-, pick, rfl⟩
        exact of_decide_eq_true hrole

/-- **Every job follows the rules.** -/
theorem Job.obeys (job : Job) : (job.program d).Obeys (fun w : World ↦ w.db.Valid)
    (fun past event ↦ job.Authorized d past event.op) anything past := by
  cases job with
  | socket rpc =>
    rw [Job.program, serveSocket, obeys_map]
    exact dispatch_follows rpc
  | http request =>
    obtain ⟨cookies, isSsl, target⟩ := request
    cases target with
    | api rpc =>
      rw [Job.program, serve, obeys_map, sessionHandle, obeys_bind]
      refine (sessionAuth_obeys fun _ _ _ hq _ _ ↦ Or.inl (Op.free_query hq)).mono
        fun past' session _ ⟨_, hsession⟩ ↦ ?_
      refine (dispatch_follows rpc).imp fun past'' event hsub hop ↦ ?_
      exact Or.inr ⟨session, hsession.mono hsub, hop⟩
    | logout =>
      rw [Job.program, serve, obeys_map, logoutHandle, obeys_bind]
      refine (sessionAuth_obeys fun _ _ _ hq _ _ ↦ Or.inl (Op.free_query hq)).mono
        fun past' session _ ⟨_, hsession⟩ ↦ ?_
      rw [obeys_bind]
      exact fun w e _ ↦ ⟨Or.inr ⟨session, hsession, rfl⟩, trivial⟩
    | archive location =>
      rw [Job.program, serve, obeys_map]
      cases location with
      | none => trivial
      | some location =>
        rw [archiveHandle, obeys_bind]
        refine (sessionAuth_obeys fun _ _ _ hq _ _ ↦ Or.inl (Op.free_query hq)).mono
          fun past₁ session _ ⟨_, hsession⟩ ↦ ?_
        rw [obeys_bind]
        refine (accessCheckRepo_obeys fun _ _ _ hq _ _ ↦ Or.inl (Op.free_query hq)).mono
          fun past₂ ok hsub hok ↦ ?_
        cases ok with
        | false => trivial
        | true =>
          simp only [Bool.not_true, Bool.false_eq_true, if_false]
          rw [obeys_bind]
          refine issue_obeys (fun _ _ ↦ ?_) fun repo past₃ _ _ ↦ ?_
          · exact Or.inr ⟨session, hsession.mono hsub, location, rfl, rfl, hok rfl⟩
          · cases repo with
            | none => trivial
            | some repo =>
              dsimp only
              cases Service.lookupRevision repo location.revision with
              | none => trivial
              | some commit => dsimp only; cases repo.tree commit.treeId [] <;> trivial

/-- **Complete mediation.** Whatever the threads of the server do, every operation of a job is
allowed by the rules after the operations of the job before it. -/
theorem Job.mediated {c : System} (hc : c.world.db.Valid) {k : ℕ} {job : Job}
    (hk : c.threads k = job.program d) {s : List (ℕ × Env)} {past later : Past}
    {event : Event Op World} (h : c.events k s = past ++ event :: later) :
    job.Authorized d past event.op :=
  Pool.allowed_of_events exec_valid hc (hk ▸ job.obeys) h

/-- The key is added for the user whom the cookies have identified. -/
theorem Job.mediated_addsKey :
    let c := System.serving .plain (first [.addsKey]) .twoSessions
    (http .addsKey).Authorized .plain (c.events 0 [(0, {})])
      (.write (.insertUserSshKey 1 0 (text "AAAA") [])) := by
  intro c
  have h : c.events 0 [(0, {}), (0, {})] = c.events 0 [(0, {})] ++
      .of (.write (.insertUserSshKey 1 0 (text "AAAA") [])) {} .twoSessions :: [] := rfl
  exact Job.mediated Database.valid_twoSessions (c := c) rfl h

end Scissy
