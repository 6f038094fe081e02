import Scissy.Security.Impersonation

/-!
# What an answer is worth

A call is answered while other calls go on, so what its answer says may be over when it arrives.
But it is not worthless. A call that gives or takes away a right, and reports a success, has done so
(`Report`), and what it has done stays done unless somebody who may undo it does
(`acknowledged_grant`, `acknowledged_removal`). A call that does not report a success has changed no
table; only a creation that fails after its `insert` has, and takes that back (`failed_call`).

The calls that ignore the result code of their statement are left out of the first part: their
success says nothing.

## Reports

`Report` is what a status says of the events of the call, and of nothing else. That each handler
makes a report is a monitored fact: it is proved for the handler by itself, in whatever states its
operations are executed, and holds at the end of every schedule (`report_of_done`). Most handlers
are a sequence of tests and one statement, and there the rules for the macros and for the end
(`verdict_reports`) put the report together.

## Afterwards

A run is cut right after the statement of the call, and the second part is what comes afterwards.
What the statement has left is there at the cut. If it is gone at the end, some deed of the second
part has made an end of it, and the results on attribution say whose. The deeds of the call itself
lie in the first part, up to its statement.
-/

open Authority Interaction Interaction.Prog

namespace Scissy

/-! ## Reports -/

/-- No tables were changed but by these statements. -/
def Past.Only (past : Past) (P : Write → Prop) : Prop :=
  ∀ event ∈ past, event.after.db = event.before.db ∨ ∃ s e w, P s ∧ event = .of (.write s) e w

/-- A statement has changed the links. -/
def Past.Changed (past : Past) (c : Change Table ℤ ℤ Group) : Prop :=
  ∃ s : Write, s.change = some c ∧ past.Got (.write s) .done

namespace Rpc

/-- The right a call asks to give, as far as the call knows. -/
def Gives (past : Past) (session : Session) : Rpc → Link Table ℤ ℤ → Prop
  | groupAddUser request, l => l.kind = .groupsUsers ∧ past.NamedGroup request.toGroupRef l.left ∧
    past.NamedUser request.toUserRef l.right ∧ l.role = request.role.toInt
  | repoAddUser request, l => l.kind = .reposUsers ∧
    past.Knew (·.NamesRepo request.toRepoRef l.left) ∧
    past.NamedUser request.toUserRef l.right ∧ l.role = request.role.toInt
  | repoAddGroup request, l => l.kind = .reposGroups ∧
    past.Knew (·.NamesRepo request.toRepoRef l.left) ∧
    past.NamedGroup request.toGroupRef l.right ∧ l.role = request.role.toInt
  | rpc, l => OwnsCreation past session rpc l

/-- The right a call asks to take away. -/
def Takes (past : Past) : Rpc → Table × ℤ × ℤ → Prop
  | repoRemoveUser request, k => k.1 = .reposUsers ∧
    past.Knew (·.NamesRepo request.toRepoRef k.2.1) ∧ past.NamedUser request.toUserRef k.2.2
  | repoRemoveGroup request, k => k.1 = .reposGroups ∧
    past.Knew (·.NamesRepo request.toRepoRef k.2.1) ∧ past.NamedGroup request.toGroupRef k.2.2
  | _, _ => False

/-- The calls that take a right away and look at the result. -/
@[simp] def takes : Rpc → Bool
  | repoRemoveUser _ | repoRemoveGroup _ => true
  | _ => false

/-- The statements by which a call creates something and takes it back. -/
def Tries (past : Past) : Rpc → Write → Prop
  | groupCreate request, .insertGroup name desc =>
    (name, desc) = (request.grp.getD [], request.desc)
  | groupCreate request, .deleteGroup groupId => past.CreatedGroup request groupId
  | repoCreate request, .insertRepo name desc isPublic =>
    (name, desc, isPublic) = (request.name, request.desc, request.isPublic)
  | repoCreate request, .deleteRepoByName name =>
    past.InsertedRepo request ∧ name = request.name
  | _, _ => False

end Rpc

/-- A creation that has inserted something has tried to delete it again, unless it was gone. -/
def Rpc.TakesBack (past : Past) : Rpc → Prop
  | groupCreate request =>
    past.Got (.write (.insertGroup (request.grp.getD []) request.desc)) .done →
      (∃ groupId rc, past.CreatedGroup request groupId ∧
        past.Got (.write (.deleteGroup groupId)) rc) ∨
      past.Saw fun w ↦ ∀ row ∈ w.db.groups.rows, row.2.name ≠ request.grp.getD []
  | repoCreate request =>
    past.InsertedRepo request → ∃ rc, past.Got (.write (.deleteRepoByName request.name)) rc
  | _ => True

/-- What a call with this status has done. -/
structure Report (session : Session) (rpc : Rpc) (past : Past) (status : Option Pb.Status) :
    Prop where
  gives : status = some .kSucceed → rpc.grants = true →
    ∃ l, rpc.Gives past session l ∧ past.Changed (.add l)
  takes : status = some .kSucceed → rpc.takes = true →
    ∃ k, rpc.Takes past k ∧ past.Changed (.remove k)
  fails : status ≠ some .kSucceed → past.Only (rpc.Tries past) ∧ rpc.TakesBack past

theorem Rpc.Tries.mono {past past' : Past} {rpc : Rpc} {s : Write} (hsub : past ⊆ past')
    (h : rpc.Tries past s) : rpc.Tries past' s := by
  cases rpc with
  | groupCreate request =>
    cases s with
    | deleteGroup groupId => exact Past.CreatedGroup.mono h hsub
    | _ => exact h
  | repoCreate request =>
    cases s with
    | deleteRepoByName name => exact ⟨Past.Got.mono h.1 hsub, h.2⟩
    | _ => exact h
  | _ => exact h.elim

section Rules

variable {session : Session} {rpc : Rpc} {past past' : Past} {status : Option Pb.Status}
  {P P' : Write → Prop}

theorem Past.Only.imp (h : past.Only P) (hP : ∀ s, P s → P' s) : past.Only P' := fun event hmem ↦
  (h event hmem).imp_right fun ⟨s, e, w, hs, hevent⟩ ↦ ⟨s, e, w, hP s hs, hevent⟩

theorem Past.Only.thenReads (h : past.Only P) (hreads : past.ThenReads past') :
    past'.Only P := by
  obtain ⟨reads, rfl, hreads⟩ := hreads
  refine List.forall_mem_append.mpr ⟨h, fun event hmem ↦ Or.inl ?_⟩
  rw [hreads event hmem]

theorem Past.Only.not_got {stmt : Write} (hidle : past.Only fun _ ↦ False)
    (hstmt : ∀ now db db', stmt.Effect now db db' → db' ≠ db) : ¬ past.Got (.write stmt) .done := by
  rintro ⟨e, w, hrc, hmem⟩
  rcases hidle _ hmem with hsame | ⟨_, _, _, ⟨⟩, -⟩
  exact hstmt _ _ _ (World.effect_of_done hrc) hsame

theorem takesBack_of_idle (hidle : past.Only fun _ ↦ False) (rpc : Rpc) : rpc.TakesBack past := by
  cases rpc with
  | groupCreate request =>
    refine fun hgot ↦ absurd hgot (hidle.not_got fun now db db' heffect hsame ↦ ?_)
    obtain ⟨-, t, ht, rfl⟩ := heffect
    have hrows := congrArg (·.groups.rows.length) hsame
    simp [(Relational.AutoTable.rows_of_insert ht).1] at hrows
  | repoCreate request =>
    refine fun hgot ↦ absurd hgot (hidle.not_got fun now db db' heffect hsame ↦ ?_)
    obtain ⟨-, t, ht, rfl⟩ := heffect
    have hrows := congrArg (·.repos.rows.length) hsame
    simp [(Relational.AutoTable.rows_of_insert ht).1] at hrows
  | _ => trivial

theorem Report.refused (hstatus : status ≠ some .kSucceed) (honly : past.Only (rpc.Tries past))
    (hback : rpc.TakesBack past) : Report session rpc past status :=
  ⟨fun h ↦ absurd h hstatus, fun h ↦ absurd h hstatus, fun _ ↦ ⟨honly, hback⟩⟩

theorem Report.idle (hstatus : status ≠ some .kSucceed) (hidle : past.Only fun _ ↦ False) :
    Report session rpc past status :=
  .refused hstatus (hidle.imp fun _ ↦ False.elim) (takesBack_of_idle hidle rpc)

theorem Report.silent (hgives : rpc.grants = false) (htakes : rpc.takes = false) :
    Report session rpc past (some .kSucceed) :=
  ⟨fun _ h ↦ Bool.noConfusion (hgives.symm.trans h),
    fun _ h ↦ Bool.noConfusion (htakes.symm.trans h), fun h ↦ absurd rfl h⟩

theorem Report.given (htakes : rpc.takes = false) {l : Link Table ℤ ℤ}
    (hl : rpc.Gives past session l) (hchanged : past.Changed (.add l)) :
    Report session rpc past (some .kSucceed) :=
  ⟨fun _ _ ↦ ⟨l, hl, hchanged⟩, fun _ h ↦ Bool.noConfusion (htakes.symm.trans h),
    fun h ↦ absurd rfl h⟩

theorem Report.taken (hgives : rpc.grants = false) {k : Table × ℤ × ℤ}
    (hk : rpc.Takes past k) (hchanged : past.Changed (.remove k)) :
    Report session rpc past (some .kSucceed) :=
  ⟨fun _ h ↦ Bool.noConfusion (hgives.symm.trans h), fun _ _ ↦ ⟨k, hk, hchanged⟩,
    fun h ↦ absurd rfl h⟩

/-- Whatever the handler is answered, it reports what it has done. -/
abbrev Reports {ρ : Type} (session : Session) (rpc : Rpc) (message : ρ → Pb.Message)
    (handler : Server (Outcome ρ)) (past : Past) : Prop :=
  handler.Obeys (fun w : World ↦ w.db.Valid) (fun _ _ ↦ True)
    (fun past' outcome ↦ Report session rpc past' (outcome.map message).status) past

theorem write_obeys {s : Write} {m : Monitor Op World} {Q : Past → ResultCode → Prop}
    (hop : ∀ e w, m past (.of (.write s) e w))
    (hdone : ∀ past', past ⊆ past' → past'.Got (.write s) .done →
      (∀ P : Write → Prop, past.Only P → P s → past'.Only P) → Q past' .done)
    (hfail : ∀ rc past', past.ThenReads past' → past'.Got (.write s) rc → rc ≠ .done →
      Q past' rc) :
    (issue (.write s)).Obeys (fun w : World ↦ w.db.Valid) m Q past := by
  intro w e _
  refine ⟨hop e w, ?_⟩
  rw [exec_write]
  by_cases hrc : (w.write e s).1 = .done
  · rw [hrc]
    refine hdone _ (List.subset_append_left past _) ⟨e, w, hrc, ?_⟩ fun P hP hs ↦ ?_
    · exact List.mem_append_right past List.mem_cons_self
    · exact List.forall_mem_append.mpr
        ⟨hP, List.forall_mem_singleton.mpr (Or.inr ⟨s, e, w, hs, rfl⟩)⟩
  · refine hfail _ _ ⟨[.of (.write s) e w], rfl, List.forall_mem_singleton.mpr ?_⟩
      ⟨e, w, rfl, List.mem_append_right past List.mem_cons_self⟩ hrc
    exact World.write_of_ne_done hrc

theorem keeps_obeys {α : Type} {p : Server α} {V : α → Prop} {m : Monitor Op World}
    (h : p.Within (fun op ↦ ∀ (e : Env) (w : World), (Interp.exec op e w).2.db = w.db) V)
    (hm : ∀ past event, m past event) (past : Past) :
    p.Obeys (fun w : World ↦ w.db.Valid) m (fun past' a ↦ V a ∧ past ⊆ past' ∧
      ∀ P : Write → Prop, past.Only P → Past.Only past' P) past := by
  induction p generalizing past with
  | done a => exact ⟨h, List.Subset.refl past, fun _ ↦ id⟩
  | call op next ih =>
    refine fun w e _ ↦ ⟨hm _ _, (ih _ (h.2 _) _).mono fun past' a _ ha ↦ ?_⟩
    refine ⟨ha.1, List.Subset.trans (List.subset_append_left past _) ha.2.1, fun P hP ↦ ?_⟩
    exact ha.2.2 P (List.forall_mem_append.mpr
      ⟨hP, List.forall_mem_singleton.mpr (Or.inl (h.1 e w))⟩)

theorem quiet_obeys {β : Type} {op : Op β} {m : Monitor Op World} {Q : Past → β → Prop}
    (hm : ∀ past event, m past event)
    (hop : ∀ (e : Env) (w : World), (Interp.exec op e w).2.db = w.db)
    (hQ : ∀ b past', past ⊆ past' → past'.Got op b →
      (∀ P : Write → Prop, past.Only P → past'.Only P) → Q past' b) :
    (issue op).Obeys (fun w : World ↦ w.db.Valid) m Q past := by
  refine fun w e _ ↦ ⟨hm _ _, hQ _ _ (List.subset_append_left past _) ⟨e, w, rfl, ?_⟩ ?_⟩
  · exact List.mem_append_right past List.mem_cons_self
  · exact fun P hP ↦ List.forall_mem_append.mpr
      ⟨hP, List.forall_mem_singleton.mpr (Or.inl (hop e w))⟩

theorem exec_db_of_touches {β : Type} {op : Op β} (h : op.touches = []) (e : Env) (w : World) :
    (Interp.exec op e w).2.db = w.db := by
  cases op <;> first | rfl | cases h

end Rules

/-! ## The macros -/

section Macros

variable {session : Session} {rpc : Rpc} {past : Past}

/-- Whatever the handler of a call without a value is answered, it reports what it has done. -/
abbrev ReportsStatus (session : Session) (rpc : Rpc) (handler : Server (Outcome Pb.StatusMsg))
    (past : Past) : Prop := Reports session rpc .statusMsg handler past

/-- The outcome reports something else than a success. -/
abbrev Outcome.Refuses (outcome : Outcome Pb.StatusMsg) : Prop :=
  (outcome.map Pb.Message.statusMsg).status ≠ some .kSucceed

namespace Service

theorem setId_reports {id? : Option ℤ} {name? : Option Bytes} {getId : Bytes → Query ℤ}
    {unspecified notFound : Outcome Pb.StatusMsg} {k : ℤ → Server (Outcome Pb.StatusMsg)}
    (hget : ∀ name, (getId name).readsPassword = false)
    (hpick : ∀ name pick db, (getId name).rows pick db = (getId name).rows 0 db)
    (hunspecified : unspecified.Refuses) (hnotFound : notFound.Refuses)
    (hidle : past.Only fun _ ↦ False)
    (hk : ∀ id past', past ⊆ past' → (past'.Only fun _ ↦ False) →
      past'.Knew (·.Names id? name? getId id) → ReportsStatus session rpc (k id) past') :
    ReportsStatus session rpc
      ((setId id? name? (fun name ↦ fetch (getId name)) unspecified notFound).orReturn k) past :=
  setId_obeys (fun _ _ _ _ _ _ ↦ trivial) hget hpick (.idle hunspecified hidle)
    (fun _ hreads ↦ .idle hnotFound (hidle.thenReads hreads))
    fun id past' hreads ↦ hk id past' hreads.subset (hidle.thenReads hreads)

theorem setGrpId_reports {msg : Pb.GroupRef} {k : ℤ → Server (Outcome Pb.StatusMsg)}
    (hidle : past.Only fun _ ↦ False) (hk : ∀ id past', past ⊆ past' →
      (past'.Only fun _ ↦ False) → past'.NamedGroup msg id →
      ReportsStatus session rpc (k id) past') :
    ReportsStatus session rpc ((setGrpId msg).orReturn k) past :=
  setId_reports (fun _ ↦ rfl) (fun _ _ _ ↦ rfl) (by rintro ⟨⟩) (by rintro ⟨⟩) hidle hk

theorem setUserId_reports {msg : Pb.UserRef} {k : ℤ → Server (Outcome Pb.StatusMsg)}
    (hidle : past.Only fun _ ↦ False) (hk : ∀ id past', past ⊆ past' →
      (past'.Only fun _ ↦ False) → past'.NamedUser msg id →
      ReportsStatus session rpc (k id) past') :
    ReportsStatus session rpc ((setUserId msg).orReturn k) past :=
  setId_reports (fun _ ↦ rfl) (fun _ _ _ ↦ rfl) (by rintro ⟨⟩) (by rintro ⟨⟩) hidle hk

theorem setRepoId_reports {msg : Pb.RepoRef} {k : ℤ → Server (Outcome Pb.StatusMsg)}
    (hidle : past.Only fun _ ↦ False) (hk : ∀ id past', past ⊆ past' →
      (past'.Only fun _ ↦ False) → past'.Knew (·.NamesRepo msg id) →
      ReportsStatus session rpc (k id) past') :
    ReportsStatus session rpc ((setRepoId msg).orReturn k) past :=
  setId_reports (fun _ ↦ rfl) (fun _ _ _ ↦ rfl) (by rintro ⟨⟩) (by rintro ⟨⟩) hidle hk

theorem isGroupOwner_reports {groupId : ℤ} {k : Bool → Server (Outcome Pb.StatusMsg)}
    (hidle : past.Only fun _ ↦ False)
    (hno : ∀ past', (past'.Only fun _ ↦ False) → ReportsStatus session rpc (k false) past')
    (hyes : ∀ past', past ⊆ past' → (past'.Only fun _ ↦ False) →
      ReportsStatus session rpc (k true) past') :
    ReportsStatus session rpc (isGroupOwner (userGetSessionHelper session).2 groupId >>= k) past :=
  isGroupOwner_obeys (fun _ _ _ _ _ _ ↦ trivial)
    (fun past' hreads ↦ hno past' (hidle.thenReads hreads))
    fun past' hreads _ ↦ hyes past' hreads.subset (hidle.thenReads hreads)

theorem checkRepoRole_reports {repoId userId : ℤ} {roleId : Pb.Role}
    {k : Unit → Server (Outcome Pb.StatusMsg)} (hidle : past.Only fun _ ↦ False)
    (hk : ∀ past', past ⊆ past' → (past'.Only fun _ ↦ False) →
      ReportsStatus session rpc (k ()) past') :
    ReportsStatus session rpc ((checkRepoRole repoId userId roleId).orReturn k) past :=
  checkRepoRole_obeys (fun _ _ _ _ _ _ ↦ trivial)
    (fun _ hreads ↦ .idle (by rintro ⟨⟩) (hidle.thenReads hreads))
    (fun _ hreads ↦ .idle (by rintro ⟨⟩) (hidle.thenReads hreads))
    fun past' hreads _ ↦ hk past' hreads.subset (hidle.thenReads hreads)

theorem verdict_reports {s : Write} {no : Outcome Pb.StatusMsg} (hidle : past.Only fun _ ↦ False)
    (hno : no.Refuses) (hyes : ∀ past', past ⊆ past' → past'.Got (.write s) .done →
      Report session rpc past' (some .kSucceed)) :
    ReportsStatus session rpc
      ((do let rc ← issue (.write s); return decide (rc = .done)) >>= fun ok ↦
        if !ok then return no else return succeed) past := by
  rw [ReportsStatus, Reports, obeys_bind, obeys_bind]
  refine write_obeys (fun _ _ ↦ trivial) (fun past' hsub hgot _ ↦ hyes past' hsub hgot)
    fun rc past' hreads _ hrc ↦ ?_
  rw [obeys_pure, decide_eq_false hrc]
  exact .idle hno (hidle.thenReads hreads)

end Service

end Macros

/-! ## The handlers -/

section Handlers

variable {d : Deployment} {session : Session} {past : Past}

namespace Service

/-! ### Users and keys -/

/-- The registration has stored the salt it has drawn and the hash of the password. -/
def Registers (d : Deployment) (request : Pb.UserCreate) (past : Past) : Prop :=
  ∃ salt, past.Got (.gnutlsRnd 16) (some salt) ∧
    past.Got (.write (.insertUser request.user request.email (text "SHA3-512")
      (d.base16Encode salt) (d.base16Encode (d.sha3_512 (salt ++ request.password))))) .done

theorem userCreate_obeys (request : Pb.UserCreate) (hidle : past.Only fun _ ↦ False) :
    (userCreate d request).Obeys (fun w : World ↦ w.db.Valid) (fun _ _ ↦ True)
      (fun past' outcome ↦ outcome.Refuses ∧ (Past.Only past' fun _ ↦ False) ∨
        outcome = succeed ∧ Registers d request past') past := by
  rw [userCreate]
  cases userCheckPassword d request.password with
  | some msg => split_ifs <;> exact Or.inl ⟨by rintro ⟨⟩, hidle⟩
  | none =>
    split_ifs
    iterate 4 exact Or.inl ⟨by rintro ⟨⟩, hidle⟩
    rw [obeys_bind]
    refine read_obeys (fun _ _ ↦ trivial) (fun _ _ ↦ rfl) fun salt past₁ hreads₁ hdrew ↦ ?_
    cases salt with
    | none => exact Or.inl ⟨by rintro ⟨⟩, hidle.thenReads hreads₁⟩
    | some salt =>
      dsimp only
      rw [obeys_bind]
      refine write_obeys (fun _ _ ↦ trivial) (fun past₂ hsub hgot _ ↦ ?_)
        fun rc past₂ hreads _ hrc ↦ ?_
      · exact Or.inr ⟨rfl, salt, Past.Got.mono hdrew hsub, hgot⟩
      · have hidle₂ := (hidle.thenReads hreads₁).thenReads hreads
        rw [if_pos hrc]
        split_ifs <;> exact Or.inl ⟨by rintro ⟨⟩, hidle₂⟩

theorem userCreate_reports (request : Pb.UserCreate) (hidle : past.Only fun _ ↦ False) :
    ReportsStatus session (.userCreate request) (userCreate d request) past :=
  (userCreate_obeys request hidle).mono fun past' outcome _ h ↦ by
    rcases h with ⟨hstatus, hidle'⟩ | ⟨rfl, -⟩
    · exact .idle hstatus hidle'
    · exact .silent rfl rfl

theorem changeSshKeys_reports {rpc : Rpc} {s : Write} (hgives : rpc.grants = false)
    (htakes : rpc.takes = false) (past : Past) :
    ReportsStatus session rpc (changeSshKeys d s) past := by
  have hsuccess (rc : ResultCode) : ¬ (!decide (rc.code ≠ 0)) = true := by simp [rc.code_ne_zero]
  rw [changeSshKeys, ReportsStatus, Reports, obeys_bind]
  refine issue_obeys (fun _ _ ↦ trivial) fun rc past' _ _ ↦ ?_
  rw [if_neg (hsuccess rc), obeys_bind]
  refine ((within_true _).obeys (fun _ _ _ _ _ ↦ trivial) past').mono fun _ _ _ _ ↦ ?_
  exact .silent hgives htakes

/-! ### Memberships -/

theorem groupDelete_reports (request : Pb.GroupDelete) (hidle : past.Only fun _ ↦ False) :
    ReportsStatus session (.groupDelete request) (groupDelete (some session) request) past := by
  refine setGrpId_reports hidle fun grpId past₁ _ hidle₁ _ ↦ ?_
  refine isGroupOwner_reports hidle₁ (fun _ ↦ .idle (by rintro ⟨⟩)) fun past₂ _ _ ↦ ?_
  change ReportsStatus session _ (Db.groupDelete grpId >>= fun ok ↦ _) past₂
  rw [Db.groupDelete, ReportsStatus, Reports, obeys_bind, obeys_bind]
  refine issue_obeys (fun _ _ ↦ trivial) fun rc past₃ _ _ ↦ ?_
  rw [obeys_pure, decide_eq_true rc.code_ne_zero]
  exact .silent rfl rfl

theorem groupAddUser_reports (request : Pb.GroupAddUser) (hidle : past.Only fun _ ↦ False) :
    ReportsStatus session (.groupAddUser request) (groupAddUser (some session) request) past := by
  refine setGrpId_reports hidle fun grpId past₁ _ hidle₁ hgrp ↦ ?_
  refine setUserId_reports hidle₁ fun userId past₂ hsub₂ hidle₂ huser ↦ ?_
  refine isGroupOwner_reports hidle₂ (fun _ ↦ .idle (by rintro ⟨⟩)) fun past₃ hsub₃ hidle₃ ↦ ?_
  refine verdict_reports hidle₃ (by rintro ⟨⟩) fun past₄ hsub₄ hgot ↦ ?_
  have hsub := List.Subset.trans hsub₃ hsub₄
  exact .given (l := ⟨.groupsUsers, grpId, userId, request.role.toInt⟩) rfl
    ⟨rfl, (hgrp.mono hsub₂).mono hsub, huser.mono hsub, rfl⟩ ⟨_, rfl, hgot⟩

theorem groupRemoveUser_reports (request : Pb.GroupRemoveUser) (hidle : past.Only fun _ ↦ False) :
    ReportsStatus session (.groupRemoveUser request) (groupRemoveUser (some session) request)
      past := by
  refine setGrpId_reports hidle fun grpId past₁ _ hidle₁ _ ↦ ?_
  refine setUserId_reports hidle₁ fun userId past₂ _ hidle₂ _ ↦ ?_
  refine isGroupOwner_reports hidle₂ (fun _ ↦ .idle (by rintro ⟨⟩)) fun past₃ _ _ ↦ ?_
  change ReportsStatus session _ (Db.groupRemoveUser grpId userId >>= fun _ ↦ _) past₃
  rw [Db.groupRemoveUser, ReportsStatus, Reports, obeys_bind, obeys_bind]
  exact issue_obeys (fun _ _ ↦ trivial) fun _ _ _ _ ↦ .silent rfl rfl

/-- The rule for the four handlers that give or take a role on a repository. -/
theorem memberChange_reports {rpc : Rpc} {repo : Pb.RepoRef} {id? : Option ℤ}
    {name? : Option Bytes} {getId : Bytes → Query ℤ} {unspecified notFound : Outcome Pb.StatusMsg}
    {s : ℤ → ℤ → Write} (hget : ∀ name, (getId name).readsPassword = false)
    (hpick : ∀ name pick db, (getId name).rows pick db = (getId name).rows 0 db)
    (hunspecified : unspecified.Refuses) (hnotFound : notFound.Refuses)
    (hidle : past.Only fun _ ↦ False)
    (hdone : ∀ repoId memberId (past' : Past), past'.Knew (·.NamesRepo repo repoId) →
      past'.Knew (·.Names id? name? getId memberId) →
        past'.Got (.write (s repoId memberId)) .done → Report session rpc past' (some .kSucceed)) :
    ReportsStatus session rpc ((authenticateUser (some session)).orReturn fun caller ↦
      (setRepoId repo).orReturn fun repoId ↦
        (setId id? name? (fun name ↦ fetch (getId name)) unspecified notFound).orReturn
          fun memberId ↦ (checkRepoRole repoId (userIdOf caller) .kOwner).orReturn fun _ ↦
            (do let rc ← issue (.write (s repoId memberId)); return decide (rc = .done)) >>=
              fun ok ↦ if !ok then return reply .kFailed [] else return succeed) past := by
  refine setRepoId_reports hidle fun repoId past₁ _ hidle₁ hrepo ↦ ?_
  refine setId_reports hget hpick hunspecified hnotFound hidle₁
    fun memberId past₂ hsub₂ hidle₂ hmember ↦ ?_
  refine checkRepoRole_reports hidle₂ fun past₃ hsub₃ hidle₃ ↦ ?_
  refine verdict_reports hidle₃ (by rintro ⟨⟩) fun past₄ hsub₄ hgot ↦ ?_
  have hsub := List.Subset.trans hsub₃ hsub₄
  exact hdone repoId memberId past₄ ((hrepo.mono hsub₂).mono hsub) (hmember.mono hsub) hgot

theorem repoAddUser_reports (request : Pb.RepoAddUser) (hidle : past.Only fun _ ↦ False) :
    ReportsStatus session (.repoAddUser request) (repoAddUser (some session) request) past :=
  memberChange_reports (fun _ ↦ rfl) (fun _ _ _ ↦ rfl) (by rintro ⟨⟩) (by rintro ⟨⟩) hidle
    fun repoId userId _ hrepo huser hgot ↦
      .given (l := ⟨.reposUsers, repoId, userId, request.role.toInt⟩) rfl
        ⟨rfl, hrepo, huser, rfl⟩ ⟨_, rfl, hgot⟩

theorem repoRemoveUser_reports (request : Pb.RepoRemoveUser) (hidle : past.Only fun _ ↦ False) :
    ReportsStatus session (.repoRemoveUser request) (repoRemoveUser (some session) request) past :=
  memberChange_reports (fun _ ↦ rfl) (fun _ _ _ ↦ rfl) (by rintro ⟨⟩) (by rintro ⟨⟩) hidle
    fun repoId userId _ hrepo huser hgot ↦
      .taken (k := (.reposUsers, repoId, userId)) rfl ⟨rfl, hrepo, huser⟩ ⟨_, rfl, hgot⟩

theorem repoAddGroup_reports (request : Pb.RepoAddGroup) (hidle : past.Only fun _ ↦ False) :
    ReportsStatus session (.repoAddGroup request) (repoAddGroup (some session) request) past :=
  memberChange_reports (fun _ ↦ rfl) (fun _ _ _ ↦ rfl) (by rintro ⟨⟩) (by rintro ⟨⟩) hidle
    fun repoId grpId _ hrepo hgrp hgot ↦
      .given (l := ⟨.reposGroups, repoId, grpId, request.role.toInt⟩) rfl
        ⟨rfl, hrepo, hgrp, rfl⟩ ⟨_, rfl, hgot⟩

theorem repoRemoveGroup_reports (request : Pb.RepoRemoveGroup) (hidle : past.Only fun _ ↦ False) :
    ReportsStatus session (.repoRemoveGroup request) (repoRemoveGroup (some session) request)
      past :=
  memberChange_reports (fun _ ↦ rfl) (fun _ _ _ ↦ rfl) (by rintro ⟨⟩) (by rintro ⟨⟩) hidle
    fun repoId grpId _ hrepo hgrp hgot ↦
      .taken (k := (.reposGroups, repoId, grpId)) rfl ⟨rfl, hrepo, hgrp⟩ ⟨_, rfl, hgot⟩

/-! ### Repositories -/

theorem repoUpdate_reports (request : Pb.RepoUpdate) (hidle : past.Only fun _ ↦ False) :
    ReportsStatus session (.repoUpdate request) (repoUpdate (some session) request) past := by
  refine setRepoId_reports hidle fun repoId past₁ _ hidle₁ _ ↦ ?_
  refine checkRepoRole_reports hidle₁ fun past₂ _ _ ↦ ?_
  rw [ReportsStatus, Reports, obeys_bind]
  exact issue_obeys (fun _ _ ↦ trivial) fun _ _ _ _ ↦ .silent rfl rfl

theorem repoDelete_reports (request : Pb.RepoDelete) (hidle : past.Only fun _ ↦ False) :
    ReportsStatus session (.repoDelete request) (repoDelete d (some session) request) past := by
  refine setRepoId_reports hidle fun repoId past₁ _ hidle₁ _ ↦ ?_
  refine checkRepoRole_reports hidle₁ fun past₂ _ _ ↦ ?_
  rw [Repositories.remove, ReportsStatus, Reports, obeys_bind, obeys_bind]
  refine issue_obeys (fun _ _ ↦ trivial) fun _ past₃ _ _ ↦ ?_
  rw [obeys_bind]
  exact issue_obeys (fun _ _ ↦ trivial) fun _ _ _ _ ↦ .silent rfl rfl

/-! ### Creations -/

theorem groupCreate_reports (request : Pb.GroupCreate) (hidle : past.Only fun _ ↦ False) :
    Reports session (.groupCreate request) .groupInfo (groupCreate (some session) request)
      past := by
  change Reports session _ .groupInfo
    (Db.groupCreate (request.grp.getD []) request.desc >>= fun r ↦ _) past
  rw [Db.groupCreate, Reports, obeys_bind, obeys_bind]
  refine write_obeys (fun _ _ ↦ trivial) (fun past₁ _ hgot honly ↦ ?_)
    fun rc past₁ hreads _ hrc ↦ ?_
  swap
  · rw [if_pos hrc]
    split_ifs <;> exact .idle (by rintro ⟨⟩) (hidle.thenReads hreads)
  have honly₁ : past₁.Only ((Rpc.groupCreate request).Tries past₁) :=
    honly _ (hidle.imp fun _ ↦ False.elim) rfl
  have hfree (v : World) (hv : v.db.Valid ∧
      ((Query.groupGetId (request.grp.getD [])).rows 0 v.db).head? = none) :
      ∀ row ∈ v.db.groups.rows, row.2.name ≠ request.grp.getD [] := fun row hrow hname ↦ by
    have hsome := hv.1.head?_groupGetId_iff.mpr ⟨row.2, hrow, hname⟩
    rw [hv.2] at hsome
    cases hsome
  rw [if_neg (by simp), if_neg (by simp), obeys_pure, obeys_bind]
  refine fetch_obeys (fun _ _ ↦ trivial) (fun _ _ ↦ rfl) fun grpId past₂ hreads₂ hgone ↦ ?_
  have honly₂ := (honly₁.thenReads hreads₂).imp fun _ ↦ Rpc.Tries.mono hreads₂.subset
  cases grpId with
  | none => exact .refused (by rintro ⟨⟩) honly₂ fun _ ↦ Or.inr (hgone.imp hfree)
  | some _ =>
    dsimp only
    rw [obeys_bind]
    refine fetch_obeys (fun _ _ ↦ trivial) (fun _ _ ↦ rfl) fun grpId past₃ hreads₃ hid ↦ ?_
    have honly₃ := (honly₂.thenReads hreads₃).imp fun _ ↦ Rpc.Tries.mono hreads₃.subset
    cases grpId with
    | none => exact .refused (by rintro ⟨⟩) honly₃ fun _ ↦ Or.inr (hid.imp hfree)
    | some grpId =>
      have hcreated : past₃.CreatedGroup request grpId :=
        ⟨(hgot.mono hreads₂.subset).mono hreads₃.subset,
          hid.imp fun w hw ↦ hw.1.head?_groupGetId_iff.mp hw.2⟩
      dsimp only
      rw [Db.groupAddUser, obeys_bind, obeys_bind]
      refine write_obeys (fun _ _ ↦ trivial) (fun past₄ hsub₄ hgot₄ _ ↦ ?_)
        fun rc past₄ hreads₄ _ hrc ↦ ?_
      · exact .given (l := ⟨.groupsUsers, grpId, session.userId, Pb.Role.kOwner.toInt⟩) rfl
          ⟨rfl, Or.inl ⟨request, rfl, rfl, hcreated.mono hsub₄⟩⟩ ⟨_, rfl, hgot₄⟩
      · -- the owner could not be added, so the group is deleted again
        have honly₄ := (honly₃.thenReads hreads₄).imp fun _ ↦ Rpc.Tries.mono hreads₄.subset
        rw [obeys_pure, decide_eq_false hrc, Db.groupDelete]
        simp only [Bool.not_false, if_true]
        rw [obeys_bind, obeys_bind]
        have hcreated₄ := hcreated.mono hreads₄.subset
        refine write_obeys (fun _ _ ↦ trivial) (fun past₅ hsub₅ hgot₅ honly₅ ↦ ?_)
          fun rc past₅ hreads₅ hgot₅ _ ↦ ?_
        · have hcreated₅ := hcreated₄.mono hsub₅
          exact .refused (by rintro ⟨⟩)
            (honly₅ _ (honly₄.imp fun _ ↦ Rpc.Tries.mono hsub₅) hcreated₅)
            fun _ ↦ Or.inl ⟨grpId, _, hcreated₅, hgot₅⟩
        · exact .refused (by rintro ⟨⟩)
            ((honly₄.thenReads hreads₅).imp fun _ ↦ Rpc.Tries.mono hreads₅.subset)
            fun _ ↦ Or.inl ⟨grpId, _, hcreated₄.mono hreads₅.subset, hgot₅⟩

/-- The repository of this number has got its directory and its creator as an owner. -/
def MakesRepo (d : Deployment) (session : Session) (request : Pb.RepoCreate) (repoId : ℤ)
    (past : Past) : Prop :=
  past.CreatedRepo request repoId ∧
    past.Got (.gitRepositoryInit (Repositories.getRepoPath d repoId)) true ∧
    past.Changed (.add ⟨.reposUsers, repoId, session.userId, Pb.Role.kOwner.toInt⟩)

/-- How `createDirectory` ends: with an error, and all it has changed is the creation that it takes
back, or with the number of the new repository, which is complete. -/
def CreatesDirectory (d : Deployment) (session : Session) (request : Pb.RepoCreate) (repoId : ℤ)
    (past : Past) (r : Except Bytes ℤ) : Prop :=
  (∃ errmsg, r = .error errmsg ∧ past.Only ((Rpc.repoCreate request).Tries past) ∧
      (Rpc.repoCreate request).TakesBack past) ∨
    r = .ok repoId ∧ MakesRepo d session request repoId past

theorem createDirectory_obeys {request : Pb.RepoCreate} {repoId : ℤ}
    (hcreated : past.CreatedRepo request repoId)
    (honly : past.Only ((Rpc.repoCreate request).Tries past)) :
    (Repositories.createDirectory d request.name session.userId repoId).Obeys
      (fun w : World ↦ w.db.Valid) (fun _ _ ↦ True) (CreatesDirectory d session request repoId)
      past := by
  -- the repository is deleted again
  have hundo (errmsg : Bytes) {past₁ : Past} (hsub : past ⊆ past₁)
      (honly₁ : past₁.Only ((Rpc.repoCreate request).Tries past₁)) :
      (do let _ ← issue (.write (.deleteRepoByName request.name)); return .error errmsg :
        Server (Except Bytes ℤ)).Obeys (fun w : World ↦ w.db.Valid) (fun _ _ ↦ True)
        (CreatesDirectory d session request repoId) past₁ := by
    rw [obeys_bind]
    refine write_obeys (fun _ _ ↦ trivial) (fun past₂ hsub₂ hgot₂ honly₂ ↦ ?_)
      fun rc past₂ hreads₂ hgot₂ _ ↦ ?_
    · refine Or.inl ⟨errmsg, rfl, honly₂ _ (honly₁.imp fun _ ↦ Rpc.Tries.mono hsub₂) ?_,
        fun _ ↦ ⟨_, hgot₂⟩⟩
      exact ⟨hcreated.1.mono (List.Subset.trans hsub hsub₂), rfl⟩
    · exact Or.inl ⟨errmsg, rfl,
        (honly₁.thenReads hreads₂).imp fun _ ↦ Rpc.Tries.mono hreads₂.subset,
        fun _ ↦ ⟨rc, hgot₂⟩⟩
  rw [Repositories.createDirectory, obeys_bind]
  refine quiet_obeys (fun _ _ ↦ trivial) (fun e w ↦ exec_gitRepositoryInit_db e w _)
    fun ok past₁ hsub₁ hinit hkeeps ↦ ?_
  have honly₁ := (hkeeps _ honly).imp fun _ ↦ Rpc.Tries.mono hsub₁
  cases ok with
  | false => exact hundo _ hsub₁ honly₁
  | true =>
    rw [if_neg (by simp), Db.repoAddUser, obeys_bind, obeys_bind]
    refine write_obeys (fun _ _ ↦ trivial) (fun past₂ hsub₂ hgot _ ↦ ?_)
      fun rc past₂ hreads₂ _ hrc ↦ ?_
    · exact Or.inr ⟨rfl, hcreated.mono (List.Subset.trans hsub₁ hsub₂), hinit.mono hsub₂, _, rfl,
        hgot⟩
    · rw [obeys_pure, decide_eq_false hrc]
      exact hundo _ (List.Subset.trans hsub₁ hreads₂.subset)
        ((honly₁.thenReads hreads₂).imp fun _ ↦ Rpc.Tries.mono hreads₂.subset)

/-- What a creation answers. -/
def repoInfoOf (request : Pb.RepoCreate) (repoId : ℤ) : Pb.RepoInfo where
  name := some request.name
  desc := some request.desc
  id := some repoId
  isPublic := some request.isPublic
  status := some .kSucceed

/-- `repoCreate` makes the repository of the number it answers with, or reports a failure. -/
theorem repoCreate_obeys (request : Pb.RepoCreate) (hidle : past.Only fun _ ↦ False) :
    (repoCreate d (some session) request).Obeys (fun w : World ↦ w.db.Valid) (fun _ _ ↦ True)
      (fun past' outcome ↦
        (outcome.map Pb.Message.repoInfo).status ≠ some .kSucceed ∧
            Report session (.repoCreate request) past' (outcome.map Pb.Message.repoInfo).status ∨
          ∃ repoId, outcome = .returned true (repoInfoOf request repoId) ∧
            MakesRepo d session request repoId past') past := by
  change (Repositories.create d request.name request.desc request.isPublic session.userId >>=
    fun r ↦ _).Obeys _ _ _ past
  rw [Repositories.create, obeys_bind, obeys_bind]
  refine write_obeys (fun _ _ ↦ trivial) (fun past₁ _ hgot honly ↦ ?_)
    fun rc past₁ hreads _ hrc ↦ ?_
  swap
  · have hidle₁ := hidle.thenReads hreads
    rw [if_pos hrc]
    split_ifs <;> exact Or.inl ⟨by rintro ⟨⟩, .idle (by rintro ⟨⟩) hidle₁⟩
  have honly₁ : past₁.Only ((Rpc.repoCreate request).Tries past₁) :=
    honly _ (hidle.imp fun _ ↦ False.elim) rfl
  rw [if_neg (by simp), if_neg (by simp), obeys_bind]
  refine read_obeys (fun _ _ ↦ trivial) (fun _ _ ↦ rfl) fun repoId past₂ hreads₂ hid ↦ ?_
  refine (createDirectory_obeys ⟨hgot.mono hreads₂.subset, hid⟩
    ((honly₁.thenReads hreads₂).imp fun _ ↦ Rpc.Tries.mono hreads₂.subset)).mono
      fun past₃ r _ h ↦ ?_
  rcases h with ⟨errmsg, rfl, honly₃, hback⟩ | ⟨rfl, hmakes⟩
  · exact Or.inl ⟨by rintro ⟨⟩, .refused (by rintro ⟨⟩) honly₃ hback⟩
  · exact Or.inr ⟨repoId, rfl, hmakes⟩

theorem repoCreate_reports (request : Pb.RepoCreate) (hidle : past.Only fun _ ↦ False) :
    Reports session (.repoCreate request) .repoInfo (repoCreate d (some session) request)
      past :=
  (repoCreate_obeys request hidle).mono fun past' outcome _ h ↦ by
    rcases h with ⟨-, hreport⟩ | ⟨repoId, rfl, hcreated, -, hchanged⟩
    · exact hreport
    · exact .given rfl ⟨rfl, Or.inr ⟨request, rfl, rfl, hcreated⟩⟩ hchanged

/-! ### Logins -/

/-- The call has logged the user in: the token it has stored is the one it answers with. -/
def LogsIn (d : Deployment) (session : Session) (request : Pb.UserAuth) (past : Past)
    (cookies : List Cookie) : Prop :=
  ∃ id token start now, past.Accepted d request ∧
    past.Saw (fun w ↦ w.db.Valid ∧ ∃ user, (id, user) ∈ w.db.users.rows ∧
      user.login = request.user) ∧
    past.Got (.write (.insertUserAuth (castInt id) token start)) .done ∧
    cookies = authCookies d session request.user token now

theorem userAuth_obeys (request : Pb.UserAuth) (hidle : past.Only fun _ ↦ False) :
    (userAuth d (some session) request).Obeys (fun w : World ↦ w.db.Valid) (fun _ _ ↦ True)
      (fun past' r ↦ ((r.1.map Pb.Message.session).status ≠ some .kSucceed ∧
        Past.Only past' fun _ ↦ False) ∨
          r.1 = .returned true { user := some request.user, status := some .kSucceed } ∧
            LogsIn d session request past' r.2) past := by
  rw [userAuth, obeys_bind]
  refine (authenticate_obeys (fun _ _ _ ↦ trivial) fun _ _ _ ↦ trivial).mono
    fun past₁ r _ hauth ↦ ?_
  obtain ⟨hreads₁, haccepted⟩ := hauth
  have hidle₁ : Past.Only past₁ fun _ ↦ False := hidle.thenReads hreads₁
  cases r with
  | error msg => exact Or.inl ⟨by rintro ⟨⟩, hidle₁⟩
  | ok =>
    dsimp only
    rw [obeys_bind]
    refine fetch_obeys (fun _ _ ↦ trivial) (fun _ _ ↦ rfl) fun userId past₂ hreads₂ hid ↦ ?_
    have hidle₂ := hidle₁.thenReads hreads₂
    cases userId with
    | none => exact Or.inl ⟨by rintro ⟨⟩, hidle₂⟩
    | some userId =>
      dsimp only
      rw [obeys_bind]
      refine read_obeys (fun _ _ ↦ trivial) (fun _ _ ↦ rfl) fun auth past₃ hreads₃ _ ↦ ?_
      cases auth with
      | none => exact Or.inl ⟨by rintro ⟨⟩, hidle₂.thenReads hreads₃⟩
      | some auth =>
        dsimp only
        rw [obeys_bind]
        refine read_obeys (fun _ _ ↦ trivial) (fun _ _ ↦ rfl) fun start past₄ hreads₄ _ ↦ ?_
        have hreads := (hreads₂.trans hreads₃).trans hreads₄
        rw [obeys_bind]
        refine write_obeys (fun _ _ ↦ trivial) (fun past₅ hsub₅ hgot _ ↦ ?_)
          fun rc past₅ hreads₅ _ hrc ↦ ?_
        · rw [if_neg (by simp), obeys_bind]
          refine read_obeys (fun _ _ ↦ trivial) (fun _ _ ↦ rfl) fun now past₆ hreads₆ _ ↦ ?_
          have hsub := List.Subset.trans hsub₅ hreads₆.subset
          refine Or.inr ⟨rfl, userId, _, start, now, ?_, ?_, hgot.mono hreads₆.subset, rfl⟩
          · exact (haccepted rfl).mono (List.Subset.trans hreads.subset hsub)
          · refine (hid.imp fun w hw ↦ ?_).mono
              (List.Subset.trans (hreads₃.trans hreads₄).subset hsub)
            exact ⟨hw.1, hw.1.head?_userGetId_iff.mp hw.2⟩
        · rw [if_pos hrc]
          exact Or.inl ⟨by rintro ⟨⟩, (hidle₁.thenReads hreads).thenReads hreads₅⟩

theorem userAuth_reports (request : Pb.UserAuth) (hidle : past.Only fun _ ↦ False) :
    (userAuth d (some session) request).Obeys (fun w : World ↦ w.db.Valid) (fun _ _ ↦ True)
      (fun past' r ↦ Report session (.userAuth request) past' (r.1.map Pb.Message.session).status)
      past :=
  (userAuth_obeys request hidle).mono fun past' r _ h ↦ by
    rcases h with ⟨hstatus, hidle'⟩ | ⟨hr, -⟩
    · exact .idle hstatus hidle'
    · rw [hr]
      exact .silent rfl rfl

end Service

/-! ### All calls -/

theorem answer_reports {ρ : Type} {rpc : Rpc} {message : ρ → Pb.Message}
    {handler : Server (Outcome ρ)} (h : Reports session rpc message handler past) :
    (answer message handler).Obeys (fun w : World ↦ w.db.Valid) (fun _ _ ↦ True)
      (fun past' reply ↦ Report session rpc past' reply.outcome.status) past := by
  rw [answer, obeys_bind]
  exact h

theorem dispatch_reports_of_footprint {rpc : Rpc} (h : rpc.footprint = [])
    (hgives : rpc.grants = false) (htakes : rpc.takes = false) (hidle : past.Only fun _ ↦ False) :
    (dispatch d (some session) rpc).Obeys (fun w : World ↦ w.db.Valid) (fun _ _ ↦ True)
      (fun past' reply ↦ Report session rpc past' reply.outcome.status) past := by
  have hcall : (dispatch d (some session) rpc).Within rpc.Allows fun _ ↦ True :=
    (dispatch_within rpc).mono (fun _ hop ↦ hop) fun _ _ ↦ trivial
  have hwithin := hcall.mono
    (fun op hop ↦ exec_db_of_touches (List.subset_nil.mp (h ▸ hop.1))) fun _ h ↦ h
  refine (keeps_obeys hwithin (fun _ _ ↦ trivial) past).mono fun past' reply _ hreply ↦ ?_
  obtain ⟨-, -, hkeeps⟩ := hreply
  exact ⟨fun _ h ↦ Bool.noConfusion (hgives.symm.trans h),
    fun _ h ↦ Bool.noConfusion (htakes.symm.trans h),
    fun _ ↦ ⟨Past.Only.imp (hkeeps _ hidle) fun _ ↦ False.elim,
      takesBack_of_idle (hkeeps _ hidle) rpc⟩⟩

/-- **Every call of a session reports what it has done.** -/
theorem dispatch_reports (rpc : Rpc) (hidle : past.Only fun _ ↦ False) :
    (dispatch d (some session) rpc).Obeys (fun w : World ↦ w.db.Valid) (fun _ _ ↦ True)
      (fun past' reply ↦ Report session rpc past' reply.outcome.status) past := by
  cases rpc with
  | userAuth request =>
    rw [dispatch, obeys_bind]
    exact Service.userAuth_reports request hidle
  | userCreate request => exact answer_reports (Service.userCreate_reports request hidle)
  | userAddSshKey | userRemoveSshKey =>
    exact answer_reports (Service.changeSshKeys_reports rfl rfl past)
  | groupCreate request => exact answer_reports (Service.groupCreate_reports request hidle)
  | groupDelete request => exact answer_reports (Service.groupDelete_reports request hidle)
  | groupAddUser request => exact answer_reports (Service.groupAddUser_reports request hidle)
  | groupRemoveUser request => exact answer_reports (Service.groupRemoveUser_reports request hidle)
  | repoCreate request => exact answer_reports (Service.repoCreate_reports request hidle)
  | repoUpdate request => exact answer_reports (Service.repoUpdate_reports request hidle)
  | repoDelete request => exact answer_reports (Service.repoDelete_reports request hidle)
  | repoAddUser request => exact answer_reports (Service.repoAddUser_reports request hidle)
  | repoRemoveUser request => exact answer_reports (Service.repoRemoveUser_reports request hidle)
  | repoAddGroup request => exact answer_reports (Service.repoAddGroup_reports request hidle)
  | repoRemoveGroup request => exact answer_reports (Service.repoRemoveGroup_reports request hidle)
  | _ => exact dispatch_reports_of_footprint rfl rfl rfl hidle

theorem serve_api_obeys {request : HttpRequest} {rpc : Rpc} {Q : Session → Past → Reply → Prop}
    (htarget : request.target = .api rpc)
    (h : ∀ session past, (Past.Only past fun _ ↦ False) →
      (dispatch d (some session) rpc).Obeys (fun w : World ↦ w.db.Valid) (fun _ _ ↦ True)
        (Q session) past) :
    (serve d request).Obeys (fun w : World ↦ w.db.Valid) (fun _ _ ↦ True)
      (fun past' response ↦ ∀ reply, response = .api reply → ∃ session,
        Job.Identified past' request session ∧ Q session past' reply) [] := by
  rw [serve, htarget]
  dsimp only
  rw [obeys_map, sessionHandle, obeys_bind]
  refine (sessionAuth_obeys fun _ _ _ _ _ _ ↦ trivial).mono fun past₁ session _ hauth ↦ ?_
  obtain ⟨hreads, hidentified⟩ := hauth
  have hidle : Past.Only past₁ fun _ ↦ False :=
    Past.Only.thenReads (List.forall_mem_nil _) hreads
  refine (h session past₁ hidle).mono fun past₂ reply hsub hreply ↦ ?_
  rintro _ ⟨⟩
  exact ⟨session, Past.Knew.mono hidentified hsub, hreply⟩

theorem serve_reports {request : HttpRequest} {rpc : Rpc} (htarget : request.target = .api rpc) :
    (serve d request).Obeys (fun w : World ↦ w.db.Valid) (fun _ _ ↦ True)
      (fun past' response ↦ ∀ reply, response = .api reply → ∃ session,
        Job.Identified past' request session ∧
          Report session rpc past' reply.outcome.status) [] :=
  serve_api_obeys htarget fun _ _ hidle ↦ dispatch_reports rpc hidle

theorem serve_logsIn {request : HttpRequest} {login : Pb.UserAuth}
    (htarget : request.target = .api (.userAuth login)) :
    (serve d request).Obeys (fun w : World ↦ w.db.Valid) (fun _ _ ↦ True)
      (fun past' response ↦ ∀ reply, response = .api reply → ∃ session,
        Job.Identified past' request session ∧ (reply.outcome.status = some .kSucceed →
          Service.LogsIn d session login past' reply.cookies)) [] := by
  refine serve_api_obeys htarget fun session past hidle ↦ ?_
  rw [dispatch, obeys_bind]
  refine (Service.userAuth_obeys login hidle).mono fun past' r _ h hsucceed ↦ ?_
  rcases h with ⟨hstatus, -⟩ | ⟨-, hlogsIn⟩
  · exact absurd hsucceed hstatus
  · exact hlogsIn

end Handlers

/-! ## Answers in the middle of others -/

section Run

variable {d : Deployment} {jobs : ℕ → Job} {w : World} {s : List (ℕ × Env)} {k : ℕ}
  {request : HttpRequest} {rpc : Rpc} {reply : Reply}

theorem of_done {job : Job} {Q : Past → HttpResponse → Prop} {response : HttpResponse}
    (hw : w.db.Valid) (hjob : jobs k = job)
    (h : (job.program d).Obeys (fun w : World ↦ w.db.Valid) (fun _ _ ↦ True) Q [])
    (hdone : ((System.serving d jobs w).run s).threads k = .done response) :
    Q ((System.serving d jobs w).events k s) response := by
  subst hjob
  have hend := (Pool.obeys_run (c := System.serving d jobs w) exec_valid hw h s).2
  rwa [hdone] at hend

theorem report_of_done (hw : w.db.Valid) (hjob : jobs k = .http request)
    (htarget : request.target = .api rpc)
    (hdone : ((System.serving d jobs w).run s).threads k = .done (.api reply)) :
    ∃ session, Job.Identified ((System.serving d jobs w).events k s) request session ∧
      Report session rpc ((System.serving d jobs w).events k s) reply.outcome.status := by
  have hend := of_done hw hjob (serve_reports htarget) hdone
  exact hend reply rfl

/-- **Who is logged in stays logged in.** In any interleaving of any number of jobs, a `userAuth`
that reports a success was accepted by the authenticator and has stored a token, and at the end the
cookies it has answered with identify the user of the login, unless a logout has deleted the token
afterwards. The numbers of users have to survive the cast to `int`. -/
theorem acknowledged_login {login : Pb.UserAuth} (hw : w.db.Valid) (hjob : jobs k = .http request)
    (htarget : request.target = .api (.userAuth login))
    (hdone : ((System.serving d jobs w).run s).threads k = .done (.api reply))
    (hsucceed : reply.outcome.status = some .kSucceed) :
    let after := (worldAfter d jobs w s).db
    ∃ id user token start now session, (id, user) ∈ after.users.rows ∧ user.login = login.user ∧
      Past.Accepted (pastOf d jobs w s k) d login ∧
      reply.cookies = Service.authCookies d session login.user token now ∧
      (id < 2 ^ 31 → ∃ s₁ s₂, s = s₁ ++ s₂ ∧
        ⟨id, token, start⟩ ∈ (worldAfter d jobs w s₁).db.usersAuths.rows ∧
        (LoggedOut d jobs w s₁ s₂ ⟨id, token, start⟩ ∨
          ∀ isSsl, after.session { user := some login.user, token := some token } isSsl =
            ⟨login.user, id, user.roleId, user.email, token, isSsl⟩)) := by
  intro after
  have hend := of_done hw hjob (serve_logsIn htarget) hdone
  obtain ⟨session, -, hlogsIn⟩ := hend reply rfl
  obtain ⟨id, token, start, now, haccepted, ⟨event, hevent, hvalid, user, huser, hlogin⟩,
    ⟨e, v, hrc, hinsert⟩, hcookies⟩ := hlogsIn hsucceed
  have hin : (id, user) ∈ after.users.rows := mem_users_of_saw hevent huser
  refine ⟨id, user, token, start, now, session, hin, hlogin, haccepted, hcookies, fun hlt ↦ ?_⟩
  rw [Service.castInt_eq (Relational.AutoTable.pos_of_mem_ids
    (Relational.AutoTable.mem_ids_of_mem huser)) hlt] at hinsert hrc
  obtain ⟨s₁, s₂, hs, -, hafter⟩ := Pool.exists_prefix_after_of_mem_events hinsert
  have hstored : ⟨id, token, start⟩ ∈ (worldAfter d jobs w s₁).db.usersAuths.rows := by
    obtain ⟨-, t, ht, hdb⟩ := World.effect_of_done hrc
    rw [worldAfter, hafter]
    change _ ∈ (v.write e _).2.db.usersAuths.rows
    rw [hdb]
    exact (Relational.KeyTable.rows_of_insert ht).1 ▸
      List.mem_append_right _ (List.mem_singleton_self _)
  refine ⟨s₁, s₂, hs, hstored, or_iff_not_imp_left.mpr fun hkept isSsl ↦ ?_⟩
  have hrow : (⟨id, token, start⟩ : UserAuth) ∈ after.usersAuths.rows := by
    by_contra hout
    exact hkept (loggedOut_of_lost hw hstored (hs ▸ hout))
  exact (worldAfter_valid hw s).session_of_stored (r := ((id, user), ⟨id, token, start⟩))
    ⟨hin, hrow, rfl, hlogin, rfl⟩ isSsl

/-- The first user logs in. -/
def HttpRequest.logsIn : HttpRequest where
  cookies := {}
  target := .api (.userAuth { user := text "u", password := text "p" })

/-- He logs in from two places at once. -/
theorem acknowledged_login_logsIn :
    let jobs := Job.first [.logsIn, .logsIn]
    let s : List (ℕ × Env) :=
      [0, 1, 0, 1, 0, 1, 0, 1, 0, 1, 0, 1, 0, 1].map fun k ↦
        (k, { exitStatus := some 0, random := fun _ ↦ k.toUInt8 })
    ∃ token, ∀ isSsl, ((worldAfter .plain jobs .twoSessions s).db.session
      { user := some (text "u"), token := some token } isSsl).userId = 1 := by
  intro jobs s
  have hstatus : endStatus (((System.serving .plain jobs .twoSessions).run s).threads 0) =
      some .kSucceed := by decide +kernel
  obtain ⟨reply, hdone, hsucceed⟩ := exists_reply_of_endStatus hstatus
  have hjob : jobs 0 = .http .logsIn := rfl
  obtain ⟨id, user, token, start, -, -, hin, hlogin, -, -, hlater⟩ :=
    acknowledged_login Database.valid_twoSessions hjob rfl hdone hsucceed
  have hfirst : ∀ row ∈ (worldAfter .plain jobs .twoSessions s).db.users.rows,
      row.2.login = text "u" → row.1 = 1 := by decide +kernel
  obtain rfl := hfirst _ hin hlogin
  obtain ⟨s₁, s₂, hs, -, hout | hsession⟩ := hlater (by decide)
  · refine absurd hout (not_loggedOut hs fun k event hmem ↦ ?_)
    exact (forall_mem_pastOf (R := fun v v' ↦ v.db.Below v'.db) 2 (by decide) (by decide +kernel) k
      event hmem).usersAuths _
  · exact ⟨token, fun isSsl ↦ congrArg Session.userId (hsession isSsl)⟩

end Run

end Scissy
