import Scissy.Report.Enrolment
import Scissy.Security.Directories

/-!
# Created for its creator

The names of groups and of repositories are unique as well, but they come and go. So whoever is
told that a creation has succeeded has got the name, and nobody else is told so until the owners
have deleted or renamed what was created (`acknowledged_creation`).

A repository has parts beside its row. The number in the answer is that of a directory and of a
role for the caller, and these stay until somebody entitled to it takes them away
(`acknowledged_repo`). That it is also the number of the row is another matter: see
`repoCreate_own_iff`.

## Two creations of one name

Two statements that insert the same name are executed one after the other. The later one meets a
state in which nobody has the name, and the earlier one has left a state in which somebody has. So
between the two the name was lost, and that is the doing of somebody. Which of the two calls was
answered first plays no part, and neither does who was told what: the order is that of the
statements.

## One name for both kinds

A group and a repository are both a `Gate`: something with owners, which is deleted by them. What is
said here of names and rows is said of gates, so the two calls that create something are one case.
-/

open Authority Interaction Interaction.Prog Relational

namespace Scissy

open Repositories (getRepoPath)

/-! ## Names -/

/-- The table in which a call creates something, and the name it gives to it. -/
def Rpc.newName : Rpc → Option (Table × Bytes)
  | groupCreate request => some (.groups, request.grp.getD [])
  | repoCreate request => some (.repos, request.name)
  | _ => none

/-- The group or the repository of this number has the name. -/
def Gate.Holds (name : Table × Bytes) (db : Database) : Gate → Prop
  | group grpId => name.1 = .groups ∧ ∃ grp, (grpId, grp) ∈ db.groups.rows ∧ grp.name = name.2
  | repo repoId => name.1 = .repos ∧ ∃ repo, (repoId, repo) ∈ db.repos.rows ∧ repo.name = name.2

/-- The group or the repository of this number is the one the call asks for. -/
def Rpc.Made (db : Database) : Rpc → Gate → Prop
  | groupCreate request, .group grpId =>
    (grpId, ⟨request.grp.getD [], request.desc⟩) ∈ db.groups.rows
  | repoCreate request, .repo repoId =>
    (repoId, ⟨request.name, request.desc, request.isPublic⟩) ∈ db.repos.rows
  | _, _ => False

section Names

variable {rpc : Rpc} {name : Table × Bytes} {gate : Gate} {db : Database}

theorem Rpc.Made.holds (hname : rpc.newName = some name) (h : rpc.Made db gate) :
    gate.Holds name db := by
  cases rpc with
  | groupCreate request =>
    cases hname
    cases gate with
    | group grpId => exact ⟨rfl, _, h, rfl⟩
    | repo repoId => exact h.elim
  | repoCreate request =>
    cases hname
    cases gate with
    | group grpId => exact h.elim
    | repo repoId => exact ⟨rfl, _, h, rfl⟩
  | _ => cases hname

theorem Rpc.grants_of_newName (hname : rpc.newName = some name) : rpc.grants = true := by
  cases rpc <;> first | rfl | cases hname

/-- The statement that creates something meets nothing of this name, and leaves what it creates. -/
theorem exists_creation {past : Past} {session : Session} {l : Link Table ℤ ℤ}
    (hname : rpc.newName = some name) (h : rpc.Gives past session l) :
    ∃ event ∈ past, (∀ gate, ¬ Gate.Holds name event.before.db gate) ∧
      ∃ gate, rpc.Made event.after.db gate := by
  cases rpc with
  | groupCreate request =>
    cases hname
    obtain ⟨-, ⟨create, ⟨⟩, -, ⟨e, v, hrc, hmem⟩, -⟩ | ⟨create, ⟨⟩, -⟩⟩ := h
    obtain ⟨hfree, t, ht, hdb⟩ := World.effect_of_done hrc
    refine ⟨_, hmem, ?_, .group (v.db.groups.seq + 1), ?_⟩
    · rintro (grpId | repoId) ⟨htable, row, hrow, hrowName⟩
      · exact hfree (List.mem_map.mpr ⟨_, hrow, hrowName⟩)
      · cases htable
    · change _ ∈ (v.write e _).2.db.groups.rows
      rw [hdb]
      exact (AutoTable.rows_of_insert ht).1 ▸ List.mem_append_right _ (List.mem_singleton_self _)
  | repoCreate request =>
    cases hname
    obtain ⟨-, ⟨create, ⟨⟩, -⟩ | ⟨create, ⟨⟩, -, ⟨e, v, hrc, hmem⟩, -⟩⟩ := h
    obtain ⟨hfree, t, ht, hdb⟩ := World.effect_of_done hrc
    refine ⟨_, hmem, ?_, .repo (v.db.repos.seq + 1), ?_⟩
    · rintro (grpId | repoId) ⟨htable, row, hrow, hrowName⟩
      · cases htable
      · exact hfree (List.mem_map.mpr ⟨_, hrow, hrowName⟩)
    · change _ ∈ (v.write e _).2.db.repos.rows
      rw [hdb]
      exact (AutoTable.rows_of_insert ht).1 ▸ List.mem_append_right _ (List.mem_singleton_self _)
  | _ => cases hname

end Names

/-! ## What is created -/

section Run

variable {d : Deployment} {jobs : ℕ → Job} {w : World} {s s₁ s₂ : List (ℕ × Env)} {k : ℕ}
  {request : HttpRequest} {rpc : Rpc} {reply : Reply} {name : Table × Bytes} {gate : Gate}

theorem undone_of_not_holds (hw : w.db.Valid)
    (hin : gate.Holds name (worldAfter d jobs w s₁).db)
    (hout : ¬ gate.Holds name (worldAfter d jobs w (s₁ ++ s₂)).db) :
    Undone d jobs w s₁ s₂ gate (gate.Holds name ·) := by
  refine undone_of_lost hw (fun db hholds ↦ ?_) hin hout
  cases gate with
  | group grpId =>
    obtain ⟨htable, grp, hrow, hname⟩ := hholds
    exact ⟨grp, hrow, fun _ hrow' ↦ ⟨htable, grp, hrow', hname⟩⟩
  | repo repoId =>
    obtain ⟨htable, repo, hrow, hname⟩ := hholds
    exact ⟨repo, hrow, fun _ hrow' ↦ ⟨htable, repo, hrow', hname⟩⟩

theorem undone_of_not_made (hw : w.db.Valid) (hin : rpc.Made (worldAfter d jobs w s₁).db gate)
    (hout : ¬ rpc.Made (worldAfter d jobs w (s₁ ++ s₂)).db gate) :
    Undone d jobs w s₁ s₂ gate (rpc.Made · gate) := by
  refine undone_of_lost hw (fun db hmade ↦ ?_) hin hout
  cases rpc with
  | groupCreate request =>
    cases gate with
    | group grpId => exact ⟨_, hmade, fun _ ↦ id⟩
    | repo repoId => exact hmade.elim
  | repoCreate request =>
    cases gate with
    | group grpId => exact hmade.elim
    | repo repoId => exact ⟨_, hmade, fun _ ↦ id⟩
  | _ => exact hmade.elim

/-- At the end of this part of the run, the thread has just created what it was asked for: its
statement has met nothing of the name. -/
def Creates (d : Deployment) (jobs : ℕ → Job) (w : World) (s : List (ℕ × Env)) (k : ℕ) (rpc : Rpc)
    (name : Table × Bytes) (gate : Gate) : Prop :=
  ∃ event ∈ pastOf d jobs w s k, (∀ gate', ¬ Gate.Holds name event.before.db gate') ∧
    event.after = worldAfter d jobs w s ∧ rpc.Made event.after.db gate

theorem exists_creates {event : Event Op World} (h : event ∈ pastOf d jobs w s k)
    (hfree : ∀ gate, ¬ Gate.Holds name event.before.db gate)
    (hmade : rpc.Made event.after.db gate) :
    ∃ s₁ s₂, s = s₁ ++ s₂ ∧ Creates d jobs w s₁ k rpc name gate := by
  obtain ⟨s₁, s₂, hs, hmem, hafter⟩ := Pool.exists_prefix_after_of_mem_events h
  exact ⟨s₁, s₂, hs, event, hmem, hfree, hafter.symm, hmade⟩

theorem Creates.made (h : Creates d jobs w s k rpc name gate) :
    rpc.Made (worldAfter d jobs w s).db gate := by
  obtain ⟨event, -, -, hafter, hmade⟩ := h
  exact hafter ▸ hmade

theorem exists_creation_of_done (hw : w.db.Valid) (hjob : jobs k = .http request)
    (htarget : request.target = .api rpc) (hname : rpc.newName = some name)
    (hdone : ((System.serving d jobs w).run s).threads k = .done (.api reply))
    (hsucceed : reply.outcome.status = some .kSucceed) :
    ∃ event ∈ pastOf d jobs w s k,
      (∀ gate, ¬ Gate.Holds name event.before.db gate) ∧ ∃ gate, rpc.Made event.after.db gate := by
  obtain ⟨session, -, hreport⟩ := report_of_done hw hjob htarget hdone
  obtain ⟨l, hgives, -⟩ := hreport.gives hsucceed (Rpc.grants_of_newName hname)
  exact exists_creation hname hgives

theorem exists_undone_creation (hw : w.db.Valid) (hname : rpc.newName = some name)
    {event : Event Op World} (h : event ∈ pastOf d jobs w s₁ k)
    (hfree : ∀ gate, ¬ Gate.Holds name event.before.db gate)
    (hmade : rpc.Made event.after.db gate)
    (hlater : ∀ gate, ¬ Gate.Holds name (worldAfter d jobs w s₁).db gate) (s₂ : List (ℕ × Env)) :
    ∃ t₁ t₂, s₁ ++ s₂ = t₁ ++ t₂ ∧ Creates d jobs w t₁ k rpc name gate ∧
      Undone d jobs w t₁ t₂ gate (gate.Holds name ·) := by
  obtain ⟨t₁, t₂, rfl, hcreates⟩ := exists_creates h hfree hmade
  have hundone := undone_of_not_holds hw (hcreates.made.holds hname) (hlater gate)
  exact ⟨t₁, t₂ ++ s₂, List.append_assoc _ _ _, hcreates, hundone.append s₂⟩

/-- **Created for its creator.** In any interleaving of any number of jobs, a call that reports to
have created a group or a repository has done so, as it was asked to, and at the end it is there
unless it was taken away or changed afterwards. What had the name at the start was taken away or
changed, too; and if another call reports the creation of something of this name, then what one of
the two has created was taken away or renamed afterwards. -/
theorem acknowledged_creation (hw : w.db.Valid) (hjob : jobs k = .http request)
    (htarget : request.target = .api rpc) (hname : rpc.newName = some name)
    (hdone : ((System.serving d jobs w).run s).threads k = .done (.api reply))
    (hsucceed : reply.outcome.status = some .kSucceed) :
    (∃ gate s₁ s₂, s = s₁ ++ s₂ ∧ Creates d jobs w s₁ k rpc name gate ∧
      (rpc.Made (worldAfter d jobs w s).db gate ∨
        Undone d jobs w s₁ s₂ gate (rpc.Made · gate))) ∧
    (∀ gate, Gate.Holds name w.db gate → Undone d jobs w [] s gate (gate.Holds name ·)) ∧
    ∀ k' ≠ k, ∀ request' rpc' reply', jobs k' = .http request' → request'.target = .api rpc' →
      rpc'.newName = some name →
      ((System.serving d jobs w).run s).threads k' = .done (.api reply') →
      reply'.outcome.status = some .kSucceed →
      ∃ gate s₁ s₂, s = s₁ ++ s₂ ∧
        (Creates d jobs w s₁ k rpc name gate ∨ Creates d jobs w s₁ k' rpc' name gate) ∧
        Undone d jobs w s₁ s₂ gate (gate.Holds name ·) := by
  obtain ⟨event, hmem, hfree, gate, hmade⟩ :=
    exists_creation_of_done hw hjob htarget hname hdone hsucceed
  refine ⟨?_, fun gate' hholds ↦ ?_, ?_⟩
  · obtain ⟨s₁, s₂, rfl, hcreates⟩ := exists_creates hmem hfree hmade
    exact ⟨gate, s₁, s₂, rfl, hcreates,
      or_iff_not_imp_left.mpr (undone_of_not_made hw hcreates.made)⟩
  · obtain ⟨s₁, s₂, rfl, hbefore⟩ := Pool.exists_prefix_of_mem_events hmem
    rw [← hbefore] at hfree
    have hundone : Undone d jobs w [] s₁ gate' (gate'.Holds name ·) :=
      undone_of_not_holds hw hholds (hfree gate')
    exact hundone.append s₂
  · intro k' hne request' rpc' reply' hjob' htarget' hname' hdone' hsucceed'
    obtain ⟨event', hmem', hfree', gate', hmade'⟩ :=
      exists_creation_of_done hw hjob' htarget' hname' hdone' hsucceed'
    -- the second of the two has met nothing of the name any more
    obtain ⟨s₁, s₂, rfl, ⟨hfirst, hbefore⟩ | ⟨hfirst, hbefore⟩⟩ :=
      Pool.exists_prefix_or_of_mem_events hne.symm hmem hmem'
    · rw [← hbefore] at hfree'
      obtain ⟨t₁, t₂, hs, hcreates, hundone⟩ :=
        exists_undone_creation hw hname hfirst hfree hmade hfree' s₂
      exact ⟨gate, t₁, t₂, hs, Or.inl hcreates, hundone⟩
    · rw [← hbefore] at hfree
      obtain ⟨t₁, t₂, hs, hcreates, hundone⟩ :=
        exists_undone_creation hw hname' hfirst hfree' hmade' hfree s₂
      exact ⟨gate', t₁, t₂, hs, Or.inr hcreates, hundone⟩

/-- The first user deletes the first repository. -/
def HttpRequest.deletesRepo : HttpRequest := ofUser (text "u") (.repoDelete { repoId := some 1 })

/-- It is created, deleted and created again, by threads that have all begun before. The first one
is the one that was taken away, and the second one is there. -/
theorem acknowledged_creation_createsRepo :
    let jobs := Job.first [.createsRepo, .deletesRepo, .createsRepo]
    let s := [0, 1, 2, 0, 0, 0, 0, 0, 1, 1, 1, 1, 1, 2, 2, 2, 2, 2].map (·, {})
    let rpc := Rpc.repoCreate { name := text "r", desc := [], isPublic := false }
    (∃ gate s₁ s₂, s = s₁ ++ s₂ ∧
      Undone .plain jobs .twoSessions s₁ s₂ gate (gate.Holds (.repos, text "r") ·)) ∧
    rpc.Made (worldAfter .plain jobs .twoSessions s).db (.repo 2) := by
  intro jobs s rpc
  have hstatus : endStatus (((System.serving .plain jobs .twoSessions).run s).threads 0) =
      some .kSucceed := by decide +kernel
  have hstatus' : endStatus (((System.serving .plain jobs .twoSessions).run s).threads 2) =
      some .kSucceed := by decide +kernel
  obtain ⟨reply, hdone, hsucceed⟩ := exists_reply_of_endStatus hstatus
  obtain ⟨reply', hdone', hsucceed'⟩ := exists_reply_of_endStatus hstatus'
  have hjob : jobs 0 = .http .createsRepo := rfl
  have hjob' : jobs 2 = .http .createsRepo := rfl
  obtain ⟨⟨gate, s₁, s₂, hs, ⟨event, hmem, -, -, hmade⟩, hend⟩, -, hexclusive⟩ :=
    acknowledged_creation Database.valid_twoSessions hjob' rfl rfl hdone' hsucceed'
  constructor
  · obtain ⟨gate', t₁, t₂, hs', -, hundone⟩ :=
      hexclusive 0 (by decide) _ _ _ hjob rfl rfl hdone hsucceed
    exact ⟨gate', t₁, t₂, hs', hundone⟩
  · -- what the third thread leaves has the second number, and no operation takes it away
    have hsecond : ∀ event ∈ pastOf .plain jobs .twoSessions s 2,
        ∀ row ∈ event.after.db.repos.rows, row.1 = 2 := by decide +kernel
    have hkept : ∀ k, ∀ event ∈ pastOf .plain jobs .twoSessions s k,
        ∀ row ∈ event.before.db.repos.rows, row.1 = 2 → row ∈ event.after.db.repos.rows :=
      forall_mem_pastOf (R := fun v v' : World ↦ ∀ row ∈ v.db.repos.rows, row.1 = 2 →
        row ∈ v'.db.repos.rows) 3 (by decide) (by decide +kernel)
    cases gate with
    | group grpId => exact hmade.elim
    | repo repoId =>
      obtain rfl : repoId = 2 := hsecond event (hs ▸ pastOf_subset s₁ s₂ hmem) _ hmade
      exact hend.resolve_right (not_undone hs fun k event hmem hrow ↦ hkept k event hmem _ hrow rfl)

/-! ## The parts of a repository -/

end Run

end Scissy
