import Scissy.Security.Attribution
import Scissy.Storage.Disk

/-!
# Whose directories

The repositories on the disk are no rows, and no transaction holds the two together. But they follow
the same rules: a directory comes from a request that has inserted a repository, and it goes with a
request that deletes one, of an owner of that repository. Between the two no request changes what is
in it (`directories_attributed`).

## Numbers and paths

The path of a directory is the number of a repository in hexadecimal, and different numbers have
different paths (`getRepoPath_injOn`). So a directory that is removed belongs to one repository, and
it is an owner of this one who was admitted. For the making of a directory the number is the one
that the request was told, which need not be that of the row it has inserted.
-/

open Interaction Interaction.Prog

namespace Scissy

open Repositories (getRepoPath)

section Run

variable {d : Deployment} {jobs : ℕ → Job} {w : World} {s₁ s₂ : List (ℕ × Env)}

theorem Job.asked_gitRepositoryInit {job : Job} {past : Past} {path : Bytes}
    (h : job.Authorized d past (.gitRepositoryInit path)) :
    ∃ create repoId, job.rpc? = some (.repoCreate create) ∧ past.CreatedRepo create repoId ∧
      path = getRepoPath d repoId := by
  cases job with
  | socket rpc =>
    obtain ⟨create, repoId, rfl, hcreated, hpath⟩ := h
    exact ⟨create, repoId, rfl, hcreated, hpath⟩
  | http request =>
    obtain ⟨cookies, isSsl, target⟩ := request
    obtain ⟨session, -, h⟩ := h.resolve_left Bool.false_ne_true
    cases target with
    | api rpc =>
      obtain ⟨create, repoId, rfl, hcreated, hpath⟩ := h
      exact ⟨create, repoId, rfl, hcreated, hpath⟩
    | logout => exact h.elim
    | archive location =>
      obtain ⟨_, -, ⟨⟩⟩ := h

theorem Job.asked_rm {job : Job} {past : Past} {path : Bytes}
    (h : job.Authorized d past (.rm path)) :
    ∃ request session delete repoId, job = .http request ∧
      request.target = .api (.repoDelete delete) ∧ Identified past request session ∧
      past.AdmittedToRepo session delete.toRepoRef repoId ∧ path = getRepoPath d repoId := by
  cases job with
  | socket rpc =>
    obtain ⟨_, _, _, ⟨⟩, -⟩ := h
  | http request =>
    obtain ⟨cookies, isSsl, target⟩ := request
    obtain ⟨session, hidentified, h⟩ := h.resolve_left Bool.false_ne_true
    cases target with
    | api rpc =>
      obtain ⟨_, delete, repoId, ⟨⟩, rfl, hadmitted, hpath⟩ := h
      exact ⟨_, session, delete, repoId, rfl, rfl, hidentified, hadmitted, hpath⟩
    | logout => exact h.elim
    | archive location =>
      obtain ⟨_, -, ⟨⟩⟩ := h

/-- What no longer holds of a directory: a job has made it, or removed it. -/
theorem exists_git_op (hw : w.db.Valid) {path : Bytes} {P : Option GitRepository → Prop}
    (h : P ((worldAfter d jobs w s₁).repositories path))
    (h' : ¬ P ((worldAfter d jobs w (s₁ ++ s₂)).repositories path)) :
    ∃ k mid, (P none ∧ (jobs k).Authorized d (pastOf d jobs w s₁ k ++ mid)
        (.gitRepositoryInit path) ∧ pastOf d jobs w s₁ k ++ mid ⊆ pastOf d jobs w (s₁ ++ s₂) k) ∨
      ¬ P none ∧ ∃ root e v later, ((System.serving d jobs w).run s₁).events k s₂ =
          mid ++ .of (.rm root) e v :: later ∧ P (v.repositories path) ∧
        World.under root path = true ∧
        (jobs k).Authorized d (pastOf d jobs w s₁ k ++ mid) (.rm root) := by
  obtain ⟨k, mid, β, op, e, v, later, hs, -, hP, hP', hallowed⟩ :=
    exists_op hw (P := fun v ↦ P (v.repositories path)) h h'
  refine ⟨k, mid, ?_⟩
  cases op with
  | gitRepositoryInit path' =>
    change ¬ P ((Op.exec _ e v).2.repositories path) at hP'
    rw [Op.exec] at hP'
    split_ifs at hP' with hfails
    · exact absurd hP hP'
    · dsimp only at hP'
      split_ifs at hP' with hpath
      · subst hpath
        -- a repository that is there is kept
        cases hrepo : v.repositories path with
        | none =>
          rw [hrepo] at hP
          refine Or.inl ⟨hP, hallowed, ?_⟩
          rw [pastOf, pastOf, Pool.events_append, hs, ← List.append_assoc]
          exact List.subset_append_left _ _
        | some repo =>
          rw [hrepo] at hP hP'
          exact absurd hP hP'
      · exact absurd hP hP'
  | rm root =>
    change ¬ P (if World.under root path then none else v.repositories path) at hP'
    split_ifs at hP' with hunder
    · exact Or.inr ⟨hP', root, e, v, later, hs, hP, hunder, hallowed⟩
    · exact absurd hP hP'
  | write stmt =>
    have hsame : (v.write e stmt).2.repositories = v.repositories := by
      rcases World.write_spec stmt e v with ⟨-, -, -, hrest⟩ | ⟨-, hsame⟩
      · rw [hrest]
      · rw [hsame]
    rw [exec_write, hsame] at hP'
    exact absurd hP hP'
  | _ => exact absurd hP hP'

theorem Past.AdmittedToRepo.bounds {past : Past} {session : Session} {msg : Pb.RepoRef} {repoId : ℤ}
    (h : past.AdmittedToRepo session msg repoId)
    (hvalid : ∀ event ∈ past, event.before.db.Valid) : 0 < repoId ∧ repoId ≤ maxRowid := by
  obtain ⟨-, event, hmem, howner⟩ := h
  by_contra hout
  have hnone : repoId ∉ event.before.db.repos.ids := fun hin ↦
    hout (Relational.AutoTable.bounds_of_mem_ids hin)
  rw [Gate.Admits, (hvalid event hmem).reportedRole_of_notMem_repos hnone] at howner
  exact absurd howner (by decide)

/-- A call that deletes the repository, of a user admitted as its owner, has removed the
directory. -/
def DirectoryRemoved (d : Deployment) (jobs : ℕ → Job) (w : World) (s₁ s₂ : List (ℕ × Env))
    (repoId : ℤ) : Prop :=
  ∃ delete, ∃ deed : Deed d jobs w s₁ s₂ (.api (.repoDelete delete)) (.rm (getRepoPath d repoId)),
    deed.ByOwner (.repo repoId) ∧
      deed.past.AdmittedToRepo deed.session delete.toRepoRef repoId ∧
      deed.Ends (·.repositories (getRepoPath d repoId) ≠ none)

theorem directoryRemoved_of_lost (hw : w.db.Valid) {repoId : ℤ} {repo : GitRepository}
    (hpos : 0 < repoId) (hle : repoId ≤ maxRowid)
    (hin : (worldAfter d jobs w s₁).repositories (getRepoPath d repoId) = some repo)
    (hout : (worldAfter d jobs w (s₁ ++ s₂)).repositories (getRepoPath d repoId) ≠ some repo) :
    DirectoryRemoved d jobs w s₁ s₂ repoId := by
  obtain ⟨k, mid, ⟨⟨⟩, -⟩ | ⟨-, root, e, v, later, hs, hP, hunder, hallowed⟩⟩ :=
    exists_git_op hw (P := (· = some repo)) hin hout
  obtain ⟨request, session, delete, repoId', hjob, htarget, hidentified, hadmitted, rfl⟩ :=
    Job.asked_rm hallowed
  let deed : Deed d jobs w s₁ s₂ _ _ :=
    ⟨k, request, session, mid, e, v, later, hjob, htarget, hs, hidentified⟩
  have hbounds := Past.AdmittedToRepo.bounds hadmitted (deed.valid hw)
  obtain rfl := (under_getRepoPath_iff d hbounds ⟨hpos, hle⟩).mp hunder
  refine ⟨delete, deed, deed.byOwner hw hadmitted.2.knew, hadmitted, ?_, ?_⟩
  · exact Option.ne_none_iff_exists'.mpr ⟨repo, hP⟩
  · exact not_not.mpr (if_pos hunder)

/-- **Whose directories.** In any interleaving of any number of jobs, a directory appears only when
a request has inserted a repository, as far as the request knows the one of this number; and what a
directory contains is left alone, unless an owner of the repository deletes it. -/
theorem directories_attributed (hw : w.db.Valid) :
    (∀ path, (worldAfter d jobs w s₁).repositories path = none →
      (worldAfter d jobs w (s₁ ++ s₂)).repositories path ≠ none →
      ∃ k create repoId, (jobs k).rpc? = some (.repoCreate create) ∧
        Past.CreatedRepo (pastOf d jobs w (s₁ ++ s₂) k) create repoId ∧
        path = getRepoPath d repoId) ∧
    ∀ repoId repo, 0 < repoId → repoId ≤ maxRowid →
      (worldAfter d jobs w s₁).repositories (getRepoPath d repoId) = some repo →
      (worldAfter d jobs w (s₁ ++ s₂)).repositories (getRepoPath d repoId) ≠ some repo →
      DirectoryRemoved d jobs w s₁ s₂ repoId := by
  refine ⟨fun path hout hin ↦ ?_, fun repoId repo ↦ directoryRemoved_of_lost hw⟩
  obtain ⟨k, mid, ⟨-, hallowed, hsub⟩ | ⟨hne, -⟩⟩ := exists_git_op hw (P := (· = none)) hout hin
  · obtain ⟨create, repoId, hrpc, hcreated, hpath⟩ := Job.asked_gitRepositoryInit hallowed
    exact ⟨k, create, repoId, hrpc, Past.CreatedRepo.mono hcreated hsub, hpath⟩
  · exact absurd rfl hne

theorem directories_attributed_createsRepo :
    let jobs := Job.first [.createsRepo]
    let s := List.replicate 9 (0, {})
    ∃ k create repoId, (jobs k).rpc? = some (.repoCreate create) ∧
      Past.CreatedRepo (pastOf .plain jobs .twoSessions s k) create repoId ∧
      getRepoPath .plain 1 = getRepoPath .plain repoId := by
  intro jobs s
  have hmade : (worldAfter .plain jobs .twoSessions ([] ++ s)).repositories
      (getRepoPath .plain 1) ≠ none := Option.isSome_iff_ne_none.mp (by decide +kernel)
  exact (directories_attributed Database.valid_twoSessions).1 _ rfl hmade

end Run

end Scissy
