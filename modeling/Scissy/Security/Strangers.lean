import Scissy.Security.Directories
import Scissy.Security.Escalation

/-!
# Requests of strangers

Requests whose cookies identify nobody, and calls from the socket. Whatever they ask for and
however their operations are interleaved, nothing of what was there is lost or changed
(`strangers_harmless`). They are not without effect: accounts can be registered, and groups and
repositories without members can be created. Those are undone again when the creator cannot be made
their owner, and the point of the proof is that what is undone is never something that was there
before.

## Why nothing old is undone

A group is deleted by a number that was looked up by the name, and the call that looks it up has
inserted the name. What was there at the start has kept its name, since nobody could rename it, so
the number is another one. A repository is deleted by its name, and the name was free when it was
inserted. Both arguments are about what has stayed since the start, so they need the theorem itself
for the part of the run before: it is proved along the run.

## What counts as a stranger

A job is a stranger if no token that its cookies carry is stored at any moment at which it looks. A
token that is issued to it later would make it somebody, so the condition is on the whole run and
not on the start.
-/

open Authority Relational Interaction Interaction.Prog

namespace Scissy

/-- What was in the first world is in the second one, and nobody has got any right. -/
structure World.Untouched (w w' : World) : Prop where
  users : KeepsUsers w.db w'.db
  groups : w.db.groups.rows ⊆ w'.db.groups.rows
  repos : w.db.repos.rows ⊆ w'.db.repos.rows
  links : w'.db.graph.links = w.db.graph.links
  sshKeys : ∀ row, row ∈ w'.db.usersSshKeys.rows ↔ row ∈ w.db.usersSshKeys.rows
  tokens : w.db.usersAuths.rows ⊆ w'.db.usersAuths.rows
  repositories : ∀ path repo, w.repositories path = some repo → w'.repositories path = some repo

theorem World.Untouched.refl (w : World) : w.Untouched w :=
  ⟨.refl w.db, List.Subset.refl _, List.Subset.refl _, rfl, fun _ ↦ Iff.rfl, List.Subset.refl _,
    fun _ _ ↦ id⟩

/-- The cookies of the job identify nobody whenever it looks. -/
def Job.Stranger (job : Job) (event : Event Op World) : Prop :=
  ∀ request, job = .http request → ∀ userId, ¬ event.before.db.StoredFor request.cookies userId

section Stranger

variable {d : Deployment} {job : Job} {past : Past} {w v : World} {stmt : Write}

/-- What a stranger's events have in common. -/
def StrangersPast (w : World) (job : Job) (past : Past) : Prop :=
  ∀ event ∈ past, job.Stranger event ∧ event.before.db.Valid ∧ w.Untouched event.before

namespace StrangersPast

theorem anonymous {request : HttpRequest} {session : Session}
    (h : StrangersPast w (.http request) past) (hidentified : Job.Identified past request session) :
    session = { isSsl := request.isSsl } := by
  by_contra hne
  obtain ⟨event, hmem, hopens⟩ := hidentified.opened (fun event hmem ↦ (h event hmem).2.1) hne
  exact (h event hmem).1 request rfl _ hopens.storedFor

/-- A stranger is admitted nowhere. -/
theorem not_admitted {request : HttpRequest} {session : Session} {gate : Gate}
    (h : StrangersPast w (.http request) past) (hidentified : Job.Identified past request session) :
    ¬ past.Knew fun db ↦ gate.Admits session db := fun hknew ↦
  Gate.ne_anonymous_of_knew hknew (fun event hmem ↦ (h event hmem).2.1) _
    (h.anonymous hidentified)

theorem takesBack {gate : Gate} (h : StrangersPast w job past)
    (hstmt : stmt.takesFrom = some gate) (hallowed : job.Authorized d past (.write stmt)) :
    ∃ groupId rpc, stmt = .deleteGroup groupId ∧ TakesBackGroup past rpc groupId := by
  obtain ⟨request, session, rpc, rfl, -, hidentified, -, hknew | ⟨groupId, hdelete, hback⟩⟩ :=
    Job.asked_take hstmt hallowed
  · exact absurd hknew (h.not_admitted hidentified)
  · exact ⟨groupId, rpc, hdelete, hback⟩

theorem not_takesBackGroup {rpc : Rpc} {groupId : ℤ} (h : StrangersPast w job past)
    (hgroup : groupId ∈ w.db.groups.ids) : ¬ TakesBackGroup past rpc groupId := by
  rintro ⟨create, -, ⟨e, u, hdone, hinsert⟩, event, hmem, grp, hgrp, hname⟩
  obtain ⟨grp₀, hgrp₀⟩ := AutoTable.mem_ids.mp hgroup
  obtain rfl := AutoTable.eq_of_mem_of_mem hgrp ((h event hmem).2.2.groups hgrp₀)
  have hfree := (World.effect_of_done hdone).1
  refine hfree (hname ▸ List.mem_map.mpr ⟨_, (h _ hinsert).2.2.groups hgrp₀, rfl⟩)

theorem not_takesBackRepo {rpc : Rpc} {repoId : ℤ} {repo : Repo} (h : StrangersPast w job past)
    (hrepo : (repoId, repo) ∈ w.db.repos.rows) : ¬ TakesBackRepo past rpc repo.name := by
  rintro ⟨create, -, ⟨e, u, hdone, hinsert⟩, hname⟩
  have hfree := (World.effect_of_done hdone).1
  exact hfree (hname ▸ List.mem_map.mpr ⟨_, (h _ hinsert).2.2.repos hrepo, rfl⟩)

end StrangersPast

/-! ## One statement -/

section Statement

variable {now : ℤ} {db' : Database} (h : StrangersPast w job past)
  (hallowed : job.Authorized d past (.write stmt)) (heffect : stmt.Effect now v.db db')

include h hallowed heffect

theorem StrangersPast.keeps_group {row : ℤ × Group} (hrow : row ∈ w.db.groups.rows)
    (hin : row ∈ v.db.groups.rows) : row ∈ db'.groups.rows := by
  by_contra hout
  obtain rfl := heffect.group_deleted hin hout
  obtain ⟨groupId, rpc, hdelete, hback⟩ := h.takesBack rfl hallowed
  obtain rfl := Write.deleteGroup.inj hdelete
  exact h.not_takesBackGroup (AutoTable.mem_ids_of_mem hrow) hback

theorem StrangersPast.keeps_repo {row : ℤ × Repo} (hrow : row ∈ w.db.repos.rows)
    (hin : row ∈ v.db.repos.rows) : row ∈ db'.repos.rows := by
  by_contra hout
  rcases heffect.repo_deleted hin hout with rfl | rfl | ⟨name, desc, isPublic, rfl⟩
  · obtain ⟨groupId, rpc, ⟨⟩, -⟩ := h.takesBack rfl hallowed
  · obtain ⟨-, -, rpc, -, -, -, -, hback⟩ := Job.asked_deleteRepoByName hallowed
    exact h.not_takesBackRepo hrow hback
  · obtain ⟨groupId, rpc, ⟨⟩, -⟩ := h.takesBack rfl hallowed

theorem StrangersPast.keeps_link (hw : w.db.Valid) (hv : v.db.Valid) (huntouched : w.Untouched v)
    {l : Link Table ℤ ℤ} (hin : l ∈ v.db.graph.links) : l ∈ db'.graph.links := by
  by_contra hout
  have hlink : l ∈ w.db.graph.links := huntouched.links ▸ hin
  rcases heffect.link_deleted hv hin hout with hremove | ⟨g, rfl, habout⟩ | ⟨hkind, rfl | hname⟩
  · obtain ⟨groupId, rpc, rfl, -⟩ := h.takesBack (takesFrom_of_change_remove hremove) hallowed
    cases hremove
  · obtain ⟨groupId, rpc, hdelete, hback⟩ := h.takesBack rfl hallowed
    obtain rfl := Write.deleteGroup.inj hdelete
    refine h.not_takesBackGroup ?_ hback
    exact Database.hasGroup_graph.mp (hw.closed_graph l hlink g habout)
  · obtain ⟨groupId, rpc, ⟨⟩, -⟩ := h.takesBack rfl hallowed
  · obtain ⟨repo, hrepo, rfl⟩ := hname
    obtain ⟨-, -, rpc, -, -, -, -, hback⟩ := Job.asked_deleteRepoByName hallowed
    obtain ⟨repo₀, hrepo₀⟩ := AutoTable.mem_ids.mp (Write.left_mem_repos_of_link hw hlink hkind)
    obtain rfl := AutoTable.eq_of_mem_of_mem hrepo (huntouched.repos hrepo₀)
    exact h.not_takesBackRepo hrepo₀ hback

theorem StrangersPast.adds_no_link (hdb' : db'.Valid) {l : Link Table ℤ ℤ}
    (hin : l ∈ db'.graph.links) : l ∈ v.db.graph.links := by
  by_contra hout
  obtain ⟨request, session, rpc, rfl, -, hidentified, -, hknew | howns⟩ :=
    Job.asked_add (heffect.link_inserted hout hin) hallowed
  · exact h.not_admitted hidentified hknew
  · exact Job.ne_anonymous_of_pos (howns.pos hdb' hin) _ (h.anonymous hidentified)

theorem StrangersPast.sshKeys_iff (hv : v.db.Valid) (row : ℤ × UserSshKey) :
    row ∈ db'.usersSshKeys.rows ↔ row ∈ v.db.usersSshKeys.rows := by
  constructor
  · intro hin
    by_contra hout
    obtain rfl := heffect.sshKey_inserted hout hin
    obtain ⟨request, session, add, rfl, -, hidentified, hcols⟩ :=
      Job.asked_insertUserSshKey hallowed
    have hpos : 0 < session.userId := (Prod.mk.inj hcols).1 ▸ AutoTable.pos_of_mem_ids heffect.1
    exact Job.ne_anonymous_of_pos hpos _ (h.anonymous hidentified)
  · intro hin
    by_contra hout
    obtain rfl := heffect.sshKey_deleted hin hout
    obtain ⟨request, session, remove, rfl, -, hidentified, huser, -⟩ :=
      Job.asked_deleteUserSshKey hallowed
    have hpos : 0 < session.userId :=
      huser ▸ AutoTable.pos_of_mem_ids (hv.usersSshKeys_user row hin)
    exact Job.ne_anonymous_of_pos hpos _ (h.anonymous hidentified)

theorem StrangersPast.keeps_token (hv : v.db.Valid) {row : UserAuth}
    (hin : row ∈ v.db.usersAuths.rows) : row ∈ db'.usersAuths.rows := by
  by_contra hout
  obtain rfl := heffect.token_deleted hin hout
  obtain ⟨request, session, rfl, -, hidentified, hcols⟩ := Job.asked_deleteUserAuth hallowed
  have hpos : 0 < session.userId :=
    (Prod.mk.inj hcols).1 ▸ AutoTable.pos_of_mem_ids (hv.usersAuths_user row hin)
  exact Job.ne_anonymous_of_pos hpos _ (h.anonymous hidentified)

end Statement

theorem StrangersPast.write (h : StrangersPast w job past) (hw : w.db.Valid) (hv : v.db.Valid)
    (huntouched : w.Untouched v) (hallowed : job.Authorized d past (.write stmt)) (e : Env) :
    w.Untouched (v.write e stmt).2 := by
  rcases World.write_spec stmt e v with ⟨-, -, heffect, hrest⟩ | ⟨-, hsame⟩
  swap
  · rwa [hsame]
  exact {
    users := huntouched.users.trans (exec_keepsUsers (.write stmt) e v)
    groups := fun row hrow ↦ h.keeps_group hallowed heffect hrow (huntouched.groups hrow)
    repos := fun row hrow ↦ h.keeps_repo hallowed heffect hrow (huntouched.repos hrow)
    links := by
      rw [← huntouched.links]
      ext l
      exact ⟨h.adds_no_link hallowed heffect (World.write_valid stmt e hv),
        h.keeps_link hallowed heffect hw hv huntouched⟩
    sshKeys := fun row ↦ (h.sshKeys_iff hallowed heffect hv row).trans (huntouched.sshKeys row)
    tokens := fun row hrow ↦ h.keeps_token hallowed heffect hv (huntouched.tokens hrow)
    repositories := fun path repo hrepo ↦ by
      rw [hrest]
      exact huntouched.repositories path repo hrepo }

end Stranger

/-! ## Any run -/

theorem World.Untouched.gitRepositoryInit {w v : World} (h : w.Untouched v) (path : Bytes)
    (e : Env) : w.Untouched (Interp.exec (Op.gitRepositoryInit path) e v).2 := by
  change w.Untouched (Op.exec _ e v).2
  rw [Op.exec]
  split_ifs
  · exact h
  · refine { h with repositories := fun p repo hrepo ↦ ?_ }
    have hkept := h.repositories p repo hrepo
    by_cases hp : p = path
    · rw [hp] at hkept
      simp only [hp, if_true, hkept, Option.getD_some]
    · simpa only [if_neg hp] using hkept

/-- **Strangers are harmless.** Let any number of threads work on requests whose cookies identify
nobody and on calls from the socket. Whatever these ask for, and in whatever order the operations
happen, every user, group, repository, key, token and git repository that was there is still there
as it was, no key is new, and nobody is a member of anything or has a role on anything that was not
so before. -/
theorem strangers_harmless {d : Deployment} {jobs : ℕ → Job} {w : World} (hw : w.db.Valid)
    {s : List (ℕ × Env)}
    (hs : ∀ k, ∀ event ∈ (System.serving d jobs w).events k s, (jobs k).Stranger event) :
    w.Untouched ((System.serving d jobs w).run s).world := by
  refine Pool.invariant_of_obeys (c := System.serving d jobs w) exec_valid hw
    (fun k ↦ (jobs k).obeys) (World.Untouched.refl w) hs
    fun k past β op e v hv hsame hallowed h ↦ ?_
  have hpast : StrangersPast w (jobs k) past := h
  cases op with
  | write stmt => exact hpast.write hw hv hsame hallowed e
  | gitRepositoryInit path => exact hsame.gitRepositoryInit path e
  | rm path =>
    obtain ⟨request, session, delete, repoId, hjob, -, hidentified, hadmitted, -⟩ :=
      Job.asked_rm hallowed
    rw [hjob] at hpast
    exact absurd hadmitted.2.knew (hpast.not_admitted hidentified)
  -- anybody can have the file of keys written again, but it is no part of `World.Untouched`
  | openAuthKeys | writeAuthKeys => exact { hsame with }
  | _ => exact hsame

/-- Somebody without cookies creates a repository. -/
def HttpRequest.strange : HttpRequest := { createsRepo with cookies := {} }

theorem strangers_harmless_strange :
    World.twoSessions.Untouched ((System.serving .plain (Job.first [.strange]) .twoSessions).run
      (List.replicate 9 (0, {}))).world := by
  refine strangers_harmless Database.valid_twoSessions ?_
  rintro k event - request hrequest userId ⟨login, token, r, hcookies, -⟩
  cases k with
  | zero =>
    obtain rfl := Job.http.inj hrequest
    cases hcookies
  | succ k =>
    obtain rfl := Job.http.inj hrequest
    cases hcookies

end Scissy
