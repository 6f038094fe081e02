import Scissy.Server.Footprint

/-!
# The pages of a log

`repoGetLog` walks the history from its head, skips `offset` commits and shows at most `limit` of
the next ones. The skip and the stop share one counter, and the bound of the loop is an unsigned
32-bit sum of two numbers from the request.

`logCommits_eq` says what the loop does for whatever bound, and `logCommits_window` that with the
bound of the code it shows the window asked for. If the sum wraps around, the loop stops before it
has skipped anything, and that is right as well: the window begins after the end of the history.

## What a page shows

A page is compared with a window of the walk, entry by entry. An entry that cannot be looked up uses
up its place in the window and shows nothing, so a page may be shorter than the window. What an
entry shows is `Describes`: the fields of the answer beside those of the commit, in the order of the
message, and without the functions that copy them.

The length of a window is what the request asks for, if that is a number between one and the
configured limit, and the configured limit otherwise. `PageLength` says so in three cases, and not
by the function that computes it.
-/

open Interaction Interaction.Prog

namespace Scissy

/-! ## Windows of a list -/

section Window

variable {α : Type*}

/-- At most `n` elements, from `offset` on. -/
def window (l : List α) (offset n : ℕ) : List α := (l.drop offset).take n

theorem window_eq_drop_take (l : List α) (offset n : ℕ) :
    window l offset n = (l.take (offset + n)).drop offset := by
  rw [window, List.drop_take, Nat.add_sub_cancel_left]

theorem window_eq_nil {l : List α} {offset n : ℕ} (h : l.length ≤ offset) :
    window l offset n = [] := by
  rw [window, List.drop_eq_nil_of_le h, List.take_nil]

theorem flatMap_window (l : List α) (m n : ℕ) :
    ((List.range n).flatMap fun k ↦ window l (k * m) m) = l.take (n * m) := by
  induction n with
  | zero => rw [Nat.zero_mul, List.take_zero, List.range_zero, List.flatMap_nil]
  | succ n ih =>
    rw [List.range_succ, List.flatMap_append, ih, List.flatMap_singleton, Nat.succ_mul,
      List.take_add, window]

end Window

namespace Service

/-! ## The loop -/

section Loop

variable {repo : GitRepository} {walk : List Bytes}

/-- The commit an entry of the history is shown as, if it can be looked up. -/
def shownCommit (repo : GitRepository) (oid : Bytes) : Option Pb.GitCommit :=
  (repo.commitLookup oid).map copyCommit

/-- The entry of a log has what git has of the signature; times are in milliseconds. -/
structure DescribesSignature (src : GitSignature) (dst : Pb.GitSignature) : Prop where
  name : dst.name = some src.name
  email : dst.email = some src.email
  time : dst.time = some ((src.time * 1000 + src.offset) % 2 ^ 64).toNat

/-- The entry of a log has what git has of the commit. -/
structure Describes (commit : GitCommit) (entry : Pb.GitCommit) : Prop where
  id : entry.id = some commit.id
  parentsId : entry.parentsId = commit.parents
  treeId : entry.treeId = some commit.treeId
  msg : entry.msg = some commit.message
  time : entry.time = some ((commit.time * 1000 + commit.timeOffset) % 2 ^ 64).toNat
  commiter : ∃ signature, entry.commiter = some signature ∧
    DescribesSignature commit.committer signature
  author : ∃ signature, entry.author = some signature ∧ DescribesSignature commit.author signature

theorem copyCommit_describes (commit : GitCommit) : Describes commit (copyCommit commit) :=
  ⟨rfl, rfl, rfl, rfl, rfl, ⟨_, rfl, rfl, rfl, rfl⟩, ⟨_, rfl, rfl, rfl, rfl⟩⟩

/-- The commits of some entries of the history are described in order. -/
theorem forall₂_shownCommit (entries : List Bytes) :
    List.Forall₂ Describes (entries.filterMap repo.commitLookup)
      (entries.filterMap (shownCommit repo)) := by
  have hmap : entries.filterMap (shownCommit repo) =
      (entries.filterMap repo.commitLookup).map copyCommit := by
    rw [List.map_filterMap]
    rfl
  rw [hmap, List.forall₂_map_right_iff, List.forall₂_same]
  exact fun commit _ ↦ copyCommit_describes commit

/-- **The loop**, from step `i` on. -/
theorem logCommits_eq (stop offset : UInt32) (i : ℕ) :
    logCommits repo stop offset i walk =
      ((walk.take (stop.toNat - i)).drop (offset.toNat - i)).filterMap (shownCommit repo) := by
  induction walk generalizing i with
  | nil => rw [logCommits, List.take_nil, List.drop_nil, List.filterMap_nil]
  | cons oid walk ih =>
    rw [logCommits]
    split_ifs with hstop hoffset
    · -- the commit is skipped
      obtain ⟨k, hk⟩ : ∃ k, stop.toNat - i = k + 1 := ⟨stop.toNat - (i + 1), by omega⟩
      obtain ⟨j, hj⟩ : ∃ j, offset.toNat - i = j + 1 := ⟨offset.toNat - (i + 1), by omega⟩
      have hk' : stop.toNat - (i + 1) = k := by omega
      have hj' : offset.toNat - (i + 1) = j := by omega
      rw [ih, hk, hj, hk', hj', List.take_succ_cons, List.drop_succ_cons]
    · obtain ⟨k, hk⟩ : ∃ k, stop.toNat - i = k + 1 := ⟨stop.toNat - (i + 1), by omega⟩
      have hk' : stop.toNat - (i + 1) = k := by omega
      have hj : offset.toNat - i = 0 := by omega
      have hj' : offset.toNat - (i + 1) = 0 := by omega
      rw [ih, hk, hj, hk', hj', List.take_succ_cons, List.drop_zero, List.drop_zero,
        List.filterMap_cons, shownCommit]
      cases repo.commitLookup oid <;> rfl
    · have hk : stop.toNat - i = 0 := by omega
      rw [hk, List.take_zero, List.drop_nil, List.filterMap_nil]

/-- **The loop with its bound.** The sum may wrap around. -/
theorem logCommits_window {cap limit : UInt32} (hlimit : limit ≤ cap) (offset : UInt32)
    (hwalk : walk.length ≤ 2 ^ 32 - cap.toNat) :
    logCommits repo (limit + offset) offset 0 walk =
      (window walk offset.toNat limit.toNat).filterMap (shownCommit repo) := by
  have hcap : limit.toNat ≤ cap.toNat := hlimit
  have hlt : limit.toNat < 2 ^ 32 := limit.toNat_lt
  rw [logCommits_eq, UInt32.toNat_add, Nat.sub_zero, Nat.sub_zero]
  by_cases hwrap : limit.toNat + offset.toNat < 2 ^ 32
  · rw [Nat.mod_eq_of_lt hwrap, Nat.add_comm, window_eq_drop_take]
  · -- the loop stops too early to show anything, and the window is empty
    have hsum : (limit.toNat + offset.toNat) % 2 ^ 32 = limit.toNat + offset.toNat - 2 ^ 32 := by
      have hoffset : offset.toNat < 2 ^ 32 := offset.toNat_lt
      omega
    have hempty : (walk.take (limit.toNat + offset.toNat - 2 ^ 32)).length ≤ offset.toNat := by
      rw [List.length_take]
      omega
    rw [hsum, List.drop_eq_nil_of_le hempty, window_eq_nil (by omega)]

/-- How many entries a page has: as many as the request asks for, and the configured limit if it
does not say, asks for none or for too many. -/
inductive PageLength (cap : UInt32) : Option UInt32 → UInt32 → Prop
  | unset : PageLength cap none cap
  | zero : PageLength cap (some 0) cap
  | above {limit : UInt32} (h : cap < limit) : PageLength cap (some limit) cap
  | asked {limit : UInt32} (hpos : 0 < limit) (h : limit ≤ cap) : PageLength cap (some limit) limit

theorem logLimit_pageLength (d : Deployment) (limit : Option UInt32) :
    PageLength d.gitLogLimit limit (logLimit d limit) := by
  cases limit with
  | none => exact .unset
  | some limit =>
    rw [logLimit]
    split_ifs with h
    · obtain rfl | habove := h
      · exact .zero
      · exact .above habove
    · obtain ⟨hne, hle⟩ := not_or.mp h
      exact .asked (UInt32.pos_iff_ne_zero.mpr hne) (UInt32.not_lt.mp hle)

theorem PageLength.le {cap length : UInt32} {limit : Option UInt32}
    (h : PageLength cap limit length) : length ≤ cap := by
  cases h with
  | asked hpos hle => exact hle
  | _ => exact UInt32.le_refl cap

theorem PageLength.logLimit_eq {d : Deployment} {limit : Option UInt32} {length : UInt32}
    (h : PageLength d.gitLogLimit limit length) : logLimit d limit = length := by
  cases h with
  | unset => rfl
  | zero => rw [logLimit, if_pos (Or.inl rfl)]
  | above h => rw [logLimit, if_pos (Or.inr h)]
  | asked hpos h =>
    rw [logLimit, if_neg (not_or.mpr ⟨UInt32.pos_iff_ne_zero.mp hpos, UInt32.not_lt.mpr h⟩)]

end Loop

/-! ## The call -/

section Call

variable {ρ : Type} [Pb.HasStatus ρ] {d : Deployment} {thread : Option Session} {env : ℕ → Env}
  {w : World} {repoId : ℤ} {repo : GitRepository}

theorem checkPublicRepo_run_world (msg : Pb.RepoRef) :
    ((checkPublicRepo thread msg : Server (Check ρ ℤ)).run env w).2 = w := by
  have hwithin : ((checkPublicRepo thread msg : Server (Check ρ ℤ)).orReturn
      fun _ ↦ done Outcome.crash).Within (fun op ↦ ∀ e (v : World), (Interp.exec op e v).2 = v)
        fun _ ↦ True :=
    checkPublicRepo_within (fun _ _ _ ↦ rfl) trivial (fun _ _ _ ↦ trivial) trivial fun _ ↦ trivial
  rw [orReturn, within_bind] at hwithin
  exact (hwithin.run_rel (R := fun u v ↦ v = u) (fun _ ↦ rfl) (fun h h' ↦ h'.trans h)
    (fun _ hop e v ↦ hop e v) env w)

theorem gitView_run {msg : Pb.RepoRef} (view : GitRepository → Outcome ρ)
    (hpass : ((checkPublicRepo thread msg : Server (Check ρ ℤ)).run env w).1 = .ok repoId)
    (hrepo : w.repositories (Repositories.getRepoPath d repoId) = some repo) :
    (gitView d thread msg view).run env w = (view repo, w) := by
  obtain ⟨n, hrun⟩ := exists_run_bind (checkPublicRepo thread msg : Server (Check ρ ℤ)) env w
  rw [gitView, orReturn, hrun, hpass, checkPublicRepo_run_world]
  change (call (Op.gitOpen (Repositories.getRepoPath d repoId)) _).run _ w = _
  rw [run_call, exec_gitOpen, hrepo]
  rfl

/-- Where the walk starts: at the head, or at the commit that the request names. -/
def logStart (repo : GitRepository) : Option Bytes → Option (Option Bytes)
  | none => some none
  | some revision => (repo.referenceToOid revision).map some

/-- **What the call answers** when the walk is not too long for the counter. -/
theorem repoGetLog_run {r : Pb.LogSelector} {start : Option Bytes}
    (hpass : ((checkPublicRepo thread r.toRepoRef :
      Server (Check Pb.GitLog ℤ)).run env w).1 = .ok repoId)
    (hrepo : w.repositories (Repositories.getRepoPath d repoId) = some repo)
    (hcan : repo.canWalk = true) (hstart : logStart repo r.revision = some start)
    (hwalk : (repo.walk start).length ≤ 2 ^ 32 - d.gitLogLimit.toNat) :
    (repoGetLog d thread r).run env w = (.returned true
      { commits := (window (repo.walk start) (r.offset.getD 0).toNat
          (logLimit d r.limit).toNat).filterMap (shownCommit repo)
        status := some .kSucceed }, w) := by
  rw [repoGetLog, gitView_run _ hpass hrepo, hcan,
    ← logCommits_window (logLimit_pageLength d _).le _ hwalk]
  cases hrevision : r.revision with
  | none =>
    rw [hrevision] at hstart
    obtain rfl := Option.some_inj.mp hstart
    rfl
  | some revision =>
    rw [hrevision] at hstart
    obtain ⟨oid, hoid, rfl⟩ := Option.map_eq_some_iff.mp hstart
    dsimp only
    rw [hoid]
    rfl

/-- **The log and its pages.** For whatever limit and offset, a log describes the commits in the
window of the walk that starts at the offset and has the length of a page. So the pages of one
length, asked for one after the other, describe the whole walk. -/
theorem repoGetLog_pages (d : Deployment) (thread : Option Session) (request : Pb.LogSelector)
    (env : ℕ → Env) {w : World} {repoId : ℤ} {repo : GitRepository} {start : Option Bytes}
    (hpass : ((checkPublicRepo thread request.toRepoRef :
      Server (Check Pb.GitLog ℤ)).run env w).1 = .ok repoId)
    (hrepo : w.repositories (Repositories.getRepoPath d repoId) = some repo)
    (hcan : repo.canWalk = true) (hstart : logStart repo request.revision = some start)
    (hwalk : (repo.walk start).length ≤ 2 ^ 32 - d.gitLogLimit.toNat) :
    let shows (limit offset : Option UInt32) (commits : List Pb.GitCommit) : Prop :=
      ((repoGetLog d thread { request with limit, offset }).run env w).1 =
        .returned true { commits, status := some .kSucceed }
    (∀ limit offset, ∃ length commits, PageLength d.gitLogLimit limit length ∧
      shows limit offset commits ∧ List.Forall₂ Describes
        ((window (repo.walk start) (offset.getD 0).toNat length.toNat).filterMap
          repo.commitLookup) commits) ∧
    ∀ limit : UInt32, 0 < limit → limit ≤ d.gitLogLimit → ∀ n,
      (∀ k < n, k * limit.toNat < 2 ^ 32) → (repo.walk start).length ≤ n * limit.toNat →
      ∃ pages : List (List Pb.GitCommit), pages.length = n ∧
        (∀ k (hk : k < pages.length),
          shows (some limit) (some (UInt32.ofNat (k * limit.toNat))) (pages.get ⟨k, hk⟩)) ∧
        List.Forall₂ Describes ((repo.walk start).filterMap repo.commitLookup) pages.flatten := by
  intro shows
  have hshows (limit offset : Option UInt32) : shows limit offset ((window (repo.walk start)
      (offset.getD 0).toNat (logLimit d limit).toNat).filterMap (shownCommit repo)) :=
    congrArg Prod.fst (repoGetLog_run (r := { request with limit, offset }) hpass hrepo hcan
      hstart hwalk)
  refine ⟨fun limit offset ↦ ⟨_, _, logLimit_pageLength d limit, hshows limit offset,
    forall₂_shownCommit _⟩, fun limit hpos hle n hoffsets hlength ↦ ?_⟩
  refine ⟨(List.range n).map fun k ↦ (window (repo.walk start) (k * limit.toNat)
    limit.toNat).filterMap (shownCommit repo), ?_, fun k hk ↦ ?_, ?_⟩
  · rw [List.length_map, List.length_range]
  · have hkn : k < n := by rwa [List.length_map, List.length_range] at hk
    have hpage := hshows (some limit) (some (UInt32.ofNat (k * limit.toNat)))
    rw [Option.getD_some, UInt32.toNat_ofNat_of_lt' (hoffsets k hkn),
      PageLength.logLimit_eq (.asked hpos hle)] at hpage
    simpa using hpage
  · rw [← List.flatMap_def, ← List.filterMap_flatMap, flatMap_window,
      List.take_of_length_le hlength]
    exact forall₂_shownCommit _

/-- A public repository with three commits, one of which cannot be read. -/
def threeCommits : GitRepository where
  __ := GitRepository.empty
  walk _ := [text "c", text "b", text "a"]
  commitLookup oid := if oid = text "b" then none else some
    ⟨oid, [], [], [], 0, 0, ⟨[], [], 0, 0⟩, ⟨[], [], 0, 0⟩⟩

/-- The world with this repository. -/
def worldOfThreeCommits : World :=
  { World.initial with
    db := Write.applyAll 0 .initial [.insertRepo (text "r") [] true]
    repositories := fun _ ↦ some threeCommits }

/-- Two pages of two. -/
theorem repoGetLog_pages_two :
    let shows (limit offset : Option UInt32) (commits : List Pb.GitCommit) : Prop :=
      ((repoGetLog .plain none { repoId := some 1, limit, offset }).run (fun _ ↦ {})
        worldOfThreeCommits).1 = .returned true { commits, status := some .kSucceed }
    ∃ pages : List (List Pb.GitCommit), pages.length = 2 ∧
      (∀ k (hk : k < pages.length),
        shows (some 2) (some (UInt32.ofNat (k * 2))) (pages.get ⟨k, hk⟩)) ∧
      List.Forall₂ Describes
        ([text "c", text "b", text "a"].filterMap threeCommits.commitLookup) pages.flatten :=
  have hpass : ((checkPublicRepo none (Pb.LogSelector.toRepoRef { repoId := some 1 }) :
      Server (Check Pb.GitLog ℤ)).run (fun _ ↦ {}) worldOfThreeCommits).1 = .ok 1 := rfl
  have hrepo : worldOfThreeCommits.repositories (Repositories.getRepoPath .plain 1) =
      some threeCommits := rfl
  have hstart : logStart threeCommits none = some none := rfl
  (repoGetLog_pages .plain none { repoId := some 1 } (fun _ ↦ {}) hpass hrepo rfl hstart
    (by decide)).2 2 (by decide) (by decide) 2 (by decide) (by decide)

end Call

end Service

end Scissy
