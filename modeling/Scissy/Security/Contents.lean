import Scissy.Security.Passwords

/-!
# Who is told what is in a repository

Two servers that differ in the contents of one repository only. The threads that open it may go
different ways, but those are views and downloads, which write nothing, so the other threads do not
notice. And a thread that was not let in when it looked does the same on both servers, whatever the
others are told at the same time (`contents_hidden`).

Being let in is what the code takes for it: a reader of the repository for a view, and for the
download of an archive somebody who is logged in and is *not* a reader. The time of the last commit
is not part of the secret, since the list of the repositories shows it to everybody.

## Beside the confidentiality of one call

`Security/Confidential` is about one call and about everything that is hidden from its caller, the
members and the description included. Here it is about any number of calls at the same time, and
about the contents only. The threads that were let in are those that may see the difference: the set
of them grows, and what is kept is that the others are abreast (`Pool.run_abreast`).
-/

open Interaction Interaction.Prog

namespace Scissy

open Repositories (getRepoPath)

/-! ## Other contents -/

/-- The world with something else in a directory. -/
def World.withRepository (w : World) (path : Bytes) (repo : Option GitRepository) : World :=
  { w with repositories := Function.update w.repositories path repo }

theorem World.repositories_withRepository (w : World) (path : Bytes)
    (repo : Option GitRepository) : (w.withRepository path repo).repositories =
      Function.update w.repositories path repo := rfl

/-- The second world is the first one with other contents of one repository, of which the last
commit has the same time. -/
def DiffersInContents (path : Bytes) (w w' : World) : Prop :=
  ∃ repo, repo.map (·.lastCommitTime) = (w.repositories path).map (·.lastCommitTime) ∧
    w' = w.withRepository path repo

/-- The operation opens the repository. -/
def Op.opens (path : Bytes) : {β : Type} → Op β → Bool
  | _, gitOpen p => decide (p = path)
  | _, _ => false

namespace DiffersInContents

variable {path : Bytes} {w w' : World}

theorem modify (h : DiffersInContents path w w')
    {f : Bytes → Option GitRepository → Option GitRepository}
    (hf : ∀ repo repo' : Option GitRepository,
      repo'.map (·.lastCommitTime) = repo.map (·.lastCommitTime) →
      (f path repo').map (·.lastCommitTime) = (f path repo).map (·.lastCommitTime)) :
    DiffersInContents path { w with repositories := fun q ↦ f q (w.repositories q) }
      { w' with repositories := fun q ↦ f q (w'.repositories q) } := by
  obtain ⟨repo, htime, rfl⟩ := h
  refine ⟨f path repo, hf _ _ htime, congrArg (fun r ↦ { w with repositories := r }) ?_⟩
  funext q
  rw [World.repositories_withRepository]
  by_cases hq : q = path
  · subst hq
    rw [Function.update_self, Function.update_self]
  · rw [Function.update_of_ne hq, Function.update_of_ne hq]

theorem gitRepositoryInit (h : DiffersInContents path w w') (p : Bytes) (e : Env) :
    (Op.exec (.gitRepositoryInit p) e w').1 = (Op.exec (.gitRepositoryInit p) e w).1 ∧
      DiffersInContents path (Op.exec (.gitRepositoryInit p) e w).2
        (Op.exec (.gitRepositoryInit p) e w').2 := by
  have hinit (v : World) :
      (fun q ↦ if q = p then some ((v.repositories p).getD .empty) else v.repositories q) =
        fun q ↦ if q = p then some ((v.repositories q).getD .empty) else v.repositories q := by
    funext q
    by_cases hq : q = p
    · rw [if_pos hq, if_pos hq, hq]
    · rw [if_neg hq, if_neg hq]
  rw [Op.exec, Op.exec]
  split_ifs
  · exact ⟨rfl, h⟩
  · rw [hinit, hinit]
    refine ⟨rfl, h.modify (f := fun q r ↦ if q = p then some (r.getD .empty) else r) ?_⟩
    intro repo repo' htime
    split_ifs
    · cases repo with
      | none => rw [Option.map_eq_none_iff.mp htime]
      | some repo =>
        obtain ⟨repo', rfl, hsame⟩ := Option.map_eq_some_iff.mp htime
        exact congrArg some hsame
    · exact htime

theorem rm (h : DiffersInContents path w w') (p : Bytes) (e : Env) :
    DiffersInContents path (Op.exec (.rm p) e w).2 (Op.exec (.rm p) e w').2 := by
  refine h.modify (f := fun q r ↦ if World.under p q then none else r) fun repo repo' htime ↦ ?_
  split_ifs
  · rfl
  · exact htime

theorem conceals {β : Type} {op : Op β} (hop : op.opens path = false) :
    Conceals (E := Env) (DiffersInContents path) op := by
  intro e w w' h
  cases op with
  | gitRepositoryInit p => exact h.gitRepositoryInit p e
  | rm p => exact ⟨rfl, h.rm p e⟩
  | gitOpen p =>
    obtain ⟨repo, htime, rfl⟩ := h
    have hne : p ≠ path := of_decide_eq_false hop
    rw [exec_gitOpen, exec_gitOpen, World.repositories_withRepository, Function.update_of_ne hne]
    exact ⟨rfl, repo, htime, rfl⟩
  | write s =>
    obtain ⟨repo, htime, rfl⟩ := h
    change ((w.withRepository path repo).write e s).1 = (w.write e s).1 ∧
      DiffersInContents path (w.write e s).2 ((w.withRepository path repo).write e s).2
    unfold World.write
    cases e.fault <;> exact ⟨rfl, repo, htime, rfl⟩
  | _ =>
    obtain ⟨repo, htime, rfl⟩ := h
    exact ⟨rfl, repo, htime, rfl⟩

end DiffersInContents

/-! ## The programs of the server -/

section Programs

variable {d : Deployment} {path : Bytes}

theorem Op.exec_of_touches_eq_nil {β : Type} {op : Op β} (h : op.touches = []) (e : Env)
    (w : World) : (Interp.exec op e w).2 = w := by
  cases op <;> first | rfl | cases h

theorem reposListInfos_blind (rows : List (Bytes × Bytes × ℤ × Bool)) :
    (Service.reposListInfos d rows).Blind (DiffersInContents path) := by
  induction rows with
  | nil => trivial
  | cons row rows ih =>
    obtain ⟨name, desc, id, isPublic⟩ := row
    rintro e w _ ⟨repo, htime, rfl⟩
    refine ⟨?_, ⟨repo, htime, rfl⟩, ih.bind fun _ ↦ trivial⟩
    refine congrArg (fun time : Option ℕ ↦ Service.reposListInfos d rows >>= fun infos ↦
      done ({ name := some name, id := some id, desc := some desc, isPublic := some isPublic,
              lastCommitTime := time } :: infos)) ?_
    rw [exec_gitOpen, exec_gitOpen, World.repositories_withRepository]
    by_cases hid : getRepoPath d id = path
    · rw [hid, Function.update_self]
      exact htime
    · rw [Function.update_of_ne hid]

theorem reposList_blind : (Service.reposList d).Blind (DiffersInContents path) := by
  rintro e w _ ⟨repo, htime, rfl⟩
  exact ⟨rfl, ⟨repo, htime, rfl⟩, (reposListInfos_blind _).bind fun _ ↦ trivial⟩

namespace Job

variable {job : Job} {past : Past}

/-- The parts of the world a job may change. -/
def footprint : Job → List Resource
  | http request => request.footprint
  | socket rpc => rpc.footprint

/-- The job asks for the repository, and when it looked it was let in. -/
def LetIn (past : Past) (repoId : ℤ) : Job → Prop
  | http request => ∃ session, Identified past request session ∧
    match request.target with
    | .api rpc => ∃ msg, rpc.shown = some msg ∧ past.Knew (·.NamesRepo msg repoId) ∧
      past.Readable (some session) repoId
    | .archive location => location.map (·.repoId) = some repoId ∧
      (past.Saw (·.db.isPublic? repoId = some true) ∨ 1 ≤ session.userId ∧
        past.Saw fun w ↦ w.db.reportedRole repoId session.userId ≤ .kNone)
    | .logout => False
  | socket rpc => ∃ msg, rpc.shown = some msg ∧ past.Knew (·.NamesRepo msg repoId) ∧
    past.Readable none repoId

theorem LetIn.mono {repoId : ℤ} {past' : Past} (h : job.LetIn past repoId) (hsub : past ⊆ past') :
    job.LetIn past' repoId := by
  have hread {thread : Option Session} (hread : past.Readable thread repoId) :
      past'.Readable thread repoId :=
    hread.imp (fun hsaw ↦ hsaw.mono hsub)
      fun ⟨session, hsession, hsaw⟩ ↦ ⟨session, hsession, hsaw.mono hsub⟩
  cases job with
  | socket rpc =>
    obtain ⟨msg, hshown, hnames, hreads⟩ := h
    exact ⟨msg, hshown, hnames.mono hsub, hread hreads⟩
  | http request =>
    obtain ⟨cookies, isSsl, target⟩ := request
    obtain ⟨session, hidentified, h⟩ := h
    refine ⟨session, hidentified.mono hsub, ?_⟩
    cases target with
    | api rpc =>
      obtain ⟨msg, hshown, hnames, hreads⟩ := h
      exact ⟨msg, hshown, hnames.mono hsub, hread hreads⟩
    | logout => exact h
    | archive location =>
      refine ⟨h.1, h.2.imp (fun hsaw ↦ hsaw.mono hsub) fun ⟨huser, hsaw⟩ ↦ ?_⟩
      exact ⟨huser, hsaw.mono hsub⟩

theorem idle_of_footprint_eq_nil (h : job.footprint = []) : (job.program d).Idle := by
  have hlooks {β : Type} (op : Op β) (hop : op.touches ⊆ job.footprint) (e : Env) (w : World) :
      (Interp.exec op e w).2 = w :=
    Op.exec_of_touches_eq_nil (List.subset_nil.mp (h ▸ hop)) e w
  cases job with
  | http request => exact (serve_within request).mono hlooks fun _ _ ↦ trivial
  | socket rpc =>
    refine within_map.mpr ((dispatch_within rpc).mono (fun op hop ↦ hlooks op hop.1) ?_)
    exact fun _ _ ↦ trivial

theorem asked_opens {β : Type} {op : Op β} (h : job.Authorized d past op)
    (hop : op.opens path = true) :
    job.footprint = [] ∧ (job.rpc? = some .reposList ∨
      ∃ repoId, getRepoPath d repoId = path ∧ job.LetIn past repoId) := by
  have hview {rpc : Rpc} {msg : Pb.RepoRef} (hshown : rpc.shown = some msg) :
      rpc.footprint = [] := by
    cases rpc <;> first | rfl | cases hshown
  cases op with
  | gitOpen p =>
    obtain rfl : p = path := of_decide_eq_true hop
    cases job with
    | socket rpc =>
      obtain ⟨repoId, rfl, ⟨rfl, -⟩ | ⟨msg, hshown, hread⟩⟩ := h
      · exact ⟨rfl, Or.inl rfl⟩
      · exact ⟨hview hshown, Or.inr ⟨repoId, rfl, msg, hshown, hread⟩⟩
    | http request =>
      obtain ⟨cookies, isSsl, target⟩ := request
      obtain ⟨session, hidentified, h⟩ := h.resolve_left Bool.false_ne_true
      cases target with
      | api rpc =>
        obtain ⟨repoId, rfl, ⟨rfl, -⟩ | ⟨msg, hshown, hread⟩⟩ := h
        · exact ⟨rfl, Or.inl rfl⟩
        · exact ⟨hview hshown, Or.inr ⟨repoId, rfl, session, hidentified, msg, hshown, hread⟩⟩
      | logout => exact h.elim
      | archive location =>
        obtain ⟨l, rfl, rfl, hread⟩ := h
        exact ⟨rfl, Or.inr ⟨l.repoId, rfl, session, hidentified, rfl, hread⟩⟩
  | _ => cases hop

/-- A job that changes something does the same whatever is in the repository, and so does the list
of all of them. -/
theorem blind_contents (h : job.footprint ≠ [] ∨ job.rpc? = some .reposList) :
    (job.program d).Blind fun w w' ↦ w.db.Valid ∧ DiffersInContents path w w' := by
  rcases h with hwrites | hlist
  · have hobeys : (job.program d).Obeys (fun w : World ↦ w.db.Valid) _ anything [] := job.obeys
    refine hobeys.blind exec_valid fun op past e w hallowed ↦ ?_
    refine DiffersInContents.conceals (Bool.eq_false_iff.mpr fun hop ↦ hwrites ?_)
    exact (asked_opens hallowed hop).1
  · refine Blind.assuming (blind_of_rpc hlist (fun cookies isSsl ↦ ?_) fun thread ↦ ?_) exec_valid
    · exact (sessionAuth_within cookies isSsl fun _ ↦ rfl).blind
        (P := fun op ↦ op.opens path = false) fun _ hop ↦ DiffersInContents.conceals hop
    · exact reposList_blind.bind fun _ ↦ trivial

end Job

end Programs

/-! ## Every run -/

/-- **Who is told what is in a repository.** Take two worlds that differ in the contents of one
repository only. Then after any interleaving they still do, and a thread whose job was not let in
to see that repository when it looked has done the same in both, whatever the others were told. -/
theorem contents_hidden {d : Deployment} {jobs : ℕ → Job} {w w' : World} {path : Bytes}
    (hw : w.db.Valid) (h : DiffersInContents path w w') (s : List (ℕ × Env)) :
    DiffersInContents path ((System.serving d jobs w).run s).world
        ((System.serving d jobs w').run s).world ∧
      ∀ k, (∀ repoId, getRepoPath d repoId = path →
          ¬ (jobs k).LetIn ((System.serving d jobs w).events k s) repoId) →
        ((System.serving d jobs w').run s).threads k =
          ((System.serving d jobs w).run s).threads k := by
  have habreast : Pool.Abreast (fun w w' ↦ w.db.Valid ∧ DiffersInContents path w w') ∅
      (System.serving d jobs w) (System.serving d jobs w') := by
    refine ⟨⟨hw, h⟩, fun _ hk ↦ hk.elim, fun _ _ ↦ rfl, fun k _ ↦ ?_⟩
    by_cases hidle : (jobs k).footprint = []
    · exact Or.inr (Job.idle_of_footprint_eq_nil hidle)
    · exact Or.inl (Job.blind_contents (Or.inl hidle))
  obtain ⟨hworld, hsame⟩ := Pool.run_abreast habreast s
  refine ⟨hworld.2, fun k hout ↦ hsame k (Set.notMem_empty k) ?_⟩
  by_cases hlist : (jobs k).rpc? = some .reposList
  · exact Or.inl (Job.blind_contents (Or.inr hlist))
  refine Or.inr fun event hevent ↦ Conceals.assuming (DiffersInContents.conceals ?_) (exec_valid _)
  refine Bool.eq_false_iff.mpr fun hop ↦ ?_
  obtain ⟨before, after, hs⟩ := List.append_of_mem hevent
  have hallowed : (jobs k).Authorized d before event.op :=
    Pool.allowed_of_events exec_valid hw (jobs k).obeys hs
  obtain ⟨-, hlisted | ⟨repoId, hpath, hin⟩⟩ := Job.asked_opens hallowed hop
  · exact hlist hlisted
  · exact hout repoId hpath (hin.mono (past_subset hs))

/-- A private repository of the first user, with one branch. -/
def World.oneBranch (branch : Bytes) : World :=
  let w : World := { initial with
    db := Write.applyAll 0 .twoSessions [.insertRepo (text "r") [] false, .insertRepoUser 1 1 3] }
  w.withRepository (getRepoPath .plain 1) (some { GitRepository.empty with branches := [branch] })

/-- A user asks for the branches. -/
def HttpRequest.branches (login : Bytes) : HttpRequest :=
  ofUser login (.repoListBranches { repoId := some 1 })

theorem contents_hidden_branches :
    ((System.serving .plain (Job.first [.branches (text "v"), .branches (text "u")])
      (.oneBranch (text "b"))).run ((List.replicate 6 [1, 0]).flatten.map (·, {}))).threads 0 =
    ((System.serving .plain (Job.first [.branches (text "v"), .branches (text "u")])
      (.oneBranch (text "a"))).run ((List.replicate 6 [1, 0]).flatten.map (·, {}))).threads 0 := by
  have hvalid : (World.oneBranch (text "a")).db.Valid :=
    Write.applyAll_valid 0 Database.valid_twoSessions _
  have hdiffers : DiffersInContents (getRepoPath .plain 1) (.oneBranch (text "a"))
      (.oneBranch (text "b")) := by
    refine ⟨some { GitRepository.empty with branches := [text "b"] }, ?_, ?_⟩
    · simp [World.oneBranch, World.withRepository]
    · simp [World.oneBranch, World.withRepository]
  have hseen : ∀ event ∈ (System.serving .plain (Job.first [.branches (text "v"),
        .branches (text "u")]) (.oneBranch (text "a"))).events 0
          ((List.replicate 6 [1, 0]).flatten.map (·, {})),
      (event.before.db.session { user := some (text "v"), token := some (text "t") } false).userId
        = 2 ∧ event.before.db.isPublic? 1 ≠ some true ∧
        ¬ Pb.Role.kReader ≤ event.before.db.reportedRole 1 2 := by
    decide +kernel
  refine (contents_hidden hvalid hdiffers _).2 0 ?_
  rintro repoId - ⟨session, hidentified, msg, hshown, hnames, hread⟩
  obtain rfl := Option.some_inj.mp hshown
  obtain rfl : 1 = repoId := by
    have hgiven (db : Database) (h : db.NamesRepo { repoId := some 1 } repoId) : 1 = repoId := by
      obtain h | ⟨hnone, -⟩ := h
      · exact Option.some_inj.mp h
      · cases hnone
    rcases hnames with hnames | ⟨event, -, hnames⟩
    · exact hgiven .initial (hnames .initial)
    · exact hgiven _ hnames
  have huser : session.userId = 2 := by
    rcases hidentified with h | ⟨event, hmem, h⟩
    · exact h (World.oneBranch []).db ▸ rfl
    · exact h ▸ (hseen event hmem).1
  rcases hread with ⟨event, hmem, hpublic⟩ | ⟨_, hsession, event, hmem, hrole⟩
  · exact (hseen event hmem).2.1 hpublic
  · obtain rfl := Option.some_inj.mp hsession
    exact (hseen event hmem).2.2 (huser ▸ hrole)

end Scissy
