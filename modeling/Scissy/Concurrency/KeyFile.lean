import Scissy.Concurrency.Revocation
import Scissy.Security.Authorization

/-!
# The file of keys among any number of requests

Any number of requests change keys, and any others run between them. A request is aside if it never
touches keys; otherwise it is ready until it writes the table, and then it stands at one of the
stages of `Stage`.

As long as some request has changed the table and not yet truncated the file, nothing is known about
the file. Once no request is there, the file says what the table says up to some point, beyond
which one of the requests is going to print it, and the others print nothing else
(`Settling`). When all have ended the file is the printout of the table (`keys_settle`).

## The invariant

With two requests one could follow each pair of stages. With any number of them there are too many,
and one invariant has to do. It names no request but the one that leads: the file agrees with the
printout of the table up to the offset of that request, which prints the rest, and every other
request prints at its offset what belongs there already. A truncation empties the file, and the
request that made it leads from then on.

## What is asked of the schedule

A request truncates the file with what it has read in mind, while another one may still have lines
to print that are no longer true. `System.TruncatesSafely` excludes just this, at the moment of the
truncation. It is a condition on what is still to be printed, and not on the order of the requests,
so it holds also of schedules on which the requests print at the same time.
-/

open Interaction Interaction.Prog

namespace Scissy

/-! ## Where a request stands -/

/-- The operation touches neither the table of keys nor their file. -/
def Op.SparesKeys {β : Type} (op : Op β) : Prop :=
  .authKeys ∉ op.touches ∧ .table .usersSshKeys ∉ op.touches

inductive Stance
  | aside
  | ready
  | amid (stage : Stage)

namespace Stance

/-- The rest of the program of a request that stands so. -/
def Of (d : Deployment) (p : Server HttpResponse) : Stance → Prop
  | aside => p.Within (fun op ↦ op.SparesKeys) fun _ ↦ True
  | ready => ∃ (q : Server Session) (stmt : Session → Write),
    q.Within (fun op ↦ op.SparesKeys) (fun _ ↦ True) ∧
      p = q >>= fun session ↦ (Stage.changing (stmt session)).program d
  | amid stage => p = stage.program d

/-- What the request has still to print is what the file should contain there. -/
def Fits (d : Deployment) (whole : Bytes) : Stance → Prop
  | amid stage => stage.Fits d whole
  | _ => True

/-- The request has printed the first `n` bytes of the file, and will print the rest. -/
def Leads (d : Deployment) (whole : Bytes) (n : ℕ) : Stance → Prop
  | amid stage => stage.Leads d whole n
  | _ => False

end Stance

/-- Unless some request is about to truncate the file, the file is right up to some point, and
beyond it somebody is going to make it right. -/
def Settling (d : Deployment) (stances : ℕ → Stance) (w : World) : Prop :=
  (∀ k, stances k ≠ .amid .opening) → ∃ n, TextFile.Agrees (keyFile d w.db) n w.authKeys ∧
    ((keyFile d w.db).length ≤ n ∨ ∃ k, (stances k).Leads d (keyFile d w.db) n) ∧
    ∀ k, (stances k).Fits d (keyFile d w.db)

/-! ## One step -/

variable {d : Deployment} {stances : ℕ → Stance} {w : World} {i : ℕ}

theorem Settling.spare (h : Settling d stances w) {v : World} (hfile : v.authKeys = w.authKeys)
    (htable : v.db.usersSshKeys = w.db.usersSshKeys) : Settling d stances v := by
  have hwhole : keyFile d v.db = keyFile d w.db := by rw [keyFile, keyFile, htable]
  rw [Settling, hwhole, hfile]
  exact h

theorem Stage.settled_next {stage : Stage} (e : Env) {n : ℕ} {R : ℕ → Prop}
    (hopened : stage.Opened) (hagrees : TextFile.Agrees (keyFile d w.db) n w.authKeys)
    (hleads : stage.Leads d (keyFile d w.db) n ∨ R n) (hfits : stage.Fits d (keyFile d w.db)) :
    (stage.next d e w).2.db = w.db ∧
      ∃ n', TextFile.Agrees (keyFile d w.db) n' (stage.next d e w).2.authKeys ∧
        ((stage.next d e w).1.Leads d (keyFile d w.db) n' ∨ R n') ∧
        (stage.next d e w).1.Fits d (keyFile d w.db) := by
  cases stage with
  | changing | opening => exact hopened.elim
  | reading =>
    have hrows := printout_rows d e.pick w.db
    refine ⟨rfl, n, hagrees, hleads.imp_left fun hn ↦ ?_, Or.inr hrows⟩
    obtain rfl : n = 0 := hn
    exact ⟨rfl, hrows⟩
  | printing offset rows =>
    cases rows with
    | nil => exact ⟨rfl, n, hagrees, hleads, hfits⟩
    | cons row rows =>
      obtain ⟨userId, keyType, key⟩ := row
      obtain ⟨hdrop, hoffset, hrest⟩ := printout_drop (hfits.resolve_left (by rintro ⟨⟩))
      refine ⟨rfl, ?_⟩
      rcases hleads with ⟨rfl, -⟩ | hother
      · exact ⟨_, hagrees.extend hdrop, Or.inl ⟨rfl, hrest⟩, Or.inr hrest⟩
      · exact ⟨n, hagrees.overwrite hoffset hdrop, Or.inr hother, Or.inr hrest⟩

/-- A step of a request at a stage, whose truncation meets nothing but what fits. -/
theorem Settling.next (h : Settling d stances w) {stage : Stage} (hi : stances i = .amid stage)
    (e : Env) (hopen : stage = .opening → ∀ k ≠ i, (stances k).Fits d (keyFile d w.db)) :
    Settling d (Function.update stances i (.amid (stage.next d e w).1)) (stage.next d e w).2 := by
  have hother {k : ℕ} (hk : k ≠ i) {stance : Stance} :
      Function.update stances i stance k = stances k := Function.update_of_ne hk _ _
  have hself {stance : Stance} : Function.update stances i stance i = stance :=
    Function.update_self _ _ _
  intro hnone
  by_cases hopened : stage.Opened
  · -- the others are not about to truncate the file, and neither was this one
    have hbefore : ∀ k, stances k ≠ .amid .opening := by
      intro k
      by_cases hk : k = i
      · rw [hk, hi]
        rintro ⟨⟩
        exact hopened
      · have hk' := hnone k
        rwa [hother hk] at hk'
    obtain ⟨n, hagrees, hleads, hfits⟩ := h hbefore
    have hsplit : stage.Leads d (keyFile d w.db) n ∨ ((keyFile d w.db).length ≤ n ∨
        ∃ k ≠ i, (stances k).Leads d (keyFile d w.db) n) := by
      rcases hleads with hend | ⟨k, hk⟩
      · exact Or.inr (Or.inl hend)
      · by_cases hki : k = i
        · rw [hki, hi] at hk
          exact Or.inl hk
        · exact Or.inr (Or.inr ⟨k, hki, hk⟩)
    have hfitsSelf := hfits i
    rw [hi] at hfitsSelf
    obtain ⟨hdb, n', hagrees', hleads', hfits'⟩ :=
      Stage.settled_next (R := fun n ↦ (keyFile d w.db).length ≤ n ∨
        ∃ k ≠ i, (stances k).Leads d (keyFile d w.db) n) e hopened hagrees hsplit hfitsSelf
    rw [hdb]
    refine ⟨n', hagrees', ?_, fun k ↦ ?_⟩
    · rcases hleads' with hleads' | hend | ⟨k, hk, hleads'⟩
      · exact Or.inr ⟨i, by rwa [hself]⟩
      · exact Or.inl hend
      · exact Or.inr ⟨k, by rwa [hother hk]⟩
    · by_cases hk : k = i
      · rw [hk, hself]
        exact hfits'
      · rw [hother hk]
        exact hfits k
  · cases stage with
    | changing stmt =>
      have hself' := hnone i
      rw [hself] at hself'
      exact absurd rfl hself'
    | opening =>
      -- the file is empty now, and this request is going to print all of it
      have hempty : TextFile.Agrees (keyFile d w.db) 0 [] :=
        ⟨fun i hi ↦ absurd hi (Nat.not_lt_zero i), le_rfl, Nat.zero_le _⟩
      refine ⟨0, hempty, Or.inr ⟨i, ?_⟩, fun k ↦ ?_⟩
      · rw [hself]
        exact rfl
      · by_cases hk : k = i
        · rw [hk, hself]
          exact trivial
        · rw [hother hk]
          exact hopen rfl k hk
    | reading => exact absurd trivial hopened
    | printing => exact absurd trivial hopened

/-! ## Every interleaving -/

/-- If the thread is about to truncate the file, what any other one has still to print is what the
printout of the table has there. -/
def System.TruncatesSafely (d : Deployment) (c : System) (i : ℕ) (_ : Env) : Prop :=
  c.threads i = Stage.opening.program d → ∀ k ≠ i, ∀ offset rows,
    c.threads k = (Stage.printing offset rows).program d →
      (Stage.printing offset rows).Fits d (keyFile d c.world.db)

theorem Stage.program_cases (stage : Stage) (e : Env) (w : World) :
    (∃ response, stage.program d = .done response ∧ stage.next d e w = (stage, w)) ∨
      ∃ (β : Type) (op : Op β) (next : β → Server HttpResponse), stage.program d = .call op next ∧
        next (Interp.exec op e w).1 = (stage.next d e w).1.program d ∧
        (Interp.exec op e w).2 = (stage.next d e w).2 := by
  cases stage with
  | printing offset rows =>
    cases rows with
    | nil => exact Or.inl ⟨_, rfl, rfl⟩
    | cons row rows => exact Or.inr ⟨_, _, _, rfl, rfl, rfl⟩
  | _ => exact Or.inr ⟨_, _, _, rfl, rfl, rfl⟩

section Run

variable {c : System}

theorem Settling.keep (hof : ∀ k, (stances k).Of d (c.threads k)) (h : Settling d stances c.world)
    {β : Type} {op : Op β} {next : β → Server HttpResponse} (hi : c.threads i = .call op next)
    (hop : op.SparesKeys) (e : Env) (hnext : (stances i).Of d (next (Interp.exec op e c.world).1)) :
    (∀ k, (stances k).Of d ((c.step i e).threads k)) ∧ Settling d stances (c.step i e).world := by
  refine ⟨fun k ↦ ?_, ?_⟩
  · by_cases hk : k = i
    · rw [hk, Pool.step_threads_of_call hi]
      exact hnext
    · rw [Pool.step_threads_of_ne hk]
      exact hof k
  · rw [Pool.step_world_of_call hi]
    exact h.spare (Op.exec_same hop.1 e c.world) (Op.exec_same hop.2 e c.world)

/-- **One step** of any thread. -/
theorem Settling.step (hof : ∀ k, (stances k).Of d (c.threads k))
    (h : Settling d stances c.world) (i : ℕ) (e : Env) (hsafe : c.TruncatesSafely d i e) :
    ∃ stances', (∀ k, Stance.Of d ((c.step i e).threads k) (stances' k)) ∧
      Settling d stances' (c.step i e).world ∧ ∀ k ≠ i, stances' k = stances k := by
  -- the thread stands at another stage now
  have hmove {stage : Stage} (hthread : (c.step i e).threads i = stage.program d)
      (hsettling : Settling d (Function.update stances i (.amid stage)) (c.step i e).world) :
      ∃ stances', (∀ k, Stance.Of d ((c.step i e).threads k) (stances' k)) ∧
        Settling d stances' (c.step i e).world ∧ ∀ k ≠ i, stances' k = stances k := by
    refine ⟨_, fun k ↦ ?_, hsettling, fun k hk ↦ Function.update_of_ne hk _ _⟩
    by_cases hk : k = i
    · rw [hk, Function.update_self]
      exact hthread
    · rw [Function.update_of_ne hk, Pool.step_threads_of_ne hk]
      exact hof k
  have hi := hof i
  cases hstance : stances i with
  | aside =>
    rw [hstance] at hi
    cases hthread : c.threads i with
    | done response =>
      rw [Pool.step_of_done hthread]
      exact ⟨stances, hof, h, fun _ _ ↦ rfl⟩
    | call op next =>
      rw [hthread] at hi
      obtain ⟨hof', h'⟩ := h.keep hof hthread hi.1 e (by rw [hstance]; exact hi.2 _)
      exact ⟨stances, hof', h', fun _ _ ↦ rfl⟩
  | ready =>
    rw [hstance] at hi
    obtain ⟨q, stmt, hq, hthread⟩ := hi
    cases q with
    | done session =>
      refine @hmove .opening (Pool.step_threads_of_call hthread) fun hnone ↦ ?_
      exact absurd (Function.update_self _ _ _) (hnone i)
    | call op next =>
      obtain ⟨hof', h'⟩ := h.keep hof hthread hq.1 e (by
        rw [hstance]
        exact ⟨_, stmt, hq.2 _, rfl⟩)
      exact ⟨stances, hof', h', fun _ _ ↦ rfl⟩
  | amid stage =>
    rw [hstance] at hi
    have hfits : stage = .opening → ∀ k ≠ i, (stances k).Fits d (keyFile d c.world.db) := by
      rintro rfl k hk
      have hother := hof k
      cases hk' : stances k with
      | aside => trivial
      | ready => trivial
      | amid other =>
        rw [hk'] at hother
        cases other with
        | printing offset rows => exact hsafe hi k hk offset rows hother
        | changing => trivial
        | opening => trivial
        | reading => trivial
    have hsettling := h.next hstance e hfits
    rcases stage.program_cases (d := d) e c.world with ⟨response, hdone, hnext⟩ |
      ⟨β, op, next, hcall, hprogram, hworld⟩
    · rw [hnext] at hsettling
      rw [Pool.step_of_done (hi.trans hdone)] at hmove ⊢
      exact hmove hi hsettling
    · have hcall' := hi.trans hcall
      refine hmove ((Pool.step_threads_of_call hcall').trans hprogram) ?_
      rw [Pool.step_world_of_call hcall', hworld]
      exact hsettling

/-- **Every schedule** on which no thread truncates the file under another one. -/
theorem Settling.run {s : List (ℕ × Env)} (hof : ∀ k, (stances k).Of d (c.threads k))
    (h : Settling d stances c.world) (hsafe : c.Along (System.TruncatesSafely d) s) :
    ∃ stances', (∀ k, Stance.Of d ((c.run s).threads k) (stances' k)) ∧
      Settling d stances' (c.run s).world ∧ ∀ k ∉ s.map Prod.fst, stances' k = stances k := by
  induction s generalizing c stances with
  | nil => exact ⟨stances, hof, h, fun _ _ ↦ rfl⟩
  | cons p s ih =>
    obtain ⟨stances₁, hof₁, h₁, hsame₁⟩ := h.step hof p.1 p.2 hsafe.1
    obtain ⟨stances₂, hof₂, h₂, hsame₂⟩ := ih hof₁ h₁ hsafe.2
    refine ⟨stances₂, hof₂, h₂, fun k hk ↦ ?_⟩
    rw [List.map_cons, List.mem_cons, not_or] at hk
    exact (hsame₂ k hk.2).trans (hsame₁ k hk.1)

end Run

/-! ## From jobs to the file -/

/-- Where a job stands before it has begun. -/
def Job.stance : Job → Stance
  | http { target := .api (.userAddSshKey _), .. } => .ready
  | http { target := .api (.userRemoveSshKey _), .. } => .ready
  | _ => .aside

theorem stance_ready {cookies : Cookies} {isSsl : Bool} {rpc : Rpc} {stmt : Session → Write}
    (hrpc : ∀ session, dispatch d (some session) rpc =
      answer .statusMsg (Service.changeSshKeys d (stmt session))) :
    Stance.ready.Of d (serve d { cookies, isSsl, target := .api rpc }) := by
  refine ⟨Session.auth cookies isSsl, stmt, sessionAuth_within cookies isSsl fun _ ↦ ?_, ?_⟩
  · exact ⟨List.not_mem_nil, List.not_mem_nil⟩
  · change HttpResponse.api <$> sessionHandle d cookies isSsl rpc = _
    rw [sessionHandle, map_eq_pure_bind, LawfulMonad.bind_assoc]
    refine congrArg (Session.auth cookies isSsl >>= ·) (funext fun session ↦ ?_)
    rw [← map_eq_pure_bind, hrpc, changeSshKeys_program]

theorem stance_aside {footprint : List Resource} {p : Server HttpResponse}
    (h : p.Within (fun op ↦ op.touches ⊆ footprint) fun _ ↦ True)
    (hfile : .authKeys ∉ footprint) (htable : .table .usersSshKeys ∉ footprint) :
    Stance.aside.Of d p :=
  h.mono (fun _ hop ↦ ⟨fun hmem ↦ hfile (hop hmem), fun hmem ↦ htable (hop hmem)⟩) fun _ h ↦ h

theorem Job.stance_of (d : Deployment) (job : Job) : job.stance.Of d (job.program d) := by
  cases job with
  | http request =>
    obtain ⟨cookies, isSsl, target⟩ := request
    cases target with
    | api rpc =>
      have hwithin := serve_within (d := d) { cookies, isSsl, target := .api rpc }
      cases rpc with
      | userAddSshKey add => exact stance_ready fun _ ↦ rfl
      | userRemoveSshKey remove => exact stance_ready fun _ ↦ rfl
      | _ => exact stance_aside hwithin (by simp) (by simp)
    | logout =>
      have hwithin := serve_within (d := d) { cookies, isSsl, target := .logout }
      exact stance_aside hwithin (by simp) (by simp)
    | archive location =>
      have hwithin := serve_within (d := d) { cookies, isSsl, target := .archive location }
      exact stance_aside hwithin (by simp) (by simp)
  | socket rpc =>
    have hwithin : (serveSocket d rpc).Within (fun op ↦ op.touches ⊆ rpc.footprint) fun _ ↦ True :=
      within_map.mpr ((dispatch_within rpc).mono (fun _ hop ↦ hop.1) fun _ _ ↦ trivial)
    cases rpc with
    | userAddSshKey add => exact trivial
    | userRemoveSshKey remove => exact trivial
    | _ => exact stance_aside hwithin (by simp) (by simp)

theorem Job.stance_cases (job : Job) : job.stance = .aside ∨ job.stance = .ready := by
  unfold Job.stance
  split
  · exact Or.inr rfl
  · exact Or.inr rfl
  · exact Or.inl rfl

theorem Settling.start {jobs : ℕ → Job} (h : Rendered d w) :
    Settling d (fun k ↦ (jobs k).stance) w := by
  intro _
  have hagrees : TextFile.Agrees (keyFile d w.db) (keyFile d w.db).length w.authKeys := by
    rw [h]
    exact ⟨fun _ _ ↦ rfl, le_rfl, le_rfl⟩
  refine ⟨_, hagrees, Or.inl le_rfl, fun k ↦ ?_⟩
  dsimp only
  rcases (jobs k).stance_cases with hk | hk
  · rw [hk]
    trivial
  · rw [hk]
    trivial

/-- **The file settles.** Let any number of threads work on any jobs, in any order of their
operations, such that no thread truncates the file of keys while another one has still something
else to print than what belongs there. Once every thread that has begun has ended, the file is the
printout of the table, if it was so at the start. -/
theorem keys_settle {jobs : ℕ → Job} {w : World} (h : Rendered d w) {s : List (ℕ × Env)}
    (hsafe : (System.serving d jobs w).Along (System.TruncatesSafely d) s)
    (hdone : ∀ k ∈ s.map Prod.fst,
      ∃ response, ((System.serving d jobs w).run s).threads k = .done response) :
    Rendered d ((System.serving d jobs w).run s).world := by
  have hstart : Settling d (fun k ↦ (jobs k).stance) w := Settling.start h
  obtain ⟨stances, hof, hsettling, hsame⟩ := hstart.run (fun k ↦ (jobs k).stance_of d) hsafe
  -- who has changed keys has printed everything
  have hprinted {k : ℕ} {stage : Stage} (hk : stances k = .amid stage) :
      ∃ offset, stage = .printing offset [] := by
    by_cases hbegun : k ∈ s.map Prod.fst
    · obtain ⟨response, hresponse⟩ := hdone k hbegun
      have hprogram := hof k
      rw [hk] at hprogram
      exact Stage.of_program_eq_done (hprogram.symm.trans hresponse)
    · have hstart := (hsame k hbegun).symm.trans hk
      rcases (jobs k).stance_cases with hk' | hk'
      · exact Stance.noConfusion (hk'.symm.trans hstart)
      · exact Stance.noConfusion (hk'.symm.trans hstart)
  obtain ⟨n, hagrees, hleads, -⟩ := hsettling fun k hk ↦ by
    obtain ⟨offset, hopening⟩ := hprinted hk
    exact Stage.noConfusion hopening
  refine hagrees.eq_whole ?_
  rcases hleads with hend | ⟨k, hk⟩
  · exact hend
  · cases hstance : stances k with
    | amid stage =>
      rw [hstance] at hk
      obtain ⟨offset, rfl⟩ := hprinted hstance
      exact List.drop_eq_nil_iff.mp hk.2.symm
    | aside | ready =>
      rw [hstance] at hk
      exact hk.elim

/-! ## Two calls -/

theorem Job.not_printsNext (d : Deployment) (job : Job) : printsNext (job.program d) = false := by
  have hspares {α : Type} {p : Server α} {q : α → Server HttpResponse}
      (hp : p.Within (fun op ↦ op.SparesKeys) fun _ ↦ True)
      (hq : ∀ a, printsNext (q a) = false) : printsNext (p >>= q) = false := by
    cases p with
    | done a => exact hq a
    | call op next =>
      cases op with
      | writeAuthKeys offset data => exact absurd List.mem_cons_self hp.1.1
      | _ => rfl
  have hof := job.stance_of d
  rcases job.stance_cases with hstance | hstance
  · rw [hstance] at hof
    rw [← bind_pure (job.program d)]
    exact hspares hof fun _ ↦ rfl
  · rw [hstance] at hof
    obtain ⟨q, stmt, hq, hprogram⟩ := hof
    rw [hprogram]
    exact hspares hq fun _ ↦ rfl

theorem System.truncatesSafely_of_calm {c : System} {i : ℕ} {e : Env}
    (h : opensNext (c.threads i) = true → ∀ k ≠ i, printsNext (c.threads k) = false) :
    c.TruncatesSafely d i e := by
  intro hopening k hk offset rows hrows
  refine Stage.fits_of_not_printsNext (h ?_ k hk) hrows
  rw [hopening]
  rfl

/-- The first user removes the key again. -/
def HttpRequest.removesKey : HttpRequest :=
  ofUser (text "u")
    (.userRemoveSshKey { key := { type := .kSshKeyRsa, key := [], keyId := some 1 } })

/-- Both calls have run their statements before either of them opens the file, and both print the
key, which has been added after the other call has found nothing to remove. -/
theorem keys_settle_addsKey :
    let jobs := Job.first [.addsKey, .removesKey]
    let s : List (ℕ × Env) := [1, 0, 1, 0, 1, 0, 1, 0, 1, 0].map (·, {})
    Rendered .plain ((System.serving .plain jobs .twoSessions).run s).world := by
  intro jobs s
  have hstart : Rendered .plain .twoSessions := rfl
  have hthreads : ∀ p ∈ s, p.1 ∈ [0, 1] := by decide
  refine keys_settle hstart ?_ fun k hk ↦ ?_
  · refine (along_of_opensCalmly (fun k _ ↦ (jobs k).not_printsNext .plain) hthreads ?_).imp
      fun _ _ _ h ↦ System.truncatesSafely_of_calm h
    decide +kernel
  · have hstatus : ∀ k ∈ s.map Prod.fst, endStatus
        (((System.serving .plain jobs .twoSessions).run s).threads k) = some .kSucceed := by
      decide +kernel
    obtain ⟨reply, hdone, -⟩ := exists_reply_of_endStatus (hstatus k hk)
    exact ⟨_, hdone⟩

end Scissy
