import Mathlib.Logic.Function.Basic
import Mathlib.Tactic.Common
import Scissy.Interaction.Machine
import Scissy.Interaction.Program

/-!
# Races between two programs

Two programs on one state, each with the choices its own operations meet: the `n`-th operation of a
program meets the same choice however the programs are interleaved. So a race can be compared with
the two serial orders (`Race.serial`).

## From a schedule to its first mark

`Race.Leads` is what is left of a schedule once the turns of programs that have returned are
forgotten. Most operations of a program that reads, checks and then writes leave the state alone.
`Leads.first_mark` skips them: it goes to the first step that is marked, and up to there the state
is the old one and each program has only come nearer to its end (`Prog.Quietly`).

`Leads.first_end` is the case of two programs that change the state with their last operation at
most (`Prog.OneChange`): one of them ends first, and until then nothing has changed.
`Leads.first_step` is the case of one such program and one operation of another.

## Why the choices belong to the programs

If the schedule gave out the choices, a race and a serial run would not meet the same ones: the time
and the faults of the disk would come to other operations. A serializability result would then
compare two runs with different surroundings. Here a choice goes with the operation that meets it,
and all that a schedule decides is the order.
-/

namespace Interaction

universe u

variable {F : Type → Type u} {E W α β : Type} [Interp F E W]

/-! ## Programs that change the state once -/

namespace Prog

/-- The program has more operations to issue. -/
def Running (p : Prog F α) : Prop := ¬ p.Ends fun _ ↦ True

theorem running_call (op : F β) (next : β → Prog F α) : (call op next).Running := id

theorem not_running_done (a : α) : ¬ (done a : Prog F α).Running := fun h ↦ h trivial

theorem ends_of_not_running {p : Prog F α} (h : ¬ p.Running) : ∃ a, p = done a := by
  cases p with
  | done a => exact ⟨a, rfl⟩
  | call op next => exact absurd (running_call op next) h

theorem exists_of_ends {p : Prog F α} {P : α → Prop} (h : p.Ends P) : ∃ a, p = done a ∧ P a := by
  cases p with
  | done a => exact ⟨a, rfl, h⟩
  | call op next => exact h.elim

theorem not_running_of_ends {p : Prog F α} {P : α → Prop} (h : p.Ends P) : ¬ p.Running := by
  obtain ⟨a, rfl, -⟩ := exists_of_ends h
  exact not_running_done a

instance (p : Prog F α) : Decidable p.Running :=
  match p with
  | done a => isFalse (not_running_done a)
  | call op next => isTrue (running_call op next)

/-- An operation that gives this answer leaves the state alone. -/
def Harmless (op : F β) (b : β) : Prop :=
  ∀ (e : E) (w : W), (Interp.exec op e w).1 = b → (Interp.exec op e w).2 = w

/-- Only the last operation can change the state. -/
def OneChange : Prog F α → Prop
  | done _ => True
  | call op next => ∀ b, (next b).Running → Harmless op b ∧ (next b).OneChange

/-- From `p` to `q` by operations that leave the state alone. -/
inductive Quietly (w : W) : Prog F α → (ℕ → E) → Prog F α → (ℕ → E) → Prop
  | refl (p : Prog F α) (env : ℕ → E) : Quietly w p env p env
  | step {β : Type} {op : F β} {next : β → Prog F α} {env : ℕ → E} {q : Prog F α} {env' : ℕ → E}
      (hsame : (Interp.exec op (env 0) w).2 = w)
      (hrun : (next (Interp.exec op (env 0) w).1).Running)
      (h : Quietly w (next (Interp.exec op (env 0) w).1) (fun n ↦ env (n + 1)) q env') :
      Quietly w (call op next) env q env'

theorem Quietly.run_eq {w : W} {p q : Prog F α} {env env' : ℕ → E} (h : Quietly w p env q env') :
    p.run env w = q.run env' w := by
  induction h with
  | refl => rfl
  | step hsame _ _ ih => rw [run_call, hsame, ih]

theorem Quietly.trans {w : W} {p q r : Prog F α} {env env' env'' : ℕ → E}
    (h : Quietly w p env q env') (h' : Quietly w q env' r env'') : Quietly w p env r env'' := by
  induction h with
  | refl => exact h'
  | step hsame hrun _ ih => exact .step hsame hrun (ih h')

theorem Quietly.preserves {w : W} {I : Prog F α → (ℕ → E) → Prop}
    (hstep : ∀ {β : Type} (op : F β) (next : β → Prog F α) (env : ℕ → E), I (call op next) env →
      (Interp.exec op (env 0) w).2 = w → (next (Interp.exec op (env 0) w).1).Running →
        I (next (Interp.exec op (env 0) w).1) fun n ↦ env (n + 1))
    {p q : Prog F α} {env env' : ℕ → E} (h : Quietly w p env q env') (hp : I p env) : I q env' := by
  induction h with
  | refl => exact hp
  | step hsame hrun _ ih => exact ih (hstep _ _ _ hp hsame hrun)

end Prog

open Prog

/-! ## Races -/

/-- Two programs, the choices that the operations of each will meet, and the state they share. -/
structure Race (F : Type → Type u) (E W α : Type) where
  threads : Bool → Prog F α
  env : Bool → ℕ → E
  world : W

namespace Race

/-- Program `i` issues its next operation. -/
def step (c : Race F E W α) (i : Bool) : Race F E W α :=
  match c.threads i with
  | .done _ => c
  | .call op next =>
    let r := Interp.exec op (c.env i 0) c.world
    ⟨Function.update c.threads i (next r.1), Function.update c.env i fun n ↦ c.env i (n + 1), r.2⟩

/-- Both programs have returned. -/
def Finished (c : Race F E W α) : Prop := ∀ i, ¬ (c.threads i).Running

instance (c : Race F E W α) : Decidable c.Finished :=
  inferInstanceAs (Decidable (∀ i, ¬ (c.threads i).Running))

/-- The state after program `i` and then the other one, each running by itself. -/
def serial (c : Race F E W α) (i : Bool) : W :=
  ((c.threads !i).run (c.env !i) ((c.threads i).run (c.env i) c.world).2).2

variable {c c' : Race F E W α} {i j : Bool} {w : W} {ok : Race F E W α → Bool → Prop}

theorem step_of_done {a : α} (h : c.threads i = .done a) : c.step i = c := by
  rw [step, h]

section Call

variable {op : F β} {next : β → Prog F α}

theorem step_of_call (h : c.threads i = .call op next) :
    c.step i = ⟨Function.update c.threads i (next (Interp.exec op (c.env i 0) c.world).1),
      Function.update c.env i fun n ↦ c.env i (n + 1),
      (Interp.exec op (c.env i 0) c.world).2⟩ := by
  rw [step, h]

theorem step_threads_self (h : c.threads i = .call op next) :
    (c.step i).threads i = next (Interp.exec op (c.env i 0) c.world).1 := by
  rw [step_of_call h]
  exact Function.update_self _ _ _

theorem step_env_self (h : c.threads i = .call op next) :
    (c.step i).env i = fun n ↦ c.env i (n + 1) := by
  rw [step_of_call h]
  exact Function.update_self _ _ _

theorem step_world (h : c.threads i = .call op next) :
    (c.step i).world = (Interp.exec op (c.env i 0) c.world).2 := by
  rw [step_of_call h]

end Call

theorem step_threads_of_ne (h : j ≠ i) : (c.step i).threads j = c.threads j := by
  cases hi : c.threads i with
  | done a => rw [step_of_done hi]
  | call op next =>
    rw [step_of_call hi]
    exact Function.update_of_ne h _ _

theorem step_env_of_ne (h : j ≠ i) : (c.step i).env j = c.env j := by
  cases hi : c.threads i with
  | done a => rw [step_of_done hi]
  | call op next =>
    rw [step_of_call hi]
    exact Function.update_of_ne h _ _

/-! ## Schedules -/

/-- Some schedule whose steps are all `ok` leads from `c` to the end, in the state `w`. -/
inductive Leads (ok : Race F E W α → Bool → Prop) : Race F E W α → W → Prop
  | finished (c : Race F E W α) (h : c.Finished) : Leads ok c c.world
  | step (c : Race F E W α) (i : Bool) (w : W) (hrun : (c.threads i).Running) (hok : ok c i)
      (h : Leads ok (c.step i) w) : Leads ok c w

theorem leads_of_along {s : List Bool} (hs : Along step ok c s) (h : (s.foldl step c).Finished) :
    Leads ok c (s.foldl step c).world := by
  induction s generalizing c with
  | nil => exact .finished c h
  | cons i s ih =>
    rw [List.foldl_cons] at h ⊢
    by_cases hrun : (c.threads i).Running
    · exact .step c i _ hrun hs.1 (ih hs.2 h)
    · obtain ⟨a, ha⟩ := ends_of_not_running hrun
      have hsame : c.step i = c := step_of_done ha
      have hrest := hs.2
      rw [hsame] at hrest h ⊢
      exact ih hrest h

theorem Leads.alone (h : Leads ok c w) (hi : ¬ (c.threads i).Running) :
    w = ((c.threads !i).run (c.env !i) c.world).2 := by
  induction h with
  | finished c hfin =>
    obtain ⟨a, ha⟩ := ends_of_not_running (hfin !i)
    rw [ha]
    rfl
  | step c j w hrun hok h ih =>
    have hj : j = !i := Bool.eq_not_of_ne fun heq ↦ hi (heq ▸ hrun)
    subst hj
    have hne : i ≠ !i := (Bool.eq_not.mp rfl).symm
    rw [step_threads_of_ne hne] at ih
    cases hcall : c.threads !i with
    | done a =>
      rw [hcall] at hrun
      exact absurd trivial hrun
    | call op next =>
      rw [ih hi, step_threads_self hcall, step_env_self hcall, step_world hcall, run_call]

theorem step_world_of_ended (hrun : (c.threads i).Running)
    (hnext : ¬ ((c.step i).threads i).Running) :
    (c.step i).world = ((c.threads i).run (c.env i) c.world).2 := by
  cases hcall : c.threads i with
  | done a =>
    rw [hcall] at hrun
    exact absurd hrun (not_running_done a)
  | call op next =>
    rw [step_threads_self hcall] at hnext
    obtain ⟨a, ha⟩ := ends_of_not_running hnext
    rw [step_world hcall, run_call, ha, run_done]

theorem Leads.serial_of_ended (h : Leads ok c w) (hi : ¬ (c.threads i).Running) :
    w = c.serial i := by
  obtain ⟨a, ha⟩ := ends_of_not_running hi
  rw [h.alone hi, serial, ha, run_done]

theorem Leads.serial_of_last (h : Leads ok (c.step i) w) (hrun : (c.threads i).Running)
    (hnext : ¬ ((c.step i).threads i).Running) : w = c.serial i := by
  have hne : (!i) ≠ i := Bool.eq_not.mp rfl
  rw [h.alone hnext, step_threads_of_ne hne, step_env_of_ne hne, serial,
    step_world_of_ended hrun hnext]

theorem Leads.turn (h : Leads ok c w) (hrun : (c.threads i).Running)
    (hi : ¬ (c.threads !i).Running) : ok c i ∧ Leads ok (c.step i) w := by
  cases h with
  | finished _ hfin => exact absurd hrun (hfin i)
  | step _ j _ hj hok h =>
    obtain rfl : j = i := by
      by_contra hji
      rw [Bool.eq_not_of_ne hji] at hj
      exact hi hj
    exact ⟨hok, h⟩

/-- **The quiet steps of a program that runs by itself** are met by the race. -/
theorem Leads.reaches {p q : Prog F α} {env env' : ℕ → E} (hq : Quietly c.world p env q env')
    (h : Leads ok c w) (hp : c.threads i = p) (henv : c.env i = env)
    (hi : ¬ (c.threads !i).Running) (hrun : q.Running) :
    ∃ c', c'.threads i = q ∧ c'.threads (!i) = c.threads (!i) ∧ c'.world = c.world ∧ ok c' i := by
  generalize hw : c.world = v at hq
  induction hq generalizing c with
  | refl p env =>
    rw [← hp] at hrun
    exact ⟨c, hp, rfl, hw, (h.turn hrun hi).1⟩
  | step hsame _ _ ih =>
    have hne : (!i) ≠ i := Bool.eq_not.mp rfl
    have hcall : (c.threads i).Running := hp ▸ running_call _ _
    subst hw henv
    have hstep := step_threads_of_ne (c := c) hne
    obtain ⟨c', hthread, hother, hworld, hok⟩ := ih (h.turn hcall hi).2 (step_threads_self hp)
      (step_env_self hp) (hstep ▸ hi) hrun ((step_world hp).trans hsame)
    exact ⟨c', hthread, hother.trans hstep, hworld, hok⟩

/-- What the quiet steps of a race leave behind. -/
structure Calm (c c' : Race F E W α) : Prop where
  world : c'.world = c.world
  quietly : ∀ i, Quietly c.world (c.threads i) (c.env i) (c'.threads i) (c'.env i)

theorem Calm.refl (c : Race F E W α) : c.Calm c := ⟨rfl, fun _ ↦ .refl _ _⟩

theorem Calm.run_eq (h : c.Calm c') (i : Bool) :
    (c'.threads i).run (c'.env i) c'.world = (c.threads i).run (c.env i) c.world := by
  rw [(h.quietly i).run_eq, h.world]

/-- **To the first mark.** As long as no step is marked, the state stays as it is. -/
theorem Leads.first_mark {I : Race F E W α → Prop} {Marked : Race F E W α → Bool → Prop}
    (hrun : ∀ c, I c → ¬ c.Finished)
    (hstep : ∀ c i, I c → (c.threads i).Running → Marked c i ∨
      (c.step i).world = c.world ∧ ((c.step i).threads i).Running ∧ I (c.step i))
    (h : Leads ok c w) (hc : I c) :
    ∃ c' i, c.Calm c' ∧ I c' ∧ (c'.threads i).Running ∧ Marked c' i ∧ ok c' i ∧
      Leads ok (c'.step i) w := by
  induction h with
  | finished c hfin => exact absurd hfin (hrun c hc)
  | step c i w hi hok h ih =>
    rcases hstep c i hc hi with hmark | ⟨hworld, hnext, hI⟩
    · exact ⟨c, i, .refl c, hc, hi, hmark, hok, h⟩
    · obtain ⟨c', k, hcalm, hrest⟩ := ih hI
      refine ⟨c', k, ⟨hcalm.world.trans hworld, fun j ↦ ?_⟩, hrest⟩
      have hj := hcalm.quietly j
      rw [hworld] at hj
      by_cases hji : j = i
      · subst hji
        cases hcall : c.threads j with
        | done a =>
          rw [hcall] at hi
          exact absurd trivial hi
        | call op next =>
          rw [step_threads_self hcall, step_env_self hcall] at hj
          rw [step_threads_self hcall] at hnext
          rw [step_world hcall] at hworld
          exact .step hworld hnext hj
      · rwa [step_threads_of_ne hji, step_env_of_ne hji] at hj

theorem step_of_oneChange (hone : (c.threads i).OneChange) (hrun : (c.threads i).Running)
    (hnext : ((c.step i).threads i).Running) :
    (c.step i).world = c.world ∧ ((c.step i).threads i).OneChange := by
  cases hcall : c.threads i with
  | done a =>
    rw [hcall] at hrun
    exact absurd trivial hrun
  | call op next =>
    rw [hcall] at hone
    rw [step_threads_self hcall] at hnext ⊢
    rw [step_world hcall]
    obtain ⟨hharmless, hone⟩ := hone _ hnext
    exact ⟨hharmless _ _ rfl, hone⟩

/-- **One of the two ends first**, and until then nothing has changed. -/
theorem Leads.first_end (h : Leads ok c w) (hone : ∀ i, (c.threads i).OneChange)
    (hrun : ∀ i, (c.threads i).Running) :
    ∃ c' i, c.Calm c' ∧ (∀ j, (c'.threads j).Running) ∧ ¬ ((c'.step i).threads i).Running ∧
      ok c' i ∧ Leads ok (c'.step i) w := by
  have hstep (c : Race F E W α) (i : Bool)
      (hc : (∀ i, (c.threads i).OneChange) ∧ ∀ i, (c.threads i).Running)
      (hi : (c.threads i).Running) : ¬ ((c.step i).threads i).Running ∨
        (c.step i).world = c.world ∧ ((c.step i).threads i).Running ∧
          (∀ j, ((c.step i).threads j).OneChange) ∧ ∀ j, ((c.step i).threads j).Running := by
    by_cases hnext : ((c.step i).threads i).Running
    · obtain ⟨hworld, hone⟩ := step_of_oneChange (hc.1 i) hi hnext
      refine Or.inr ⟨hworld, hnext, fun j ↦ ?_, fun j ↦ ?_⟩ <;> by_cases hji : j = i
      · rwa [hji]
      · rw [step_threads_of_ne hji]
        exact hc.1 j
      · rwa [hji]
      · rw [step_threads_of_ne hji]
        exact hc.2 j
    · exact Or.inl hnext
  obtain ⟨c', i, hcalm, ⟨-, hrun'⟩, -, hmark, hrest⟩ :=
    h.first_mark (fun c hc hfin ↦ hfin true (hc.2 true)) hstep ⟨hone, hrun⟩
  exact ⟨c', i, hcalm, hrun', hmark, hrest⟩

/-- **One operation of the other program**, or the end of this one before it. -/
theorem Leads.first_step (h : Leads ok c w) (hone : (c.threads i).OneChange)
    (hrun : ∀ j, (c.threads j).Running) :
    ∃ c' j, c.Calm c' ∧ c'.threads (!i) = c.threads (!i) ∧ c'.env (!i) = c.env (!i) ∧
      (c'.threads i).Running ∧ (c'.threads i).OneChange ∧
      (j = !i ∨ j = i ∧ ¬ ((c'.step i).threads i).Running) ∧ ok c' j ∧ Leads ok (c'.step j) w := by
  have hstep (v : Race F E W α) (j : Bool)
      (hv : v.threads (!i) = c.threads (!i) ∧ v.env (!i) = c.env (!i) ∧ (v.threads i).Running ∧
        (v.threads i).OneChange) (hj : (v.threads j).Running) :
      (j = !i ∨ j = i ∧ ¬ ((v.step i).threads i).Running) ∨
        (v.step j).world = v.world ∧ ((v.step j).threads j).Running ∧
          (v.step j).threads (!i) = c.threads (!i) ∧ (v.step j).env (!i) = c.env (!i) ∧
            ((v.step j).threads i).Running ∧ ((v.step j).threads i).OneChange := by
    by_cases hji : j = i
    · subst hji
      by_cases hnext : ((v.step j).threads j).Running
      · obtain ⟨hworld, hone⟩ := step_of_oneChange hv.2.2.2 hj hnext
        have hne : (!j) ≠ j := Bool.eq_not.mp rfl
        rw [step_threads_of_ne hne, step_env_of_ne hne]
        exact Or.inr ⟨hworld, hnext, hv.1, hv.2.1, hnext, hone⟩
      · exact Or.inl (Or.inr ⟨rfl, hnext⟩)
    · exact Or.inl (Or.inl (Bool.eq_not_of_ne hji))
  obtain ⟨c', j, hcalm, ⟨hthreads, henv, hrun', hone'⟩, -, hmark, hrest⟩ :=
    h.first_mark (fun v hv hfin ↦ hfin i hv.2.2.1) hstep ⟨rfl, rfl, hrun i, hone⟩
  exact ⟨c', j, hcalm, hthreads, henv, hrun', hone', hmark, hrest⟩

end Race

end Interaction
