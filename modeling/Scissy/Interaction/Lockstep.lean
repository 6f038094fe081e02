import Mathlib.Data.Set.Insert
import Scissy.Interaction.Mediation

/-!
# Two runs side by side

A program is blind to a difference of two states if it does the same in both: with the same choices
it goes on in the same way after every operation, and the states go on differing in that way only.
The answer to an operation may show the difference, as long as what the program does with it does
not. A program that is not blind does no harm to the others if it only looks (`Idle`).

## The rules

- `Blind.bind` composes; `Within.blind` and `Obeys.blind` are the rules for a program whose
  operations do not show the difference, and for one that a monitor keeps from those that do.
- `Pool.run_abreast` is about two pools whose threads are blind or only look. Under the same
  schedule a thread that only looks may go another way once it has seen the difference, but no other
  thread is ever at another point in one pool than in the other.
- `Pool.run_blind` is the case in which all threads are blind.

## What stays the same

The schedule is the same in both pools, and so are the choices of the environment. A thread that has
seen the difference may need more operations in one pool than in the other, and then a turn that is
its next operation there is an idle turn here. That does not disturb the rest, since the schedule
gives turns to threads and not to operations.
-/

namespace Interaction

universe u

variable {F : Type → Type u} {E W α β γ ι : Type} [Interp F E W]

/-- The operation answers the same in related states, and leaves related states. -/
def Conceals (R : W → W → Prop) (op : F β) : Prop :=
  ∀ (e : E) (w w' : W), R w w' → (Interp.exec op e w').1 = (Interp.exec op e w).1 ∧
    R (Interp.exec op e w).2 (Interp.exec op e w').2

theorem Conceals.assuming {R : W → W → Prop} {I : W → Prop} {op : F β}
    (h : Conceals (E := E) R op) (hI : ∀ (e : E) w, I w → I (Interp.exec op e w).2) :
    Conceals (E := E) (fun w w' ↦ I w ∧ R w w') op := fun e w w' hw ↦
  ⟨(h e w w' hw.2).1, hI e w hw.1, (h e w w' hw.2).2⟩

namespace Prog

/-- From related states the program does the same, and they stay related. -/
def Blind (R : W → W → Prop) : Prog F α → Prop
  | done _ => True
  | call op next => ∀ (e : E) (w w' : W), R w w' →
    next (Interp.exec op e w').1 = next (Interp.exec op e w).1 ∧
      R (Interp.exec op e w).2 (Interp.exec op e w').2 ∧ (next (Interp.exec op e w).1).Blind R

variable {R : W → W → Prop}

theorem Blind.bind {p : Prog F γ} {f : γ → Prog F α} (h : p.Blind R) (hf : ∀ a, (f a).Blind R) :
    (p >>= f).Blind R := by
  induction p with
  | done a => exact hf a
  | call op next ih =>
    intro e w w' hw
    obtain ⟨hnext, hR, hblind⟩ := h e w w' hw
    exact ⟨congrArg (· >>= f) hnext, hR, ih _ hblind⟩

theorem Blind.map {p : Prog F γ} (h : p.Blind R) (f : γ → α) : (f <$> p).Blind R := by
  rw [map_eq_pure_bind]
  exact h.bind fun _ ↦ trivial

/-- The rule for a program whose operations do not show the difference. -/
theorem Within.blind {P : {β : Type} → F β → Prop} {V : α → Prop} {p : Prog F α}
    (h : p.Within P V) (hP : ∀ {β : Type} (op : F β), P op → Conceals R op) : p.Blind R := by
  induction p with
  | done a => trivial
  | call op next ih =>
    intro e w w' hw
    obtain ⟨hanswer, hR⟩ := hP op h.1 e w w' hw
    exact ⟨congrArg next hanswer, hR, ih _ (h.2 _)⟩

/-- The rule for a program that a monitor keeps from operations that show the difference. -/
theorem Obeys.blind {I : W → Prop} {m : Monitor F W} {Q : List (Event F W) → α → Prop}
    {past : List (Event F W)} {p : Prog F α} (h : p.Obeys I m Q past)
    (hI : ∀ {β : Type} (op : F β) (e : E) w, I w → I (Interp.exec op e w).2)
    (hm : ∀ {β : Type} (op : F β) past e w, m past (.of op e w) → Conceals R op) :
    p.Blind fun w w' ↦ I w ∧ R w w' := by
  induction p generalizing past with
  | done a => trivial
  | call op next ih =>
    intro e w w' hw
    obtain ⟨hallowed, hnext⟩ := h w e hw.1
    obtain ⟨hanswer, hR⟩ := (hm op past e w hallowed).assuming (hI op) e w w' hw
    exact ⟨congrArg next hanswer, hR, ih _ hnext⟩

theorem Blind.assuming {I : W → Prop} {p : Prog F α} (h : p.Blind R)
    (hI : ∀ {β : Type} (op : F β) (e : E) w, I w → I (Interp.exec op e w).2) :
    p.Blind fun w w' ↦ I w ∧ R w w' := by
  induction p with
  | done a => trivial
  | call op next ih =>
    intro e w w' hw
    obtain ⟨hnext, hR, hblind⟩ := h e w w' hw.2
    exact ⟨hnext, ⟨hI op e w hw.1, hR⟩, ih _ hblind⟩

/-- No operation of the program changes the state. -/
def Idle (p : Prog F α) : Prop :=
  p.Within (fun op ↦ ∀ (e : E) (w : W), (Interp.exec op e w).2 = w) fun _ ↦ True

end Prog

namespace Pool

variable [DecidableEq ι] {R : W → W → Prop} {c c' : Pool ι F W α} {i k : ι}

theorem step_of_idle (h : (c.threads i).Idle) (e : E) :
    (c.step i e).world = c.world ∧ ((c.step i e).threads i).Idle := by
  cases hi : c.threads i with
  | done a =>
    rw [step_of_done hi]
    exact ⟨rfl, h⟩
  | call op next =>
    rw [hi] at h
    rw [step_world_of_call hi, step_threads_of_call hi]
    exact ⟨h.1 e c.world, h.2 _⟩

/-- The threads in `T` may have seen the difference, and only look. The others are at the same point
in both pools; they are blind to it, or they only look. -/
structure Abreast (R : W → W → Prop) (T : Set ι) (c c' : Pool ι F W α) : Prop where
  world : R c.world c'.world
  idle : ∀ k ∈ T, (c.threads k).Idle ∧ (c'.threads k).Idle
  same : ∀ k ∉ T, c'.threads k = c.threads k
  kind : ∀ k ∉ T, (c.threads k).Blind R ∨ (c.threads k).Idle

namespace Abreast

variable {T : Set ι}

theorem step_of_mem (h : Abreast R T c c') (hi : i ∈ T) (e : E) :
    Abreast R T (c.step i e) (c'.step i e) := by
  obtain ⟨hidle, hidle'⟩ := h.idle i hi
  obtain ⟨hworld, hnext⟩ := step_of_idle hidle e
  obtain ⟨hworld', hnext'⟩ := step_of_idle hidle' e
  have hne {k : ι} (hk : k ∉ T) : k ≠ i := fun heq ↦ hk (heq ▸ hi)
  refine ⟨?_, fun k hk ↦ ?_, fun k hk ↦ ?_, fun k hk ↦ ?_⟩
  · rw [hworld, hworld']
    exact h.world
  · by_cases heq : k = i
    · subst heq
      exact ⟨hnext, hnext'⟩
    · rw [step_threads_of_ne heq, step_threads_of_ne heq]
      exact h.idle k hk
  · rw [step_threads_of_ne (hne hk), step_threads_of_ne (hne hk)]
    exact h.same k hk
  · rw [step_threads_of_ne (hne hk)]
    exact h.kind k hk

theorem step_of_eq {op : F β} {next : β → Prog F α} (h : Abreast R T c c') (hi : i ∉ T)
    (hcall : c.threads i = .call op next) (e : E)
    (hworld : R (Interp.exec op e c.world).2 (Interp.exec op e c'.world).2)
    (hnext : next (Interp.exec op e c'.world).1 = next (Interp.exec op e c.world).1)
    (hkind : (next (Interp.exec op e c.world).1).Blind R ∨
      (next (Interp.exec op e c.world).1).Idle) :
    Abreast R T (c.step i e) (c'.step i e) := by
  have hcall' : c'.threads i = .call op next := (h.same i hi).trans hcall
  refine ⟨?_, fun k hk ↦ ?_, fun k hk ↦ ?_, fun k hk ↦ ?_⟩
  · rw [step_world_of_call hcall, step_world_of_call hcall']
    exact hworld
  · have hne : k ≠ i := fun heq ↦ hi (heq ▸ hk)
    rw [step_threads_of_ne hne, step_threads_of_ne hne]
    exact h.idle k hk
  · by_cases heq : k = i
    · subst heq
      rw [step_threads_of_call hcall, step_threads_of_call hcall', hnext]
    · rw [step_threads_of_ne heq, step_threads_of_ne heq]
      exact h.same k hk
  · by_cases heq : k = i
    · subst heq
      rw [step_threads_of_call hcall]
      exact hkind
    · rw [step_threads_of_ne heq]
      exact h.kind k hk

theorem step_of_idle (h : Abreast R T c c') (hi : i ∉ T) (hidle : (c.threads i).Idle) (e : E) :
    Abreast R (insert i T) (c.step i e) (c'.step i e) := by
  refine Abreast.step_of_mem ⟨h.world, fun k hk ↦ ?_, fun k hk ↦ ?_, fun k hk ↦ ?_⟩
    (Set.mem_insert i T) e
  · obtain rfl | hk := Set.mem_insert_iff.mp hk
    · exact ⟨hidle, (h.same k hi).symm ▸ hidle⟩
    · exact h.idle k hk
  · exact h.same k fun hmem ↦ hk (Set.mem_insert_of_mem i hmem)
  · exact h.kind k fun hmem ↦ hk (Set.mem_insert_of_mem i hmem)

end Abreast

/-- A thread does the same in both pools if it is blind to the difference, or if all that it issues
conceals it. -/
def Unaware (R : W → W → Prop) (c : Pool ι F W α) (k : ι) (s : List (ι × E)) : Prop :=
  (c.threads k).Blind R ∨ ∀ event ∈ c.events k s, Conceals R event.op

theorem Unaware.step {e : E} {s : List (ι × E)} (h : c.Unaware R k ((i, e) :: s))
    (hworld : R c.world c'.world) : (c.step i e).Unaware R k s := by
  refine h.imp (fun hblind ↦ ?_) fun hevents event hmem ↦
    hevents event (events_step_subset c k i e s hmem)
  by_cases hk : k = i
  · subst hk
    cases hcall : c.threads k with
    | done a => rwa [step_of_done hcall]
    | call op next =>
      rw [step_threads_of_call hcall]
      rw [hcall] at hblind
      exact (hblind e _ _ hworld).2.2
  · rwa [step_threads_of_ne hk]

/-- **Two pools under the same schedule.** The states stay related, and the threads that are unaware
of the difference do the same in both. -/
theorem run_abreast {T : Set ι} (h : Abreast R T c c') (s : List (ι × E)) :
    R (c.run s).world (c'.run s).world ∧
      ∀ k ∉ T, c.Unaware R k s → (c'.run s).threads k = (c.run s).threads k := by
  induction s generalizing c c' T with
  | nil => exact ⟨h.world, fun k hk _ ↦ h.same k hk⟩
  | cons p s ih =>
    obtain ⟨i, e⟩ := p
    rw [run_cons, run_cons]
    by_cases hi : i ∈ T
    · obtain ⟨hR, hsame⟩ := ih (h.step_of_mem hi e)
      exact ⟨hR, fun k hk hk' ↦ hsame k hk (hk'.step h.world)⟩
    cases hcall : c.threads i with
    | done a =>
      have hstep (k : ι) (hk : c.Unaware R k ((i, e) :: s)) : c.Unaware R k s := by
        have hk := hk.step h.world
        rwa [step_of_done hcall] at hk
      rw [step_of_done hcall, step_of_done ((h.same i hi).trans hcall)]
      obtain ⟨hR, hsame⟩ := ih h
      exact ⟨hR, fun k hk hk' ↦ hsame k hk (hstep k hk')⟩
    | call op next =>
      by_cases hblind : (c.threads i).Blind R
      · have hnext := hblind
        rw [hcall] at hnext
        obtain ⟨hnext, hworld, hblind'⟩ := hnext e _ _ h.world
        obtain ⟨hR, hsame⟩ := ih (h.step_of_eq hi hcall e hworld hnext (Or.inl hblind'))
        exact ⟨hR, fun k hk hk' ↦ hsame k hk (hk'.step h.world)⟩
      have hidle := (h.kind i hi).resolve_left hblind
      by_cases hanswer : (Interp.exec op e c'.world).1 = (Interp.exec op e c.world).1
      · have hnext := hidle
        rw [hcall] at hnext
        have hworld : R (Interp.exec op e c.world).2 (Interp.exec op e c'.world).2 := by
          rw [hnext.1 e c.world, hnext.1 e c'.world]
          exact h.world
        obtain ⟨hR, hsame⟩ := ih (h.step_of_eq hi hcall e hworld (congrArg next hanswer)
          (Or.inr (hnext.2 _)))
        exact ⟨hR, fun k hk hk' ↦ hsame k hk (hk'.step h.world)⟩
      · -- the thread may have seen the difference now, so it was not unaware
        obtain ⟨hR, hsame⟩ := ih (h.step_of_idle hi hidle e)
        refine ⟨hR, fun k hk hk' ↦ hsame k ?_ (hk'.step h.world)⟩
        rw [Set.mem_insert_iff, not_or]
        refine ⟨?_, hk⟩
        rintro rfl
        rw [Unaware, events_cons_of_call hcall] at hk'
        have hconceals := hk'.resolve_left hblind _ List.mem_cons_self
        exact hanswer (hconceals e _ _ h.world).1

/-- **Two pools of the same blind programs**, in related states and under the same schedule, do the
same. -/
theorem run_blind (hthreads : c'.threads = c.threads) (hworld : R c.world c'.world)
    (h : ∀ k, (c.threads k).Blind R) (s : List (ι × E)) :
    (c'.run s).threads = (c.run s).threads ∧ R (c.run s).world (c'.run s).world := by
  have habreast : Abreast R ∅ c c' :=
    ⟨hworld, fun _ hk ↦ hk.elim, fun k _ ↦ congrFun hthreads k, fun k _ ↦ Or.inl (h k)⟩
  obtain ⟨hR, hsame⟩ := run_abreast habreast s
  exact ⟨funext fun k ↦ hsame k (Set.notMem_empty k) (Or.inl (h k)), hR⟩

end Pool

end Interaction
