import Mathlib.Logic.Function.Basic
import Mathlib.Tactic.Common
import Scissy.Interaction.Program

/-!
# Pools of programs

Several programs on one state. A schedule names the program that issues its next operation, and the
environment's choice for it; nothing else happens between two operations. A program that has
returned ignores its turns, so every list is a schedule.

## One program among others

`Prog.Alongside` is the rely/guarantee rule for one program of the pool. While it waits to issue an
operation, the others may change the state as `rely` allows for that operation, so the assumption
can differ from one point of the program to the next. The postcondition sees the program's own
events: each operation with its answer and the states around it. `Pool.alongside_run` turns it into
a statement about every schedule the others keep to (`Pool.Undisturbed`).

## Names of programs

The programs of a pool are a function from an index type, and nothing asks for it to be finite: a
schedule is finite, so all but finitely many programs never have a turn. Two programs, as in a
race, are a pool over `Bool`, and a server that takes any number of requests is one over `ℕ`.
-/

namespace Interaction

universe u

variable {ι : Type} {F : Type → Type u} {E W α : Type}

/-- One operation a program has issued. -/
structure Event (F : Type → Type u) (W : Type) where
  {β : Type}
  op : F β
  answer : β
  before : W
  after : W

/-- Programs that share a state. -/
structure Pool (ι : Type) (F : Type → Type u) (W α : Type) where
  threads : ι → Prog F α
  world : W

namespace Pool

variable [DecidableEq ι] [Interp F E W] (c : Pool ι F W α)

/-- Thread `i` issues its next operation. -/
def step (i : ι) (e : E) : Pool ι F W α :=
  match c.threads i with
  | .done _ => c
  | .call op next =>
    let r := Interp.exec op e c.world
    ⟨Function.update c.threads i (next r.1), r.2⟩

/-- Follow a schedule. -/
def run (c : Pool ι F W α) : List (ι × E) → Pool ι F W α
  | [] => c
  | (i, e) :: s => (c.step i e).run s

variable {c} {i k : ι} {e : E} {s : List (ι × E)}

theorem step_of_done {a : α} (h : c.threads i = .done a) : c.step i e = c := by
  rw [step, h]

theorem step_of_call {β : Type} {op : F β} {next : β → Prog F α}
    (h : c.threads i = .call op next) :
    c.step i e = ⟨Function.update c.threads i (next (Interp.exec op e c.world).1),
      (Interp.exec op e c.world).2⟩ := by
  rw [step, h]

theorem step_threads_of_ne (h : k ≠ i) : (c.step i e).threads k = c.threads k := by
  cases hi : c.threads i with
  | done a => rw [step_of_done hi]
  | call op next => rw [step_of_call hi]; exact Function.update_of_ne h _ _

theorem step_threads_of_call {β : Type} {op : F β} {next : β → Prog F α}
    (h : c.threads i = .call op next) :
    (c.step i e).threads i = next (Interp.exec op e c.world).1 := by
  rw [step_of_call h]
  exact Function.update_self _ _ _

theorem step_world_of_call {β : Type} {op : F β} {next : β → Prog F α}
    (h : c.threads i = .call op next) :
    (c.step i e).world = (Interp.exec op e c.world).2 := by
  rw [step_of_call h]

@[simp] theorem run_nil : c.run ([] : List (ι × E)) = c := rfl

@[simp] theorem run_cons : c.run ((i, e) :: s) = (c.step i e).run s := rfl

theorem run_append (c : Pool ι F W α) (s s' : List (ι × E)) :
    c.run (s ++ s') = (c.run s).run s' := by
  induction s generalizing c with
  | nil => rfl
  | cons p s ih => exact ih (c.step p.1 p.2)

/-- Every step of the schedule meets a condition on the pool it starts from. -/
def Along (ok : Pool ι F W α → ι → E → Prop) : Pool ι F W α → List (ι × E) → Prop
  | _, [] => True
  | c, (i, e) :: s => ok c i e ∧ Along ok (c.step i e) s

theorem Along.induction {ok : Pool ι F W α → ι → E → Prop} {I : Pool ι F W α → Prop}
    (hstep : ∀ c i (e : E), ok c i e → I c → I (c.step i e)) (hs : c.Along ok s) (h : I c) :
    I (c.run s) := by
  induction s generalizing c with
  | nil => exact h
  | cons p s ih => exact ih hs.2 (hstep c p.1 p.2 hs.1 h)

theorem Along.imp {ok ok' : Pool ι F W α → ι → E → Prop} (hs : c.Along ok s)
    (h : ∀ c i e, ok c i e → ok' c i e) : c.Along ok' s := by
  induction s generalizing c with
  | nil => trivial
  | cons p s ih => exact ⟨h c p.1 p.2 hs.1, ih hs.2⟩

theorem along_true (c : Pool ι F W α) (s : List (ι × E)) : c.Along (fun _ _ _ ↦ True) s := by
  induction s generalizing c with
  | nil => trivial
  | cons p s ih => exact ⟨trivial, ih _⟩

theorem run_induction {I : Pool ι F W α → Prop} (hstep : ∀ c i (e : E), I c → I (c.step i e))
    (h : I c) (s : List (ι × E)) : I (c.run s) :=
  (along_true c s).induction (fun c i e _ ↦ hstep c i e) h

theorem run_world_invariant {I : W → Prop}
    (hop : ∀ {β : Type} (op : F β) (e : E) w, I w → I (Interp.exec op e w).2) (h : I c.world)
    (s : List (ι × E)) : I (c.run s).world := by
  refine run_induction (I := fun c ↦ I c.world) (fun c i e hc ↦ ?_) h s
  cases hi : c.threads i with
  | done a => rwa [step_of_done hi]
  | call op next =>
    rw [step_world_of_call hi]
    exact hop op e c.world hc

theorem run_world_rel {R : W → W → Prop} (hrefl : ∀ w, R w w)
    (htrans : ∀ {u v w}, R u v → R v w → R u w)
    (hop : ∀ {β : Type} (op : F β) (e : E) w, R w (Interp.exec op e w).2)
    (c : Pool ι F W α) (s : List (ι × E)) : R c.world (c.run s).world :=
  run_world_invariant (I := R c.world) (fun op e w h ↦ htrans h (hop op e w)) (hrefl c.world) s

/-! ## The events of one thread -/

/-- The operations thread `k` issues along a schedule, in order. -/
def events (k : ι) : Pool ι F W α → List (ι × E) → List (Event F W)
  | _, [] => []
  | c, (i, e) :: s =>
    let rest := events k (c.step i e) s
    if i = k then
      match c.threads i with
      | .done _ => rest
      | .call op _ =>
        let r := Interp.exec op e c.world
        ⟨op, r.1, c.world, r.2⟩ :: rest
    else rest

theorem rel_of_mem_events {R : W → W → Prop} (hrefl : ∀ w, R w w)
    (htrans : ∀ {u v w}, R u v → R v w → R u w)
    (hop : ∀ {β : Type} (op : F β) (e : E) w, R w (Interp.exec op e w).2)
    {c : Pool ι F W α} {s : List (ι × E)} {event : Event F W} (h : event ∈ c.events k s) :
    R c.world event.before ∧ R event.after (c.run s).world := by
  induction s generalizing c with
  | nil => cases h
  | cons p s ih =>
    obtain ⟨i, e⟩ := p
    have hrest (hmem : event ∈ (c.step i e).events k s) :
        R c.world event.before ∧ R event.after ((c.step i e).run s).world := by
      obtain ⟨hbefore, hafter⟩ := ih hmem
      exact ⟨htrans (run_world_rel hrefl htrans hop c [(i, e)]) hbefore, hafter⟩
    rw [events] at h
    split_ifs at h with hik
    · cases hi : c.threads i with
      | done a =>
        rw [hi] at h
        exact hrest h
      | call op next =>
        rw [hi] at h
        obtain rfl | h := List.mem_cons.mp h
        · refine ⟨hrefl c.world, ?_⟩
          have hafter := run_world_rel hrefl htrans hop (c.step i e) s
          rwa [step_world_of_call hi] at hafter
        · exact hrest h
    · exact hrest h

/-- Along the schedule, whatever another thread does while `k` waits is allowed by `rely`. -/
def Undisturbed (rely : {β : Type} → F β → W → W → Prop) (k : ι) :
    Pool ι F W α → List (ι × E) → Prop :=
  Along fun c i e ↦ i ≠ k → ∀ {β : Type} (op : F β) next, c.threads k = .call op next →
    rely op c.world (c.step i e).world

theorem undisturbed_true (k : ι) (c : Pool ι F W α) (s : List (ι × E)) :
    c.Undisturbed (fun _ _ _ ↦ True) k s :=
  (along_true c s).imp fun _ _ _ _ _ _ _ _ _ ↦ trivial

end Pool

/-! ## One program among others -/

/-- Whatever the others do within `rely` between two operations of the program, its events and its
value end in `Q`. The state is the one after its last operation. -/
def Prog.Alongside [Interp F E W] (rely : {β : Type} → F β → W → W → Prop) :
    Prog F α → (List (Event F W) → α → Prop) → W → Prop
  | .done a, Q, _ => Q [] a
  | .call op next, Q, w => ∀ v (e : E), rely op w v →
    (next (Interp.exec op e v).1).Alongside rely
      (fun events a ↦ Q (⟨op, (Interp.exec op e v).1, v, (Interp.exec op e v).2⟩ :: events) a)
      (Interp.exec op e v).2

namespace Prog

variable [Interp F E W] {β γ : Type} {rely : {β : Type} → F β → W → W → Prop}
  {Q Q' : List (Event F W) → α → Prop} {w : W}

theorem Alongside.mono {p : Prog F α} (h : p.Alongside rely Q w)
    (hQ : ∀ events a, Q events a → Q' events a) : p.Alongside rely Q' w := by
  induction p generalizing Q Q' w with
  | done a => exact hQ [] a h
  | call op next ih => exact fun v e hv ↦ ih _ (h v e hv) fun events a ↦ hQ _ a

/-- The rule for a sequence; the second half may start in any state. -/
theorem alongside_bind {p : Prog F γ} {f : γ → Prog F α}
    (h : p.Alongside rely
      (fun events a ↦ ∀ v, (f a).Alongside rely (fun events' b ↦ Q (events ++ events') b) v) w) :
    (p >>= f).Alongside rely Q w := by
  induction p generalizing Q w with
  | done a => exact h w
  | call op next ih => exact fun v e hv ↦ ih _ (h v e hv)

theorem Within.alongside {P : {β : Type} → F β → Prop} {V : α → Prop} {R : W → W → Prop}
    {p : Prog F α} (h : p.Within P V)
    (hop : ∀ {β : Type} (op : F β), P op → ∀ (e : E) w, R w (Interp.exec op e w).2) :
    p.Alongside rely (fun events a ↦ V a ∧ ∀ e ∈ events, R e.before e.after) w := by
  induction p generalizing w with
  | done a => exact ⟨h, fun _ ↦ nofun⟩
  | call op next ih =>
    intro v e _
    refine (ih _ (h.2 _)).mono fun events a hevents ↦ ⟨hevents.1, ?_⟩
    exact List.forall_mem_cons.mpr ⟨hop op h.1 e v, hevents.2⟩

end Prog

namespace Pool

variable [DecidableEq ι] [Interp F E W]

/-- **The rule for one thread of a pool.** -/
theorem alongside_run {rely : {β : Type} → F β → W → W → Prop}
    (hrefl : ∀ {β : Type} (op : F β) w, rely op w w)
    (htrans : ∀ {β : Type} (op : F β) {u v w}, rely op u v → rely op v w → rely op u w)
    {k : ι} {c : Pool ι F W α} {Q : List (Event F W) → α → Prop}
    (h : (c.threads k).Alongside rely Q c.world) {s : List (ι × E)}
    (hs : c.Undisturbed rely k s) {a : α} (ha : (c.run s).threads k = .done a) :
    Q (c.events k s) a := by
  -- the state in which `Alongside` is known may lie before the present one by what `rely` allows
  suffices H : ∀ w, (∀ {β : Type} (op : F β) next, c.threads k = .call op next →
      rely op w c.world) → (c.threads k).Alongside rely Q w → Q (c.events k s) a from
    H c.world (fun op _ _ ↦ hrefl op c.world) h
  clear h
  induction s generalizing c Q with
  | nil =>
    intro w _ hw
    rw [run_nil] at ha
    rw [ha] at hw
    exact hw
  | cons p s ih =>
    obtain ⟨i, e⟩ := p
    intro w hrely hw
    rw [events]
    split_ifs with hik
    · -- a step of the thread itself: the present state is one that `rely` allows
      subst hik
      cases hi : c.threads i with
      | done a' =>
        rw [hi] at hw
        refine ih hs.2 ha w ?_ ?_
        · intro β op next h
          rw [step_of_done hi, hi] at h
          cases h
        · rwa [step_of_done hi, hi]
      | call op next =>
        rw [hi] at hw
        have hnext := hw c.world e (hrely op next hi)
        let r := Interp.exec op e c.world
        refine ih (Q := fun events a ↦ Q (⟨op, r.1, c.world, r.2⟩ :: events) a) hs.2 ha r.2
          (fun op' next' _ ↦ ?_) ?_
        · rw [step_world_of_call hi]
          exact hrefl op' _
        · rw [step_threads_of_call hi]
          exact hnext
    · -- a step of another thread: it is one more thing that `rely` allows
      have hki : k ≠ i := Ne.symm hik
      refine ih hs.2 ha w (fun op next h ↦ ?_) ?_
      · rw [step_threads_of_ne hki] at h
        exact htrans op (hrely op next h) (hs.1 hik op next h)
      · rwa [step_threads_of_ne hki]

end Pool

end Interaction
