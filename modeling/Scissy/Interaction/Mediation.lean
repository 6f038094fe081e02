import Scissy.Interaction.Pool

/-!
# What a program has done before it acts

A monitor judges every event of a program by the events of the program before it. `Prog.Obeys` says
that the monitor never objects, whatever happens between two operations: each operation may meet
any state that satisfies an invariant, and any choice. So a monitor can demand that a check was made
earlier, but not that what was checked still holds.

## The rules

- `obeys_bind` composes; `Within.obeys` is the rule for a program whose operations the monitor
  allows at any time.
- `Pool.allowed_of_events` carries the judgement over to every schedule, whether or not the program
  has returned at its end.
- `Pool.exists_event_of_not_rel` finds whom to blame: a change of the state along a schedule is made
  by an event of some thread.
- `Pool.exists_prefix_or_of_mem_events` puts the events of two threads in an order.

## Events and states

An event keeps the operation with its answer and the states around it, so a monitor can look at what
a program was told and at the state in which it was told so. Where an event stands in the schedule
is not recorded. It is found again when it is needed: an event meets the state after some part of
the schedule, and two events of different threads come one after the other.
-/

namespace Interaction

universe u

variable {F : Type → Type u} {E W α β γ ε ι : Type} [Interp F E W]

/-- An operation, executed in a state under a choice. -/
def Event.of (op : F β) (e : E) (w : W) : Event F W :=
  ⟨op, (Interp.exec op e w).1, w, (Interp.exec op e w).2⟩

/-- Whether an event is allowed after the ones before it. -/
abbrev Monitor (F : Type → Type u) (W : Type) : Type (max 1 u) :=
  List (Event F W) → Event F W → Prop

namespace Prog

/-- Whatever states within `I` its operations meet, each event of the program is allowed after the
ones before it, and the value it returns satisfies `Q`. -/
def Obeys (I : W → Prop) (m : Monitor F W) (Q : List (Event F W) → α → Prop) :
    Prog F α → List (Event F W) → Prop
  | done a, past => Q past a
  | call op next, past => ∀ (w : W) (e : E), I w →
    m past (.of op e w) ∧ (next (Interp.exec op e w).1).Obeys I m Q (past ++ [.of op e w])

variable {I : W → Prop} {m : Monitor F W} {Q Q' : List (Event F W) → α → Prop}
  {past : List (Event F W)}

@[simp] theorem obeys_done {a : α} : (done a : Prog F α).Obeys I m Q past ↔ Q past a := Iff.rfl

@[simp] theorem obeys_pure {a : α} : (pure a : Prog F α).Obeys I m Q past ↔ Q past a := Iff.rfl

theorem obeys_call {op : F β} {next : β → Prog F α} :
    (call op next).Obeys I m Q past ↔ ∀ w e, I w → m past (.of op e w) ∧
      (next (Interp.exec op e w).1).Obeys I m Q (past ++ [.of op e w]) := Iff.rfl

@[simp] theorem obeys_bind {p : Prog F γ} {f : γ → Prog F α} :
    (p >>= f).Obeys I m Q past ↔ p.Obeys I m (fun past' a ↦ (f a).Obeys I m Q past') past := by
  induction p generalizing past with
  | done a => rfl
  | call op next ih =>
    rw [call_bind, obeys_call, obeys_call]
    exact forall_congr' fun w ↦ forall_congr' fun e ↦ imp_congr_right fun _ ↦
      and_congr_right fun _ ↦ ih _

theorem obeys_map {p : Prog F γ} {f : γ → α} :
    (f <$> p).Obeys I m Q past ↔ p.Obeys I m (fun past' a ↦ Q past' (f a)) past := by
  rw [map_eq_pure_bind, obeys_bind]
  rfl

theorem Obeys.mono {p : Prog F α} (h : p.Obeys I m Q past)
    (hQ : ∀ past' a, past ⊆ past' → Q past' a → Q' past' a) : p.Obeys I m Q' past := by
  induction p generalizing past with
  | done a => exact hQ past a (List.Subset.refl past) h
  | call op next ih =>
    refine fun w e hw ↦ ⟨(h w e hw).1, ih _ (h w e hw).2 fun past' a hsub ↦ ?_⟩
    exact hQ past' a (List.Subset.trans (List.subset_append_left past _) hsub)

theorem Obeys.imp {m' : Monitor F W} {p : Prog F α} (h : p.Obeys I m Q past)
    (hm : ∀ past' event, past ⊆ past' → m past' event → m' past' event) :
    p.Obeys I m' Q past := by
  induction p generalizing past with
  | done a => exact h
  | call op next ih =>
    refine fun w e hw ↦ ⟨hm _ _ (List.Subset.refl past) (h w e hw).1, ih _ (h w e hw).2 ?_⟩
    exact fun past' event hsub ↦ hm past' event (List.Subset.trans
      (List.subset_append_left past _) hsub)

theorem Within.obeys {P : {β : Type} → F β → Prop} {V : α → Prop} {p : Prog F α}
    (h : p.Within P V) (hP : ∀ {β : Type} (op : F β), P op → ∀ past e w, m past (.of op e w))
    (past : List (Event F W)) : p.Obeys I m (fun past' a ↦ past ⊆ past' ∧ V a) past := by
  induction p generalizing past with
  | done a => exact ⟨List.Subset.refl past, h⟩
  | call op next ih =>
    refine fun w e _ ↦ ⟨hP op h.1 past e w, (ih _ (h.2 _) _).mono fun past' a _ ha ↦ ?_⟩
    exact ⟨List.Subset.trans (List.subset_append_left past _) ha.1, ha.2⟩

end Prog

namespace Pool

variable [DecidableEq ι] {c : Pool ι F W α} {k : ι} {s : List (ι × E)} {I : W → Prop}

/-! ## A thread that obeys a monitor -/

theorem events_cons_cases (c : Pool ι F W α) (k i : ι) (e : E) (s : List (ι × E)) :
    (∃ (β : Type) (op : F β) (next : β → Prog F α), i = k ∧ c.threads k = .call op next ∧
        c.events k ((i, e) :: s) = .of op e c.world :: (c.step i e).events k s) ∨
      (c.step i e).threads k = c.threads k ∧
        c.events k ((i, e) :: s) = (c.step i e).events k s := by
  rw [events]
  split_ifs with hik
  · subst hik
    cases hi : c.threads i with
    | done a =>
      refine Or.inr ⟨?_, rfl⟩
      rw [step_of_done hi, hi]
    | call op next => exact Or.inl ⟨_, op, next, rfl, rfl, rfl⟩
  · exact Or.inr ⟨step_threads_of_ne (Ne.symm hik), rfl⟩

theorem events_cons_of_call {op : F β} {next : β → Prog F α} {i : ι}
    (hi : c.threads i = .call op next) (e : E) (s : List (ι × E)) :
    c.events i ((i, e) :: s) = .of op e c.world :: (c.step i e).events i s := by
  rw [events, if_pos rfl, hi]
  rfl

theorem events_step_subset (c : Pool ι F W α) (k i : ι) (e : E) (s : List (ι × E)) :
    (c.step i e).events k s ⊆ c.events k ((i, e) :: s) := by
  rcases events_cons_cases c k i e s with ⟨β, op, next, -, -, hs⟩ | ⟨-, hs⟩
  · rw [hs]
    exact List.subset_cons_self _ _
  · exact hs ▸ List.Subset.refl _

theorem exists_eq_of {event : Event F W} (h : event ∈ c.events k s) :
    ∃ e, event = .of event.op e event.before := by
  induction s generalizing c with
  | nil => cases h
  | cons p s ih =>
    rcases events_cons_cases c k p.1 p.2 s with ⟨β, op, next, -, -, hs⟩ | ⟨-, hs⟩
    · rw [hs] at h
      rcases List.mem_cons.mp h with rfl | h
      · exact ⟨p.2, rfl⟩
      · exact ih h
    · exact ih (hs ▸ h)

variable {m : Monitor F W} {Q : List (Event F W) → α → Prop} {past : List (Event F W)}

/-- **Mediation.** In a pool, whatever the other threads are, every event of a thread that obeys a
monitor is allowed after its events before, and the thread goes on obeying. -/
theorem obeys_run (hI : ∀ {β : Type} (op : F β) (e : E) w, I w → I (Interp.exec op e w).2)
    (hc : I c.world) (h : (c.threads k).Obeys I m Q past) (s : List (ι × E)) :
    (∀ {before event after}, c.events k s = before ++ event :: after →
      m (past ++ before) event) ∧
      ((c.run s).threads k).Obeys I m Q (past ++ c.events k s) := by
  induction s generalizing c past with
  | nil => exact ⟨fun hs ↦ by simp [events] at hs, by rwa [events, List.append_nil]⟩
  | cons p s ih =>
    have hc' : I (c.step p.1 p.2).world := run_world_invariant hI hc [p]
    rw [run_cons]
    rcases events_cons_cases c k p.1 p.2 s with ⟨β, op, next, hik, hk, hs⟩ | ⟨hk, hs⟩
    · rw [hk] at h
      obtain ⟨hallowed, hnext⟩ := h c.world p.2 hc
      have hobeys : ((c.step p.1 p.2).threads k).Obeys I m Q (past ++ [.of op p.2 c.world]) := by
        rw [← hik] at hk ⊢
        rwa [step_threads_of_call hk]
      have hrest := ih hc' hobeys
      rw [List.append_assoc, List.singleton_append] at hrest
      rw [hs]
      refine ⟨fun {before event after} heq ↦ ?_, hrest.2⟩
      rcases List.cons_eq_append_iff.mp heq with ⟨rfl, hfirst⟩ | ⟨before, rfl, hlater⟩
      · rw [(List.cons.inj hfirst).1, List.append_nil]
        exact hallowed
      · have hlater := hrest.1 hlater
        rwa [List.append_assoc, List.singleton_append] at hlater
    · rw [hs]
      exact ih hc' (hk ▸ h)

theorem allowed_of_events
    (hI : ∀ {β : Type} (op : F β) (e : E) w, I w → I (Interp.exec op e w).2) (hc : I c.world)
    (h : (c.threads k).Obeys I m Q []) {before after : List (Event F W)} {event : Event F W}
    (hs : c.events k s = before ++ event :: after) : m before event :=
  (obeys_run hI hc h s).1 hs

/-- **The rule for a pool of threads that obey monitors.** An invariant is kept if every event that
a monitor allows keeps it, provided that it held whenever the thread acted before. `H` is what is
assumed of the events of the schedule. -/
theorem invariant_of_obeys {m : ι → Monitor F W} {Q : ι → List (Event F W) → α → Prop}
    {J : W → Prop} {H : ι → Event F W → Prop}
    (hI : ∀ {β : Type} (op : F β) (e : E) w, I w → I (Interp.exec op e w).2) (hc : I c.world)
    (hm : ∀ k, (c.threads k).Obeys I (m k) (Q k) []) (hJ : J c.world)
    (hH : ∀ k, ∀ event ∈ c.events k s, H k event)
    (hkeep : ∀ k past {β : Type} (op : F β) (e : E) w, I w → J w → m k past (.of op e w) →
      (∀ event ∈ past, H k event ∧ I event.before ∧ J event.before) → J (Interp.exec op e w).2) :
    J (c.run s).world := by
  suffices hrun : ∀ past : ι → List (Event F W),
      (∀ k, (c.threads k).Obeys I (m k) (Q k) (past k)) →
      (∀ k, ∀ event ∈ past k, H k event ∧ I event.before ∧ J event.before) →
      J (c.run s).world from hrun (fun _ ↦ []) hm fun _ _ ↦ by simp
  clear hm
  induction s generalizing c with
  | nil => exact fun _ _ _ ↦ hJ
  | cons p s ih =>
    obtain ⟨i, e⟩ := p
    intro past hm hpast
    have hrest (k : ι) (event) (h : event ∈ (c.step i e).events k s) : H k event :=
      hH k event (events_step_subset c k i e s h)
    cases hi : c.threads i with
    | done a =>
      rw [run_cons, step_of_done hi]
      rw [step_of_done hi] at hrest
      exact ih hc hJ hrest past hm hpast
    | call op next =>
      have hmi := hm i
      rw [hi] at hmi
      obtain ⟨hallowed, hnext⟩ := hmi c.world e hc
      have hevent : H i (.of op e c.world) := by
        refine hH i _ ?_
        rw [events_cons_of_call hi]
        exact List.mem_cons_self
      have hworld : (c.step i e).world = (Interp.exec op e c.world).2 := step_world_of_call hi
      rw [run_cons]
      refine ih (hworld ▸ hI op e c.world hc)
        (hworld ▸ hkeep i (past i) op e c.world hc hJ hallowed (hpast i)) hrest
        (Function.update past i (past i ++ [.of op e c.world])) (fun k ↦ ?_) fun k ↦ ?_
      · by_cases hk : k = i
        · subst hk
          rw [Function.update_self, step_threads_of_call hi]
          exact hnext
        · rw [Function.update_of_ne hk, step_threads_of_ne hk]
          exact hm k
      · by_cases hk : k = i
        · subst hk
          rw [Function.update_self]
          exact List.forall_mem_append.mpr
            ⟨hpast k, List.forall_mem_singleton.mpr ⟨hevent, hc, hJ⟩⟩
        · rw [Function.update_of_ne hk]
          exact hpast k

/-! ## Blame -/

theorem invariant_of_mem_events
    (hI : ∀ {β : Type} (op : F β) (e : E) w, I w → I (Interp.exec op e w).2) (hc : I c.world)
    {event : Event F W} (h : event ∈ c.events k s) : I event.before :=
  (rel_of_mem_events (R := fun v w ↦ I v → I w) (fun _ ↦ id) (fun h h' ↦ h' ∘ h) hI h).1 hc

theorem events_of_notMem {c : Pool ι F W α} {k : ι} (h : k ∉ s.map Prod.fst) :
    c.events k s = [] := by
  induction s generalizing c with
  | nil => rfl
  | cons p s ih =>
    rw [List.map_cons, List.mem_cons, not_or] at h
    rw [events, if_neg (Ne.symm h.1)]
    exact ih h.2

theorem events_append (c : Pool ι F W α) (k : ι) (s s' : List (ι × E)) :
    c.events k (s ++ s') = c.events k s ++ (c.run s).events k s' := by
  induction s generalizing c with
  | nil => rfl
  | cons p s ih =>
    rw [List.cons_append, events, events, ih, run_cons]
    split_ifs
    · cases c.threads p.1 <;> rfl
    · rfl

/-- **An event is a turn of the schedule**: it meets the state after the part before the turn, and
leaves the state after the part up to it. -/
theorem exists_turn_of_mem_events {event : Event F W} (h : event ∈ c.events k s) :
    ∃ s₁ e s₂, s = s₁ ++ (k, e) :: s₂ ∧ (c.run s₁).world = event.before ∧
      event ∈ c.events k (s₁ ++ [(k, e)]) ∧ (c.run (s₁ ++ [(k, e)])).world = event.after := by
  induction s generalizing c with
  | nil => cases h
  | cons p s ih =>
    obtain ⟨turn, e⟩ := p
    have hlater (hmem : event ∈ (c.step turn e).events k s) :
        ∃ s₁ e' s₂, (turn, e) :: s = s₁ ++ (k, e') :: s₂ ∧ (c.run s₁).world = event.before ∧
          event ∈ c.events k (s₁ ++ [(k, e')]) ∧
          (c.run (s₁ ++ [(k, e')])).world = event.after := by
      obtain ⟨s₁, e', s₂, rfl, hbefore, hin, hafter⟩ := ih hmem
      exact ⟨(turn, e) :: s₁, e', s₂, rfl, hbefore, events_step_subset c k turn e _ hin, hafter⟩
    rcases events_cons_cases c k turn e s with ⟨β, op, next, rfl, hcall, hs⟩ | ⟨-, hs⟩
    · rw [hs] at h
      rcases List.mem_cons.mp h with rfl | h
      · refine ⟨[], e, s, rfl, rfl, ?_, step_world_of_call hcall⟩
        rw [List.nil_append, events_cons_of_call hcall]
        exact List.mem_cons_self
      · exact hlater h
    · exact hlater (hs ▸ h)

theorem exists_prefix_of_mem_events {event : Event F W} (h : event ∈ c.events k s) :
    ∃ s₁ s₂, s = s₁ ++ s₂ ∧ (c.run s₁).world = event.before := by
  obtain ⟨s₁, e, s₂, hs, hbefore, -⟩ := exists_turn_of_mem_events h
  exact ⟨s₁, _, hs, hbefore⟩

theorem exists_prefix_after_of_mem_events {event : Event F W} (h : event ∈ c.events k s) :
    ∃ s₁ s₂, s = s₁ ++ s₂ ∧ event ∈ c.events k s₁ ∧ (c.run s₁).world = event.after := by
  obtain ⟨s₁, e, s₂, hs, -, hin, hafter⟩ := exists_turn_of_mem_events h
  exact ⟨s₁ ++ [(k, e)], s₂, by rw [hs, List.append_assoc, List.singleton_append], hin, hafter⟩

/-- **The events of two threads come one after the other**: the one is in a part of the schedule
after which the other one is next. -/
theorem exists_prefix_or_of_mem_events {i j : ι} (hne : i ≠ j) {event event' : Event F W}
    (h : event ∈ c.events i s) (h' : event' ∈ c.events j s) :
    ∃ s₁ s₂, s = s₁ ++ s₂ ∧
      (event ∈ c.events i s₁ ∧ (c.run s₁).world = event'.before ∨
        event' ∈ c.events j s₁ ∧ (c.run s₁).world = event.before) := by
  induction s generalizing c with
  | nil => cases h
  | cons p s ih =>
    obtain ⟨turn, e⟩ := p
    -- both come after the first turn
    have hlater (hi : event ∈ (c.step turn e).events i s)
        (hj : event' ∈ (c.step turn e).events j s) :
        ∃ s₁ s₂, (turn, e) :: s = s₁ ++ s₂ ∧
          (event ∈ c.events i s₁ ∧ (c.run s₁).world = event'.before ∨
            event' ∈ c.events j s₁ ∧ (c.run s₁).world = event.before) := by
      obtain ⟨s₁, s₂, rfl, hcases⟩ := ih hi hj
      refine ⟨(turn, e) :: s₁, s₂, rfl, hcases.imp ?_ ?_⟩
      · exact And.imp_left (events_step_subset c i turn e s₁ ·)
      · exact And.imp_left (events_step_subset c j turn e s₁ ·)
    rcases events_cons_cases c i turn e s with ⟨β, op, next, hi, hcall, hs⟩ | ⟨-, hs⟩ <;>
      rcases events_cons_cases c j turn e s with ⟨β', op', next', hj, hcall', hs'⟩ | ⟨-, hs'⟩
    · exact absurd (hi.symm.trans hj) hne
    · rw [hs] at h
      rw [hs'] at h'
      rcases List.mem_cons.mp h with rfl | h
      · obtain ⟨s₁, s₂, rfl, hbefore⟩ := exists_prefix_of_mem_events h'
        refine ⟨(turn, e) :: s₁, s₂, rfl, Or.inl ⟨?_, hbefore⟩⟩
        rw [hi, events_cons_of_call hcall]
        exact List.mem_cons_self
      · exact hlater h h'
    · rw [hs] at h
      rw [hs'] at h'
      rcases List.mem_cons.mp h' with rfl | h'
      · obtain ⟨s₁, s₂, rfl, hbefore⟩ := exists_prefix_of_mem_events h
        refine ⟨(turn, e) :: s₁, s₂, rfl, Or.inr ⟨?_, hbefore⟩⟩
        rw [hj, events_cons_of_call hcall']
        exact List.mem_cons_self
      · exact hlater h h'
    · exact hlater (hs ▸ h) (hs' ▸ h')

theorem rel_or_rel_of_mem_events {R : W → W → Prop} (hrefl : ∀ w, R w w)
    (htrans : ∀ {u v w}, R u v → R v w → R u w)
    (hop : ∀ {β : Type} (op : F β) (e : E) w, R w (Interp.exec op e w).2) {i j : ι} (hne : i ≠ j)
    {event event' : Event F W} (h : event ∈ c.events i s) (h' : event' ∈ c.events j s) :
    R event.after event'.before ∨ R event'.after event.before := by
  obtain ⟨s₁, s₂, -, ⟨hmem, hnext⟩ | ⟨hmem, hnext⟩⟩ := exists_prefix_or_of_mem_events hne h h'
  · exact Or.inl (hnext ▸ (rel_of_mem_events hrefl htrans hop hmem).2)
  · exact Or.inr (hnext ▸ (rel_of_mem_events hrefl htrans hop hmem).2)

theorem exists_events_cons_eq {i : ι} {e : E} {before after : List (Event F W)}
    {event : Event F W} (h : (c.step i e).events k s = before ++ event :: after) :
    ∃ before', c.events k ((i, e) :: s) = before' ++ event :: after := by
  rcases events_cons_cases c k i e s with ⟨β, op, next, -, -, hs⟩ | ⟨-, hs⟩
  · exact ⟨.of op e c.world :: before, by rw [hs, h, List.cons_append]⟩
  · exact ⟨before, hs.trans h⟩

/-- **Blame.** Whatever is different after a schedule, one of the threads has changed it. -/
theorem exists_event_of_not_rel {R : W → W → Prop} (hrefl : ∀ w, R w w)
    (htrans : ∀ {u v w}, R u v → R v w → R u w) (h : ¬ R c.world (c.run s).world) :
    ∃ (k : ι) (before : List (Event F W)) (β : Type) (op : F β) (e : E) (w : W)
      (after : List (Event F W)), c.events k s = before ++ .of op e w :: after ∧
        ¬ R w (Interp.exec op e w).2 := by
  induction s generalizing c with
  | nil => exact absurd (hrefl c.world) h
  | cons p s ih =>
    by_cases hrest : R (c.step p.1 p.2).world ((c.step p.1 p.2).run s).world
    · -- the first turn is to blame
      have hfirst : ¬ R c.world (c.step p.1 p.2).world := fun hfirst ↦ h (htrans hfirst hrest)
      cases hi : c.threads p.1 with
      | done a =>
        rw [step_of_done hi] at hfirst
        exact absurd (hrefl c.world) hfirst
      | call op next =>
        rw [step_world_of_call hi] at hfirst
        exact ⟨p.1, [], _, op, p.2, c.world, _, events_cons_of_call hi p.2 s, hfirst⟩
    · obtain ⟨k, before, β, op, e, w, after, hs, hevent⟩ := ih hrest
      obtain ⟨before', hs'⟩ := exists_events_cons_eq hs
      exact ⟨k, before', β, op, e, w, after, hs', hevent⟩

end Pool

end Interaction
