import Scissy.Concurrency.GroupCreate

/-!
# Two membership calls at the same time

Each call asks whether the caller may do what it is asked to, and writes afterwards, and nothing
keeps the other call from writing in between. `MembershipCall.serializable` says when that makes a
difference: the memberships are those of one of the two serial runs unless a step is a `Conflict`.

* `MembershipRace.LosesRight`: the step takes the other caller's right away, whose statement comes
  all the same and adds the removed membership again, or takes away the right of this call.
* `RollsBack`: a creation deletes its group again, which the other call has already seen.

Two owners who remove each other are a conflict (`MembershipCall.not_serializable`).

## The shape of the proof

The proof is by the kind of the calls: two tasks, a task and a creation, two creations. Up to the
first statement with an effect nothing happens (`Race.Leads.first_end`, `Race.Leads.first_step`),
and what each call has read by then is what the other one's statement either keeps or changes. So
each case comes down to the two calls right before this statement. There one of them has its
change left, the other one has evidence for what its own change will be, and `Task.overtaken` or
a commutation of changes says which serial run has the same result.

## What a conflict is

A conflict is a condition on a step and on what the two calls are about to do. It does not
mention serial runs. It asks for more than that a right is lost between check and write: this alone
is harmless, for then the order in which the other call comes first has the same result. It takes a
second change that undoes the first one, or strikes back at its caller.
-/

open Authority Relational Interaction Interaction.Prog

namespace Scissy

/-! ## What can go wrong -/

/-- The membership calls of two callers. -/
abbrev MembershipRace := Race Op Env World Reply

namespace MembershipRace

variable {sessions : Bool → Session} {c : MembershipRace} {i : Bool} {w : World}

/-- The step takes away the right with which the other call is about to issue its statement. -/
def Revokes (sessions : Bool → Session) (c : MembershipRace) (i : Bool) : Prop :=
  ∃ s gate, nextWrite (c.threads !i) = some s ∧ s.gate = some gate ∧
    gate.Admits (sessions !i) c.world.db ∧ ¬ gate.Admits (sessions !i) (c.step i).world.db

/-- The step removes a membership, and with it the right with which the other call is about to add
the membership again, or to remove another one and with it the right of this call. -/
def LosesRight (sessions : Bool → Session) (c : MembershipRace) (i : Bool) : Prop :=
  ∃ s s' k b, nextWrite (c.threads i) = some s ∧ nextWrite (c.threads !i) = some s' ∧
    s.change = some (.remove k) ∧ s'.change = some b ∧ Revokes sessions c i ∧
    ((∃ l, b = .add l ∧ l.key = k) ∨ ∃ k', b = .remove k' ∧ k ≠ k' ∧ Revokes sessions c !i)

theorem step_valid (h : c.world.db.Valid) : (c.step i).world.db.Valid := by
  cases hcall : c.threads i with
  | done a => rwa [Race.step_of_done hcall]
  | call op next =>
    rw [Race.step_world hcall]
    exact exec_valid op _ _ h

/-- **Two tasks.** -/
theorem tasks_serial {t : Bool → Task} {e : Bool → Env}
    (ht : ∀ i, (t i).script.Describes (e i) (c.threads i) (c.env i)) (h : c.world.db.Valid)
    {ok : MembershipRace → Bool → Prop}
    (hok : ∀ c i, ok c i → ¬ LosesRight (fun i ↦ (t i).session) c i) (hleads : Race.Leads ok c w) :
    ∃ i, w.db.graph = (c.serial i).db.graph := by
  by_cases hrun : ∀ i, (c.threads i).Running
  swap
  · obtain ⟨i, hi⟩ := not_forall.mp hrun
    exact ⟨i, by rw [← hleads.serial_of_ended hi]⟩
  obtain ⟨c', i, hcalm, hrun', hend, hoki, hleads⟩ :=
    hleads.first_end (fun i ↦ (ht i).oneChange (t i).reads_script) hrun
  have hat (j : Bool) : (t j).script.At (e j) c.world (c'.threads j) (c'.env j) :=
    (Script.at_of_describes (ht j)).quietly (hcalm.quietly j)
  -- the first call is over, and the other one runs by itself
  have hlast := Race.step_world_of_ended (hrun' i) hend
  have hw : w = ((c'.threads !i).run (c'.env !i) (c'.step i).world).2 := by
    rw [hleads.serial_of_last (hrun' i) hend, Race.serial, hlast]
  have hserial : c.serial i = ((c.threads !i).run (c.env !i) (c'.step i).world).2 := by
    rw [Race.serial, hlast, hcalm.run_eq]
  obtain ⟨γ, op, next, hcall⟩ : ∃ (γ : Type) (op : Op γ) (next : γ → Server Reply),
      c'.threads i = .call op next := by
    cases hcall : c'.threads i with
    | done a => exact absurd (hcall ▸ hrun' i) (not_running_done a)
    | call op next => exact ⟨_, op, next, rfl⟩
  have hpending := hat i
  rw [hcall] at hpending
  rcases hpending.pending (t i).reads_script with hread | ⟨op', hop, hact⟩
  · -- nothing has changed
    have hsame : (c'.step i).world = c.world := by
      rw [Race.step_world hcall, hread, hcalm.world]
    refine ⟨i, ?_⟩
    rw [hw, hserial, hsame, (hcalm.quietly !i).run_eq]
  obtain ⟨a, b, hres, hadmits, rfl⟩ := (Task.leads_iff h).mp hop
  rw [← hcall] at hact
  have hworld : (c'.step i).world = (c.world.write (e i) ((t i).write a b)).2 := by
    rw [Script.step_world hact, hcalm.world, exec_write]
  have h₁ : (c'.step i).world.db.Valid := hworld ▸ World.write_valid _ _ h
  have hsub : (c'.step i).world.db.SubGroups c.world.db :=
    hworld ▸ World.write_subGroups ((t i).change_eq a b) _ _
  rcases Task.finish h h₁ hsub (hat !i) (ht !i) with
    hsame | ⟨a', b', ⟨hres', hadmits', hact'⟩, hlost⟩
  · exact ⟨i, by rw [hw, hserial, hsame]⟩
  rw [hworld] at hlost
  rw [hworld, Script.run_act hact', exec_write] at hw
  rw [hworld] at hserial
  rcases Task.overtaken h (ht i) (ht !i) hres hadmits hres' hadmits' hlost with
    hsame | hsame | ⟨k, hk, hanomaly⟩
  · exact ⟨i, by rw [hw, hserial, hsame]⟩
  · refine ⟨!i, ?_⟩
    rw [hw, hsame, Race.serial, Bool.not_not, (hcalm.quietly !i).run_eq, Script.run_act hact',
      exec_write]
  · refine absurd ?_ (hok c' i hoki)
    refine ⟨_, _, k, _, nextWrite_of_act hact, nextWrite_of_act hact', ?_, (t !i).change_eq a' b',
      ⟨_, _, nextWrite_of_act hact', (t !i).gate_eq a' b', ?_, ?_⟩, hanomaly.imp_right ?_⟩
    · rw [(t i).change_eq, hk]
    · rw [hcalm.world]
      exact hadmits'
    · rw [hworld]
      exact hlost
    · rintro ⟨k', hk', hkk', hclosed⟩
      refine ⟨k', hk', hkk', _, _, ?_, (t i).gate_eq a b, ?_, ?_⟩
      · rw [Bool.not_not]
        exact nextWrite_of_act hact
      · rw [Bool.not_not, hcalm.world]
        exact hadmits
      · rw [Bool.not_not, Script.step_world hact', hcalm.world]
        exact hclosed

/-! ## A task and a creation -/

section Creation

variable {ok : MembershipRace → Bool → Prop} {x : Creation} {t : Task} {e e₁ e₂ : Env}

theorem exists_rollback {v : World} {n : ℤ} (hv : v.db.Valid) (h : c.world.db.Valid)
    (hsub : c.world.db.SubGroups v.db) (hn : x.lookup.Finds v.db n)
    (hid : n ∈ c.world.db.groups.ids)
    (hno : (c.world.write e₁ (.insertGroupUser n x.userId Pb.Role.kOwner.toInt)).1 ≠ .done)
    (hp : x.RestAt e₁ e₂ v n (c.threads i) (c.env i)) (hi : ¬ (c.threads !i).Running)
    (hleads : Race.Leads ok c w) :
    ∃ c', nextWrite (c'.threads i) = some (.deleteGroup n) ∧ c'.threads (!i) = c.threads (!i) ∧
      c'.world = c.world ∧ ok c' i := by
  obtain ⟨q, env', hq, hact⟩ := hp.quietly_rollback hv h hsub hn hid hno
  have hrun : q.Running := by
    obtain ⟨-, next, rfl, -⟩ := hact
    exact running_call _ next
  obtain ⟨c', hthread, hother, hworld, hok⟩ := hleads.reaches hq rfl rfl hi hrun
  exact ⟨c', by rw [hthread, nextWrite_of_act hact], hother, hworld, hok⟩

/-- **After the insert of the group.** -/
theorem inserted_serial {u : World} {p₀ : Server Reply} {env₀ : ℕ → Env} (hu : u.db.Valid)
    (h : c.world.db.Valid) (hv : x.Inserted u c.world)
    (hat : t.script.At e c.world (c.threads i) (c.env i)) (hrun : (c.threads i).Running)
    (hone : (c.threads i).OneChange) (hp : t.script.Describes e p₀ env₀)
    (hrest : x.RestAt e₁ e₂ c.world (u.db.groups.seq + 1) (c.threads !i) (c.env !i))
    (hok : ∀ c : MembershipRace, ok c (!i) → ∀ n, nextWrite (c.threads !i) = some (.deleteGroup n) →
      x.Free c.world.db n) (hleads : Race.Leads ok c w) :
    let v₁ := ((c.threads !i).run (c.env !i) c.world).2
    w.db.graph = (p₀.run env₀ v₁).2.db.graph ∨
      w.db.graph = v₁.db.graph ∧ Creation.Agrees u (p₀.run env₀ u).2 := by
  intro v₁
  have hfinds := hv.finds h
  have hid := AutoTable.mem_ids_of_mem hv.mem_rows
  have hv₁ : x.Settles e₁ e₂ (u.db.groups.seq + 1) c.world v₁ :=
    hrest.settles h h (World.Keeps.refl _).sub hfinds (hv.free hu)
  have h₁ : v₁.db.Valid := run_valid _ _ h
  obtain ⟨c', j, hcalm, hrun', hend, hokj, hleads⟩ := hleads.first_end
    ((Bool.forall_bool' i).mpr ⟨hone, hrest.oneChange⟩)
    ((Bool.forall_bool' i).mpr ⟨hrun, hrest.running⟩)
  have hat' : t.script.At e c.world (c'.threads i) (c'.env i) := hat.quietly (hcalm.quietly i)
  have hrest' := hrest.quietly hfinds hid (hv.free hu) (hcalm.quietly !i)
  have hw := hleads.serial_of_last (hrun' j) hend
  by_cases hj : j = i
  · subst hj
    have hne : (!j) ≠ j := Bool.eq_not.mp rfl
    rw [Race.serial, hcalm.world] at hw
    rcases Task.run_spec h hat' with ⟨a, b, hres, hadmits, hv₂⟩ | ⟨hnone, hv₂⟩
    · have hsub := World.write_subGroups (t.change_eq a b) e c.world
      have h₂ : (c.world.write e (t.write a b)).2.db.Valid := World.write_valid _ _ h
      have hfree : x.Free (c.world.write e (t.write a b)).2.db (u.db.groups.seq + 1) := by
        by_contra hmember
        have hworld : (c'.step j).world = (c.world.write e (t.write a b)).2 := by
          rw [Race.step_world_of_ended (hrun' j) hend, hcalm.world, hv₂]
        rw [← hworld] at h₂ hsub hmember
        rw [← Race.step_threads_of_ne hne, ← Race.step_env_of_ne hne] at hrest'
        obtain ⟨c'', hnext, -, hworld', hok'⟩ := exists_rollback h h₂ hsub hfinds
          (not_not.mp (mt (Creation.free_of_notMem h₂) hmember))
          (fun hdone ↦ hmember (insertGroupUser_done_iff.mp hdone).2.2.2) hrest'
          (by rwa [Bool.not_not]) hleads
        exact hmember (hworld' ▸ hok c'' hok' _ hnext)
      have hsettles := hrest'.settles h h₂ hsub hfinds hfree
      rw [← hv₂, ← hw, hv₂] at hsettles
      exact Creation.task_between hu h hv hp hres hadmits hv₁ h₁ hfree hsettles
    · -- the task does nothing before the call either
      refine Or.inr ⟨?_, ?_⟩
      · rw [hw, hv₂, ← (hcalm.quietly !j).run_eq]
      · rcases Task.run_spec hu (Script.at_of_describes hp) with ⟨a, b, hres, hadmits, -⟩ | ⟨-, hu'⟩
        · refine absurd (hadmits.mono hu h ?_) (hnone a b (hres.mono hv.sub hu h))
          rw [hv.graph]
          exact fun l hl ↦ hl
        · rw [hu']
          exact ⟨rfl, rfl, rfl, rfl⟩
  · obtain rfl := Bool.eq_not_of_ne hj
    rw [Race.serial, Bool.not_not, hcalm.run_eq] at hw
    rw [hw]
    refine (Task.finish h h₁ hv₁.keeps.sub hat' hp).imp_right ?_
    rintro ⟨a, b, ⟨-, hadmits, -⟩, hlost⟩
    exact absurd (hadmits.mono h h₁ (hv₁.links_subset hu hv)) hlost

theorem inserted_step (hx : x.Creates (c.threads i) (c.env i))
    (hrc : (c.world.write (c.env i 0) (.insertGroup x.name x.desc)).1 = .done) :
    x.Inserted c.world (c.step i).world ∧
      x.RestAt (c.env i 3) (c.env i 4) (c.step i).world (c.world.db.groups.seq + 1)
        ((c.step i).threads i) ((c.step i).env i) ∧
      ((c.step i).threads i).run ((c.step i).env i) (c.step i).world =
        (c.threads i).run (c.env i) c.world := by
  obtain ⟨next, hcall, -, -, hrest⟩ := hx
  have hworld := Race.step_world hcall
  have hthread := Race.step_threads_self hcall
  rw [exec_write] at hworld hthread
  rw [hthread, Race.step_env_self hcall, hworld, hrc]
  refine ⟨Creation.inserted hrc, Or.inl hrest, ?_⟩
  rw [hcall, run_call, exec_write, hrc]

theorem refused_step (hx : x.Creates (c.threads i) (c.env i))
    (hrc : (c.world.write (c.env i 0) (.insertGroup x.name x.desc)).1 ≠ .done) :
    (c.step i).world = c.world ∧ ¬ ((c.step i).threads i).Running ∧
      ((c.world.write (c.env i 0) (.insertGroup x.name x.desc)).1 = .constraint →
        (c.step i).threads i = .done nameUsed) := by
  obtain ⟨next, hcall, hused, hno, -⟩ := hx
  rw [Race.step_world hcall, Race.step_threads_self hcall, exec_write]
  refine ⟨World.write_of_ne_done hrc, hno _ hrc, fun hconstraint ↦ ?_⟩
  rw [hconstraint, hused]

/-- **A task and a creation.** -/
theorem task_creation_serial (ht : t.script.Describes e (c.threads i) (c.env i))
    (hx : x.Creates (c.threads !i) (c.env !i)) (h : c.world.db.Valid)
    (hok : ∀ c : MembershipRace, ok c (!i) → ∀ n, nextWrite (c.threads !i) = some (.deleteGroup n) →
      x.Free c.world.db n) (hleads : Race.Leads ok c w) :
    ∃ j, w.db.graph = (c.serial j).db.graph := by
  by_cases hrun : (c.threads i).Running
  swap
  · exact ⟨i, by rw [← hleads.serial_of_ended hrun]⟩
  obtain ⟨c', j, hcalm, hthread, henv, hrun', hone, hj, -, hleads⟩ :=
    hleads.first_step (ht.oneChange t.reads_script)
      ((Bool.forall_bool' i).mpr ⟨hrun, hx.running⟩)
  have hat : t.script.At e c.world (c'.threads i) (c'.env i) :=
    (Script.at_of_describes ht).quietly (hcalm.quietly i)
  rcases hj with rfl | ⟨rfl, hend⟩
  swap
  · refine ⟨j, ?_⟩
    rw [hleads.serial_of_last hrun' hend, Race.serial, hcalm.run_eq, hthread, henv, Race.serial]
  have hne : i ≠ !i := (Bool.eq_not.mp rfl).symm
  have hx' : x.Creates (c'.threads !i) (c'.env !i) := by
    rw [hthread, henv]
    exact hx
  by_cases hrc : (c'.world.write (c'.env (!i) 0) (.insertGroup x.name x.desc)).1 = .done
  · obtain ⟨hv, hrest, hrun₁⟩ := inserted_step hx' hrc
    rw [hcalm.world, hthread, henv] at hrun₁
    rw [hcalm.world] at hv hrest
    have h₁ : (c'.step !i).world.db.Valid := step_valid (hcalm.world ▸ h)
    have hat' : t.script.At e (c'.step !i).world ((c'.step !i).threads i) ((c'.step !i).env i) := by
      rw [Race.step_threads_of_ne hne, Race.step_env_of_ne hne]
      refine Task.at_mono hat hv.sub h h₁ ?_
      rw [hv.graph]
      exact fun l hl ↦ hl
    rcases inserted_serial h h₁ hv hat' (by rwa [Race.step_threads_of_ne hne])
      (by rwa [Race.step_threads_of_ne hne]) ht hrest hok hleads with hw | ⟨hw, hagrees⟩
    · refine ⟨!i, ?_⟩
      rw [hw, hrun₁, Race.serial, Bool.not_not]
    · refine ⟨i, ?_⟩
      have h' : ((c.threads i).run (c.env i) c.world).2.db.Valid := run_valid _ _ h
      rw [hw, hrun₁, Race.serial, hx.graph_run_congr h h' hagrees]
  · obtain ⟨-, hend, -⟩ := refused_step hx' hrc
    rw [hcalm.world, henv] at hrc
    have hstay := ((hx.run_spec h).resolve_right fun hyes ↦ hrc hyes.1).2
    have hlast := hleads.serial_of_last (hthread ▸ hx.running) hend
    rw [Race.serial, hcalm.run_eq, hstay, Bool.not_not, ← (hcalm.quietly i).run_eq] at hlast
    refine ⟨!i, ?_⟩
    rw [hlast, Race.serial, hstay, Bool.not_not]

end Creation

/-! ## Two creations -/

section Creations

variable {ok : MembershipRace → Bool → Prop}

theorem rests_serial {x y : Creation} {n m : ℤ} {e e' f f' : Env} (h : c.world.db.Valid)
    (hnm : n ≠ m) (hn : x.Fresh c.world.db n) (hm : y.Fresh c.world.db m)
    (hp : x.RestAt e e' c.world n (c.threads i) (c.env i))
    (hq : y.RestAt f f' c.world m (c.threads !i) (c.env !i)) (hleads : Race.Leads ok c w) :
    w.db.graph = Creation.settle c.world.db.schema
      (Creation.settle c.world.db.schema c.world.db.graph (x.effect e e' c.world.db n))
      (y.effect f f' c.world.db m) := by
  obtain ⟨c', j, hcalm, hrun, hend, -, hleads⟩ := hleads.first_end
    ((Bool.forall_bool' i).mpr ⟨hp.oneChange, hq.oneChange⟩)
    ((Bool.forall_bool' i).mpr ⟨hp.running, hq.running⟩)
  have hp' := hp.quietly hn.finds hn.mem_ids hn.free (hcalm.quietly i)
  have hq' := hq.quietly hm.finds hm.mem_ids hm.free (hcalm.quietly !i)
  rw [hleads.serial_of_last (hrun j) hend, Race.serial, hcalm.world]
  by_cases hj : j = i
  · subst hj
    exact hp'.graph_run_run h hnm hn hm hq'
  · obtain rfl := Bool.eq_not_of_ne hj
    rw [Bool.not_not, hq'.graph_run_run h hnm.symm hm hn hp']
    exact Creation.settle_settle_comm hnm

/-- **The second group is refused** because of the first one. If the first one is then taken away
again, the race comes to its rollback. -/
theorem refused_serial {u v : World} {x y : Creation} {e e' : Env} {q : Server Reply}
    {env : ℕ → Env} (h : c.world.db.Valid) (hu : u.db.Valid) (hv : x.Inserted u c.world)
    (hp : x.RestAt e e' c.world (u.db.groups.seq + 1) (c.threads i) (c.env i))
    (hsettles : x.Settles e e' (u.db.groups.seq + 1) c.world v) (hvalid : v.db.Valid)
    (hq : y.Creates q env)
    (hrefused : (c.world.write (env 0) (.insertGroup y.name y.desc)).1 ≠ .done)
    (hi : ¬ (c.threads !i).Running)
    (hthread : (c.world.write (env 0) (.insertGroup y.name y.desc)).1 = .constraint →
      c.threads (!i) = .done nameUsed)
    (hok : ∀ c : MembershipRace, ok c i → ∀ n, nextWrite (c.threads i) = some (.deleteGroup n) →
      y.name = x.name → c.threads (!i) ≠ .done nameUsed)
    (hleads : Race.Leads ok c w) : (q.run env v).2 = v := by
  rcases hq.run_spec hvalid with ⟨-, hstay⟩ | ⟨hdone, -⟩
  · exact hstay
  obtain ⟨hfault, hname, hbound⟩ := insertGroup_done_iff.mp hdone
  rw [hsettles.keeps.seq] at hbound
  have hmem : y.name ∈ c.world.db.groups.rows.map (·.2.name) := by
    by_contra hmem
    exact hrefused (insertGroup_done_iff.mpr ⟨hfault, hmem, hbound⟩)
  obtain ⟨heq, hboth⟩ := hsettles.name_eq hv hmem hname
  have hno : (c.world.write e
      (.insertGroupUser (u.db.groups.seq + 1) x.userId Pb.Role.kOwner.toInt)).1 ≠ .done := by
    intro hdone
    obtain ⟨hfault', -, huser, -⟩ := insertGroupUser_done_iff.mp hdone
    exact hboth ⟨hfault', huser⟩
  have hfresh := hv.fresh hu h
  obtain ⟨c', hnext, hother, -, hok'⟩ := exists_rollback h h (World.Keeps.refl _).sub hfresh.finds
    hfresh.mem_ids hno hp hi hleads
  have hused := hother.trans (hthread (insertGroup_used hfault hmem hbound))
  exact absurd hused (hok c' hok' _ hnext heq)

/-- **Two creations.** -/
theorem creations_serial {x : Bool → Creation} (hx : ∀ i, (x i).Creates (c.threads i) (c.env i))
    (h : c.world.db.Valid)
    (hok : ∀ (c : MembershipRace) i, ok c i → ∀ n, nextWrite (c.threads i) = some (.deleteGroup n) →
      (x !i).name = (x i).name → c.threads (!i) ≠ .done nameUsed)
    (hleads : Race.Leads ok c w) : ∃ i, w.db.graph = (c.serial i).db.graph := by
  cases hleads with
  | finished _ hfin => exact absurd (hx true).running (hfin true)
  | step _ i _ hrun _ hleads =>
    have hne : (!i) ≠ i := Bool.eq_not.mp rfl
    refine ⟨i, ?_⟩
    by_cases hrc : (c.world.write (c.env i 0) (.insertGroup (x i).name (x i).desc)).1 = .done
    swap
    · -- the first group is refused
      rw [hleads.serial_of_last hrun (refused_step (hx i) hrc).2.1]
    obtain ⟨hv, hrest₁, hserial⟩ := inserted_step (hx i) hrc
    have h₁ : (c.step i).world.db.Valid := step_valid h
    have hfresh := hv.fresh h h₁
    have hrunning : ((c.step i).threads !i).Running := by
      rw [Race.step_threads_of_ne hne]
      exact (hx !i).running
    obtain ⟨c', j, hcalm, hthread, henv, hrun', -, hj, -, hleads₂⟩ :=
      hleads.first_step hrest₁.oneChange
        ((Bool.forall_bool' i).mpr ⟨hrest₁.running, hrunning⟩)
    have hrest₂ := hrest₁.quietly hfresh.finds hfresh.mem_ids hfresh.free (hcalm.quietly i)
    rw [Race.step_threads_of_ne hne] at hthread
    rw [Race.step_env_of_ne hne] at henv
    rcases hj with rfl | ⟨rfl, hend⟩
    swap
    · -- the first call is over before the second one does anything
      rw [hleads₂.serial_of_last hrun' hend, Race.serial, hcalm.run_eq, hserial, hthread, henv,
        Race.serial]
    have hx' : (x !i).Creates (c'.threads !i) (c'.env !i) := by
      rw [hthread, henv]
      exact hx !i
    rw [← Race.step_threads_of_ne hne.symm, ← Race.step_env_of_ne (c := c') hne.symm] at hrest₂
    obtain ⟨-, hsettles⟩ := ((hx i).run_spec h).resolve_left fun hno ↦ hno.1 hrc
    have hworld : (c.world.write (c.env i 0) (.insertGroup (x i).name (x i).desc)).2 =
        (c.step i).world := by
      obtain ⟨next, hcall, -⟩ := hx i
      rw [Race.step_world hcall, exec_write]
    rw [hworld] at hsettles
    have hrun₁ : ((c.threads i).run (c.env i) c.world).2.db.Valid := run_valid _ _ h
    by_cases hrc' : (c'.world.write (c'.env (!i) 0) (.insertGroup (x !i).name (x !i).desc)).1
      = .done
    · obtain ⟨hv₂, hrest₄, -⟩ := inserted_step hx' hrc'
      rw [hcalm.world] at hv₂ hrest₄
      have h₂ : (c'.step !i).world.db.Valid := step_valid (hcalm.world ▸ h₁)
      have hnm : c.world.db.groups.seq + 1 ≠ (c.step i).world.db.groups.seq + 1 :=
        fun heq ↦ AutoTable.seq_succ_notMem_ids (heq ▸ hfresh.mem_ids)
      have hrest₃ := hrest₂.of_users hv₂.sub.users
      rw [hcalm.world, henv] at hrc'
      rw [rests_serial h₂ hnm (hfresh.of_inserted h₁ h₂ hv₂) (hv₂.fresh h₁ h₂) hrest₃ hrest₄
        hleads₂, Race.serial, henv]
      exact (Creation.graph_run_second hrun₁ hfresh.mem_ids hsettles (hx !i) hrc' hv₂).symm
    · obtain ⟨hsame, hend, hused⟩ := refused_step hx' hrc'
      rw [hcalm.world] at hsame
      rw [hcalm.world, henv] at hrc' hused
      have hw : w = ((c.threads i).run (c.env i) c.world).2 := by
        rw [hleads₂.alone hend, Bool.not_not, Race.step_threads_of_ne hne.symm,
          Race.step_env_of_ne (c := c') hne.symm, hsame, ← (hcalm.quietly i).run_eq, hserial]
      rw [← hsame] at hv h₁ hrest₂ hsettles hrc' hused
      rw [hw, Race.serial]
      exact (refused_serial h₁ h hv hrest₂ hsettles hrun₁ (hx !i) hrc' hend hused
        (fun c hc ↦ hok c i hc) hleads₂).symm ▸ rfl

end Creations

end MembershipRace

/-! ## Any two calls -/

/-- The calls that change groups and the members of groups and repositories. -/
def Rpc.IsMembership : Rpc → Prop
  | groupCreate _ | groupDelete _ | groupAddUser _ | groupRemoveUser _ | repoAddUser _
  | repoRemoveUser _ | repoAddGroup _ | repoRemoveGroup _ => True
  | _ => False

/-- Such a call, who makes it, and the choices that its operations meet. -/
structure MembershipCall where
  session : Session
  rpc : Rpc
  env : ℕ → Env
  isMembership : rpc.IsMembership

namespace MembershipCall

/-- Two calls that have not begun. -/
def race (d : Deployment) (calls : Bool → MembershipCall) (w : World) : MembershipRace :=
  ⟨fun i ↦ dispatch d (some (calls i).session) (calls i).rpc, fun i ↦ (calls i).env, w⟩

/-- A creation is about to delete its group: the other call has made the creator a member of it, or
has been refused because it wants to create a group of the same name. -/
def RollsBack (calls : Bool → MembershipCall) (c : MembershipRace) (i : Bool) : Prop :=
  ∃ request n, (calls i).rpc = .groupCreate request ∧
    nextWrite (c.threads i) = some (.deleteGroup n) ∧
    ((n, (calls i).session.userId) ∈ c.world.db.groupsUsers.rows.map GroupUser.key ∨
      ∃ request', (calls !i).rpc = .groupCreate request' ∧
        request'.grp.getD [] = request.grp.getD [] ∧ c.threads (!i) = .done nameUsed)

/-- The step of call `i` that the calls are not protected against. -/
def Conflict (calls : Bool → MembershipCall) (c : MembershipRace) (i : Bool) : Prop :=
  MembershipRace.LosesRight (fun i ↦ (calls i).session) c i ∨ RollsBack calls c i

/-- The memberships at the end of a schedule are those of one of the two serial runs. -/
def Serializable (d : Deployment) (calls : Bool → MembershipCall) (w : World)
    (schedule : List Bool) : Prop :=
  (schedule.foldl Race.step (race d calls w)).Finished →
    ∃ i, (schedule.foldl Race.step (race d calls w)).world.db.SameMemberships
      ((race d calls w).serial i).db

variable {calls : Bool → MembershipCall} {w : World}

theorem creation_or_task (c : MembershipCall) :
    (∃ request, c.rpc = .groupCreate request) ∨
      ∃ t, c.rpc.task c.session = some t ∧ t.session = c.session := by
  obtain ⟨session, rpc, env, h⟩ := c
  cases rpc with
  | groupCreate request => exact Or.inl ⟨request, rfl⟩
  | groupDelete | groupAddUser | groupRemoveUser | repoAddUser | repoRemoveUser | repoAddGroup
  | repoRemoveGroup => exact Or.inr ⟨_, rfl, rfl⟩
  | _ => exact h.elim

/-- **The membership calls are serializable** as long as none of them changes what the other one
has asked about. -/
theorem serializable (d : Deployment) (calls : Bool → MembershipCall) (h : w.db.Valid)
    (schedule : List Bool)
    (hok : Along Race.step (fun c i ↦ ¬ Conflict calls c i) (race d calls w) schedule) :
    Serializable d calls w schedule := by
  intro hfin
  have hleads := Race.leads_of_along hok hfin
  suffices hgraph : ∃ i, (schedule.foldl Race.step (race d calls w)).world.db.graph =
      ((race d calls w).serial i).db.graph from hgraph.imp fun _ ↦ Database.sameMemberships_of_graph
  have htask {i : Bool} (hi : ¬ ∃ request, (calls i).rpc = .groupCreate request) :
      ∃ t : Task, t.session = (calls i).session ∧ ∃ e,
        t.script.Describes e ((race d calls w).threads i) ((race d calls w).env i) := by
    obtain ⟨t, ht, hsession⟩ := (creation_or_task (calls i)).resolve_left hi
    obtain ⟨n, hfits⟩ := dispatch_fits d (calls i).session ht
    exact ⟨t, hsession, _, hfits (calls i).env⟩
  have hcreates {i : Bool} {request : Pb.GroupCreate}
      (hi : (calls i).rpc = .groupCreate request) :
      Creation.Creates ⟨(calls i).session.userId, request.grp.getD [], request.desc⟩
        ((race d calls w).threads i) ((race d calls w).env i) := by
    change Creation.Creates _ (dispatch d (some (calls i).session) (calls i).rpc) _
    rw [hi]
    exact Creation.dispatch_creates d _ request _
  by_cases hcreate : ∀ i, ∃ request, (calls i).rpc = .groupCreate request
  · choose request hrequest using hcreate
    refine MembershipRace.creations_serial (fun i ↦ hcreates (hrequest i)) h ?_ hleads
    intro c i hc n hnext hname hthread
    exact hc (Or.inr ⟨_, n, hrequest i, hnext, Or.inr ⟨_, hrequest !i, hname, hthread⟩⟩)
  obtain ⟨i, hi⟩ := not_forall.mp hcreate
  obtain ⟨t, ht, e, hdescribes⟩ := htask hi
  by_cases hother : ∃ request, (calls !i).rpc = .groupCreate request
  · obtain ⟨request, hrequest⟩ := hother
    refine MembershipRace.task_creation_serial hdescribes (hcreates hrequest) h ?_ hleads
    exact fun c hc n hnext hmem ↦ hc (Or.inr ⟨_, n, hrequest, hnext, Or.inl hmem⟩)
  · have htasks (j : Bool) : ¬ ∃ request, (calls j).rpc = .groupCreate request := by
      rcases Bool.eq_or_eq_not j i with rfl | rfl
      · exact hi
      · exact hother
    choose ts hts es hs using fun j ↦ htask (htasks j)
    refine MembershipRace.tasks_serial hs h ?_ hleads
    rw [funext hts]
    exact fun c i hc hloses ↦ hc (Or.inl hloses)

/-! ### Two owners of one repository -/

/-- A repository with two owners, and another user. -/
def twoOwners : World :=
  { World.initial with
    db := Write.applyAll 0 .initial
      [.insertUser (text "u") (text "u@h") [] [] [], .insertUser (text "v") (text "v@h") [] [] [],
        .insertUser (text "x") (text "x@h") [] [] [], .insertRepo (text "r") [] false,
        .insertRepoUser 1 1 3, .insertRepoUser 1 2 3] }

theorem twoOwners_valid : twoOwners.db.Valid :=
  Write.applyAll_valid 0 Database.valid_initial _

/-- Both calls ask before either of them writes. -/
def asking : List Bool := [true, false, true, false]

/-- Each owner adds the other user, with a role of their own choice. -/
def adding (i : Bool) : MembershipCall where
  session := { userId := if i then 1 else 2 }
  rpc := .repoAddUser
    { repoId := some 1, userId := some 3, role := if i then .kReader else .kWriter }
  env _ := {}
  isMembership := trivial

theorem serializable_adding :
    Serializable .plain adding twoOwners asking := by
  refine serializable .plain adding twoOwners_valid _ ?_
  have hcalm (c : MembershipRace) (i : Bool)
      (h : ∀ s, nextWrite (c.threads i) = some s → ∃ l, s.change = some (.add l)) :
      ¬ Conflict adding c i := by
    rintro (⟨s, -, k, -, hs, -, hk, -⟩ | ⟨request, n, hrequest, -⟩)
    · obtain ⟨l, hl⟩ := h s hs
      rw [hl] at hk
      cases hk
    · cases hrequest
  refine ⟨hcalm _ _ ?_, hcalm _ _ ?_, hcalm _ _ ?_, hcalm _ _ ?_, trivial⟩
  · rintro s ⟨⟩
  · rintro s ⟨⟩
  · rintro s ⟨⟩
    exact ⟨_, rfl⟩
  · rintro s ⟨⟩
    exact ⟨_, rfl⟩

theorem Serializable.reposUsers_ne_nil {d : Deployment} {schedule : List Bool}
    (h : Serializable d calls w schedule)
    (hfin : (schedule.foldl Race.step (race d calls w)).Finished)
    (hserial : ∀ i, ((race d calls w).serial i).db.reposUsers.rows ≠ []) :
    (schedule.foldl Race.step (race d calls w)).world.db.reposUsers.rows ≠ [] := by
  obtain ⟨i, hi⟩ := h hfin
  obtain ⟨r, hr⟩ := List.exists_mem_of_ne_nil _ (hserial i)
  exact List.ne_nil_of_mem ((hi.reposUsers r).mpr hr)

/-- Each owner removes the other one. -/
def removing (i : Bool) : MembershipCall where
  session := { userId := if i then 1 else 2 }
  rpc := .repoRemoveUser { repoId := some 1, userId := some (if i then 2 else 1) }
  env _ := {}
  isMembership := trivial

/-- **Two owners who remove each other**: both have asked before either of them is removed, and
nobody is left. -/
theorem not_serializable :
    let c := race .plain removing twoOwners
    twoOwners.db.Valid ∧ (asking.foldl Race.step c).Finished ∧
      (asking.foldl Race.step c).world.db.reposUsers.rows = [] ∧
        (∀ i, (c.serial i).db.reposUsers.rows ≠ []) ∧
          ¬ Serializable .plain removing twoOwners asking := by
  have hfin : (asking.foldl Race.step (race .plain removing twoOwners)).Finished := by
    decide +kernel
  have hrows : (asking.foldl Race.step
      (race .plain removing twoOwners)).world.db.reposUsers.rows = [] := by
    decide +kernel
  have hserial : ∀ i, ((race .plain removing twoOwners).serial i).db.reposUsers.rows ≠ [] := by
    decide +kernel
  exact ⟨twoOwners_valid, hfin, hrows, hserial, fun h ↦ h.reposUsers_ne_nil hfin hserial hrows⟩

end MembershipCall

end Scissy
