import Scissy.Interaction.Race

/-!
# Programs that test and then act

Many programs read, test what they have read, and change the state with one last operation. A
`Script` is what is left of such a program when its results are forgotten: the tests in their order
and the operation they lead to. `Script.Describes` relates it to the program.

## Three relations to a program

`Describes` is enough for a race, where the answer to a client does not matter. `Fits` also counts
the operations before the last one, and so tells which choice the last one meets. `Concludes` says
in addition what the program returns, where a test fails and after the last operation. Each of the
last two implies the one before.

## Acting on what has been read

A program that has been overtaken acts on answers that may be old. `Script.At` is the evidence it
carries: the tests it has made were passed in the state `w` it has read from. The evidence is kept
while nothing changes (`Script.At.step`), and `Script.run_spec` says what the rest of the program
does in whatever state it goes on from.
-/

namespace Interaction

universe u

variable {F : Type → Type u} {E W α β γ : Type} [Interp F E W]

open Prog

/-! ## Tests -/

/-- A test that has a value if it is passed. It is decided beforehand, or by one answer. -/
inductive Test (F : Type → Type u) (γ : Type) : Type (max 1 u)
  | known (x? : Option γ)
  | asked {β : Type} (op : F β) (pass : β → Option γ)

namespace Test

/-- The program makes the test and returns if it fails. -/
def Then (K : γ → Prog F α → (ℕ → E) → Prop) : Test F γ → Prog F α → (ℕ → E) → Prop
  | known none, p, _ => ¬ p.Running
  | known (some x), p, env => K x p env
  | asked op pass, p, env => ∃ next, p = .call op next ∧ ∀ b, match pass b with
    | none => ¬ (next b).Running
    | some x => K x (next b) fun n ↦ env (n + 1)

/-- The test changes nothing, and the state alone decides. -/
def Reads : Test F γ → Prop
  | known _ => True
  | asked op _ => ∀ w, ∃ b, ∀ e, Interp.exec op e w = (b, w)

/-- The test is passed in the state `w`, with the value `x`. -/
def Passes (w : W) (x : γ) : Test F γ → Prop
  | known x? => x? = some x
  | asked op pass => ∃ e, pass (Interp.exec op e w).1 = some x

variable {c : Test F γ} {K : γ → Prog F α → (ℕ → E) → Prop} {p : Prog F α} {env : ℕ → E}
  {w : W} {x y : γ}

theorem Passes.eq (hc : c.Reads) (hx : c.Passes w x) (hy : c.Passes w y) : x = y := by
  cases c with
  | known x? => exact Option.some_inj.mp (hx.symm.trans hy)
  | asked op pass =>
    obtain ⟨b, hb⟩ := hc w
    obtain ⟨e, hx⟩ := hx
    obtain ⟨e', hy⟩ := hy
    rw [hb] at hx hy
    exact Option.some_inj.mp (hx.symm.trans hy)

theorem passes_asked_iff {op : F β} {pass : β → Option γ} {b : β}
    (hb : ∀ e, Interp.exec op e w = (b, w)) (e : E) :
    (asked op pass).Passes w x ↔ pass b = some x := by
  refine ⟨?_, fun hx ↦ ⟨e, ?_⟩⟩
  · rintro ⟨e, hx⟩
    rwa [hb] at hx
  · rwa [hb]

theorem Then.run (hc : c.Reads) (h : c.Then K p env) (w : W) :
    (∃ x p' env', c.Passes w x ∧ K x p' env' ∧ p.run env w = p'.run env' w) ∨
      (∀ x, ¬ c.Passes w x) ∧ (p.run env w).2 = w := by
  cases c with
  | known x? =>
    cases x? with
    | none =>
      obtain ⟨a, rfl⟩ := ends_of_not_running h
      exact Or.inr ⟨fun x hx ↦ Option.some_ne_none x hx.symm, rfl⟩
    | some x => exact Or.inl ⟨x, p, env, rfl, h, rfl⟩
  | asked op pass =>
    obtain ⟨next, rfl, hnext⟩ := h
    obtain ⟨b, hb⟩ := hc w
    have hrest := hnext b
    rw [run_call, hb]
    split at hrest
    · rename_i hpass
      obtain ⟨a, ha⟩ := ends_of_not_running hrest
      rw [ha]
      refine Or.inr ⟨?_, rfl⟩
      rintro x ⟨e, hx⟩
      rw [hb, hpass] at hx
      exact Option.some_ne_none x hx.symm
    · rename_i x hpass
      refine Or.inl ⟨x, next b, _, ⟨env 0, ?_⟩, hrest, rfl⟩
      rw [hb]
      exact hpass

theorem Then.step_asked {β' : Type} {op : F β} {next : β → Prog F α} {op' : F β'}
    {pass : β' → Option γ}
    (h : (asked op' pass).Then K (.call op next) env)
    (hrun : (next (Interp.exec op (env 0) w).1).Running) :
    ∃ x, (asked op' pass).Passes w x ∧
      K x (next (Interp.exec op (env 0) w).1) fun n ↦ env (n + 1) := by
  obtain ⟨next', heq, hnext⟩ := h
  cases heq
  have hrest := hnext (Interp.exec op (env 0) w).1
  split at hrest
  · exact absurd hrun hrest
  · rename_i x hpass
    exact ⟨x, ⟨env 0, hpass⟩, hrest⟩

theorem Then.step {op : F β} {next : β → Prog F α} (h : c.Then K (.call op next) env)
    (hrun : (next (Interp.exec op (env 0) w).1).Running) :
    ∃ x, c.Passes w x ∧ (K x (.call op next) env ∨
      K x (next (Interp.exec op (env 0) w).1) fun n ↦ env (n + 1)) := by
  cases c with
  | known x? =>
    cases x? with
    | none => exact absurd (running_call op next) h
    | some x => exact ⟨x, rfl, Or.inl h⟩
  | asked op' pass =>
    obtain ⟨x, hx, hrest⟩ := h.step_asked hrun
    exact ⟨x, hx, Or.inr hrest⟩

theorem Then.quietly (hc : c.Reads) (hx : c.Passes w x) (h : c.Then K p env)
    (hK : ∀ p env, K x p env → p.Running) :
    ∃ p' env', K x p' env' ∧ Quietly w p env p' env' := by
  cases c with
  | known x? =>
    obtain rfl := hx
    exact ⟨p, env, h, .refl p env⟩
  | asked op pass =>
    obtain ⟨next, rfl, hnext⟩ := h
    obtain ⟨b, hb⟩ := hc w
    have hpass := (passes_asked_iff hb (env 0)).mp hx
    have hrest := hnext b
    rw [hpass] at hrest
    refine ⟨next b, _, hrest, ?_⟩
    have hstep : Quietly w (.call op next) env (next (Interp.exec op (env 0) w).1) fun n ↦
        env (n + 1) := by
      refine .step ?_ ?_ (.refl _ _)
      · rw [hb]
      · rw [hb]
        exact hK _ _ hrest
    rwa [hb] at hstep

theorem Then.oneChange (hc : c.Reads) (h : c.Then K p env)
    (hK : ∀ x p env, K x p env → p.OneChange) : p.OneChange := by
  cases c with
  | known x? =>
    cases x? with
    | none =>
      obtain ⟨a, rfl⟩ := ends_of_not_running h
      trivial
    | some x => exact hK x p env h
  | asked op pass =>
    obtain ⟨next, rfl, hnext⟩ := h
    intro b hrun
    have hrest := hnext b
    refine ⟨fun e w _ ↦ ?_, ?_⟩
    · obtain ⟨b', hb'⟩ := hc w
      rw [hb']
    · split at hrest
      · exact absurd hrun hrest
      · exact hK _ _ _ hrest

end Test

/-! ## Scripts -/

/-- Checks, each of them depending on the values of those before it, and the operation after the
last one. -/
inductive Script (F : Type → Type u) (β : Type) : Type (max 1 u)
  | act (op : F β)
  | test {γ : Type} (c : Test F γ) (k : γ → Script F β)

namespace Script

/-- The program does what the script says, and its last operation meets the choice `e`. -/
def Describes (e : E) : Script F β → Prog F α → (ℕ → E) → Prop
  | act op, p, env => env 0 = e ∧ ∃ next, p = .call op next ∧ ∀ b, ¬ (next b).Running
  | test c k, p, env => c.Then (fun x ↦ (k x).Describes e) p env

/-- The program follows the script, and has passed its first tests in the state `w`. -/
def At (e : E) (w : W) : Script F β → Prog F α → (ℕ → E) → Prop
  | act op, p, env => (act op).Describes e p env
  | test c k, p, env => (test c k).Describes e p env ∨
    ∃ x, c.Passes w x ∧ (k x).At e w p env

/-- All tests are passed in the state `w` and lead to the operation. -/
def Leads (w : W) (op : F β) : Script F β → Prop
  | act op' => op' = op
  | test c k => ∃ x, c.Passes w x ∧ (k x).Leads w op

/-- No test changes anything. -/
def Reads : Script F β → Prop
  | act _ => True
  | test c k => c.Reads ∧ ∀ x, (k x).Reads

variable {S : Script F β} {p : Prog F α} {env : ℕ → E} {e : E} {w : W} {op op' : F β}

theorem at_of_describes (h : S.Describes e p env) : S.At e w p env := by
  cases S with
  | act op => exact h
  | test c k => exact Or.inl h

theorem Describes.oneChange (hS : S.Reads) (h : S.Describes e p env) : p.OneChange := by
  induction S generalizing p env with
  | act op =>
    obtain ⟨-, next, rfl, hnext⟩ := h
    exact fun b hrun ↦ absurd hrun (hnext b)
  | test c k ih => exact Test.Then.oneChange hS.1 h fun x p env hK ↦ ih x (hS.2 x) hK

/-! ### Reading a script off a program -/

/-- The program follows the script, and its last operation is preceded by `n` others. -/
def Fits (E : Type) (S : Script F β) (n : ℕ) (p : Prog F α) : Prop :=
  ∀ env : ℕ → E, S.Describes (env n) p env

/-- The program follows the script, and its last operation is preceded by `n` others. Where a test
fails it returns a value that satisfies `stop`, and `final` says what it does with the answer to
the last operation. -/
def Concludes (stop : α → Prop) (final : F β → β → Prog F α → Prop) :
    Script F β → ℕ → Prog F α → Prop
  | act op, n, p => n = 0 ∧ ∃ next, p = .call op next ∧ ∀ b, final op b (next b)
  | test (.known none) _, _, p => p.Ends stop
  | test (.known (some x)) k, n, p => (k x).Concludes stop final n p
  | test (.asked op pass) k, n, p => ∃ m next, n = m + 1 ∧ p = .call op next ∧ ∀ b,
    match pass b with
    | none => (next b).Ends stop
    | some x => (k x).Concludes stop final m (next b)

section Concludes

variable {K : γ → Script F β} {n : ℕ} {stop : α → Prop} {final : F β → β → Prog F α → Prop}

theorem concludes_act {k : β → Prog F α} (hk : ∀ b, final op b (k b)) :
    (act op).Concludes stop final 0 (issue op >>= k) := ⟨rfl, _, rfl, hk⟩

theorem concludes_known {x : γ} (h : (K x).Concludes stop final n p) :
    (test (.known (some x)) K).Concludes stop final n p := h

theorem concludes_missing (h : p.Ends stop) :
    (test (.known none) K).Concludes stop final n p := h

theorem concludes_asked {γ' : Type} {op : F γ'} {pass : γ' → Option γ} {next : γ' → Prog F α}
    (hnone : ∀ b, pass b = none → (next b).Ends stop)
    (hsome : ∀ b x, pass b = some x → (K x).Concludes stop final n (next b)) :
    (test (.asked op pass) K).Concludes stop final (n + 1) (call op next) := by
  refine ⟨n, next, rfl, rfl, fun b ↦ ?_⟩
  split
  · rename_i hpass
    exact hnone b hpass
  · rename_i x hpass
    exact hsome b x hpass

theorem Concludes.fits (hfinal : ∀ op b q, final op b q → ¬ q.Running)
    (h : S.Concludes stop final n p) : S.Fits E n p := by
  induction S generalizing n p with
  | act op =>
    obtain ⟨rfl, next, rfl, hnext⟩ := h
    exact fun env ↦ ⟨rfl, next, rfl, fun b ↦ hfinal op b _ (hnext b)⟩
  | test c k ih =>
    cases c with
    | known x? =>
      cases x? with
      | none => exact fun env ↦ not_running_of_ends h
      | some x => exact ih x h
    | asked op' pass =>
      obtain ⟨m, next, rfl, rfl, hnext⟩ := h
      refine fun env ↦ ⟨next, rfl, fun b ↦ ?_⟩
      have hrest := hnext b
      split
      · rename_i hpass
        rw [hpass] at hrest
        exact not_running_of_ends hrest
      · rename_i x hpass
        rw [hpass] at hrest
        exact ih x hrest fun i ↦ env (i + 1)

end Concludes

/-! ### What a described program does -/

theorem leads_test_iff {c : Test F γ} {k : γ → Script F β} {x : γ} (hc : c.Reads)
    (hx : c.Passes w x) : (test c k).Leads w op ↔ (k x).Leads w op := by
  constructor
  · rintro ⟨y, hy, hop⟩
    obtain rfl := hx.eq hc hy
    exact hop
  · exact fun hop ↦ ⟨x, hx, hop⟩

/-- The last operation of a program. -/
theorem run_act (h : (act op).Describes e p env) (w : W) :
    (p.run env w).2 = (Interp.exec op e w).2 := by
  obtain ⟨he, next, rfl, hnext⟩ := h
  obtain ⟨a, ha⟩ := ends_of_not_running (hnext (Interp.exec op (env 0) w).1)
  rw [run_call, ha, run_done, he]

theorem step_world {c : Race F E W α} {i : Bool}
    (h : (act op).Describes e (c.threads i) (c.env i)) :
    (c.step i).world = (Interp.exec op e c.world).2 := by
  obtain ⟨he, next, hcall, -⟩ := h
  rw [Race.step_world hcall, he]

/-- **What the program does by itself.** Its tests lead to the operation and it is issued, or they
do not and nothing happens. -/
theorem run_spec (hS : S.Reads) (h : S.Describes e p env) (w : W) :
    (∃ op, S.Leads w op ∧ (p.run env w).2 = (Interp.exec op e w).2) ∨
      (∀ op, ¬ S.Leads w op) ∧ (p.run env w).2 = w := by
  induction S generalizing p env with
  | act op => exact Or.inl ⟨op, rfl, run_act h w⟩
  | test c k ih =>
    rcases Test.Then.run hS.1 h w with ⟨x, p', env', hx, hrest, hrun⟩ | ⟨hnone, hrun⟩
    · rw [hrun]
      simp only [leads_test_iff hS.1 hx]
      exact ih x (hS.2 x) hrest
    · refine Or.inr ⟨?_, hrun⟩
      rintro op ⟨x, hx, -⟩
      exact hnone x hx

/-- **The evidence is kept.** One step from the state that the program has read from leads nearer
to the end of the script. -/
theorem At.step {γ : Type} {op : F γ} {next : γ → Prog F α} (h : S.At e w (.call op next) env)
    (hrun : (next (Interp.exec op (env 0) w).1).Running) :
    S.At e w (next (Interp.exec op (env 0) w).1) fun n ↦ env (n + 1) := by
  have hdescribes (T : Script F β) (h : T.Describes e (.call op next) env) :
      T.At e w (next (Interp.exec op (env 0) w).1) fun n ↦ env (n + 1) := by
    induction T with
    | act op' =>
      obtain ⟨-, next', heq, hnext⟩ := h
      cases heq
      exact absurd hrun (hnext _)
    | test c k ih =>
      obtain ⟨x, hx, hrest | hrest⟩ := Test.Then.step h hrun
      · exact Or.inr ⟨x, hx, ih x hrest⟩
      · exact Or.inr ⟨x, hx, at_of_describes hrest⟩
  induction S with
  | act op' => exact hdescribes _ h
  | test c k ih =>
    rcases h with h | ⟨x, hx, hrest⟩
    · exact hdescribes _ h
    · exact Or.inr ⟨x, hx, ih x hrest⟩

theorem At.quietly {q : Prog F α} {env' : ℕ → E} (h : S.At e w p env)
    (hq : Quietly w p env q env') : S.At e w q env' :=
  hq.preserves (fun _ _ _ h _ hrun ↦ h.step hrun) h

/-- **From where the program has come to**, in the state that it has read from, the run ends like
that of the whole program. -/
theorem At.run_spec (hS : S.Reads) (h : S.At e w p env) :
    (∃ op, S.Leads w op ∧ (p.run env w).2 = (Interp.exec op e w).2) ∨
      (∀ op, ¬ S.Leads w op) ∧ (p.run env w).2 = w := by
  induction S with
  | act op => exact Script.run_spec hS h w
  | test c k ih =>
    rcases h with h | ⟨x, hx, hrest⟩
    · exact Script.run_spec hS h w
    · simp only [leads_test_iff hS.1 hx]
      exact ih x (hS.2 x) hrest

theorem At.pending {γ : Type} {op : F γ} {next : γ → Prog F α} (hS : S.Reads)
    (h : S.At e w (.call op next) env) :
    (∀ e v, (Interp.exec op e v).2 = v) ∨
      ∃ op' : F β, S.Leads w op' ∧ (act op').Describes e (.call op next) env := by
  have hdescribes (T : Script F β) (hT : T.Reads) (h : T.Describes e (.call op next) env) :
      (∀ e v, (Interp.exec op e v).2 = v) ∨
        ∃ op' : F β, T.Leads w op' ∧ (act op').Describes e (.call op next) env := by
    induction T with
    | act op' => exact Or.inr ⟨op', rfl, h⟩
    | test c k ih =>
      cases c with
      | known x? =>
        cases x? with
        | none => exact absurd (running_call op next) h
        | some x =>
          refine (ih x (hT.2 x) h).imp_right ?_
          rintro ⟨op', hop', hrest⟩
          exact ⟨op', ⟨x, rfl, hop'⟩, hrest⟩
      | asked op' pass =>
        obtain ⟨next', heq, -⟩ := h
        cases heq
        refine Or.inl fun e v ↦ ?_
        obtain ⟨b, hb⟩ := hT.1 v
        rw [hb]
  induction S with
  | act op' => exact hdescribes _ hS h
  | test c k ih =>
    rcases h with h | ⟨x, hx, hrest⟩
    · exact hdescribes _ hS h
    · refine (ih x (hS.2 x) hrest).imp_right ?_
      rintro ⟨op', hop', hact⟩
      exact ⟨op', ⟨x, hx, hop'⟩, hact⟩

end Script

/-! ## Scripts on other operations

The operations of a program may be given another meaning, by an interpretation of the operations
that they are translated to. The program is then told other answers, and follows its script by
them.
-/

section Translate

variable {G : Type → Type u} {E' W' : Type} [Interp G E' W']

namespace Test

/-- The number of operations. -/
def cost : Test F γ → ℕ
  | known _ => 0
  | asked _ _ => 1

/-- The program takes the test for passed, with the value `x`. -/
def Sees (f : {β : Type} → F β → G β) (env : ℕ → E') (w : W') (x : γ) : Test F γ → Prop
  | known x? => x? = some x
  | asked op pass => pass (Interp.exec (f op) (env 0) w).1 = some x

theorem Sees.eq {f : {β : Type} → F β → G β} {env : ℕ → E'} {w : W'} {c : Test F γ} {x y : γ}
    (hx : c.Sees f env w x) (hy : c.Sees f env w y) : x = y := by
  cases c <;> exact Option.some_inj.mp (hx.symm.trans hy)

/-- The test changes nothing. -/
def Still (f : {β : Type} → F β → G β) : Test F γ → Prop
  | known _ => True
  | asked op _ => ∀ e w, (Interp.exec (f op) e w).2 = w

end Test

namespace Script

/-- All tests are taken for passed and lead to the operation. -/
def Reaches (f : {β : Type} → F β → G β) (w : W') (op : F β) : Script F β → (ℕ → E') → Prop
  | act op', _ => op' = op
  | test c k, env => ∃ x, c.Sees f env w x ∧ (k x).Reaches f w op fun i ↦ env (i + c.cost)

/-- No test changes anything. -/
def Still (f : {β : Type} → F β → G β) : Script F β → Prop
  | act _ => True
  | test c k => c.Still f ∧ ∀ x, (k x).Still f

variable {f : {β : Type} → F β → G β} {S : Script F β} {stop : α → Prop}
  {final : F β → β → Prog F α → Prop} {n : ℕ} {p : Prog F α}

theorem reaches_test_iff {c : Test F γ} {k : γ → Script F β} {x : γ} {env : ℕ → E'} {w : W'}
    {op : F β} (hx : c.Sees f env w x) :
    Reaches (F := F) f w op (test c k) env ↔
      Reaches (F := F) f w op (k x) fun i ↦ env (i + c.cost) := by
  constructor
  · rintro ⟨y, hy, hop⟩
    obtain rfl := hx.eq hy
    exact hop
  · exact fun hop ↦ ⟨x, hx, hop⟩

/-- **What the program does by itself** among other answers. Its tests lead to the operation, and
it goes on from there, or they do not and nothing happens. -/
theorem Concludes.run (hS : S.Still f) (h : S.Concludes stop final n p) (env : ℕ → E') (w : W') :
    (∃ op q, S.Reaches f w op env ∧ final op (Interp.exec (f op) (env n) w).1 q ∧
        (p.translate f).run env w =
          (q.translate f).run (fun i ↦ env (i + (n + 1))) (Interp.exec (f op) (env n) w).2) ∨
      (∀ op, ¬ S.Reaches f w op env) ∧ ∃ a, stop a ∧ (p.translate f).run env w = (a, w) := by
  induction S generalizing n p env with
  | act op =>
    obtain ⟨rfl, next, rfl, hnext⟩ := h
    exact Or.inl ⟨op, _, rfl, hnext _, rfl⟩
  | test c k ih =>
    cases c with
    | known x? =>
      cases x? with
      | none =>
        obtain ⟨a, rfl, ha⟩ := exists_of_ends h
        refine Or.inr ⟨?_, a, ha, rfl⟩
        rintro op ⟨x, ⟨⟩, -⟩
      | some x =>
        have hx : (Test.known (some x) : Test F _).Sees f env w x := rfl
        simp only [reaches_test_iff hx]
        exact ih x (hS.2 x) h env
    | asked op' pass =>
      obtain ⟨m, next, rfl, rfl, hnext⟩ := h
      have hrest := hnext (Interp.exec (f op') (env 0) w).1
      rw [translate_call, run_call, hS.1 (env 0) w]
      split at hrest
      · rename_i hpass
        obtain ⟨a, hdone, ha⟩ := exists_of_ends hrest
        rw [hdone]
        refine Or.inr ⟨?_, a, ha, rfl⟩
        rintro op ⟨x, hx, -⟩
        exact Option.some_ne_none x (hx.symm.trans hpass)
      · rename_i x hpass
        have hx : (Test.asked op' pass).Sees f env w x := hpass
        simp only [reaches_test_iff hx]
        exact ih x (hS.2 x) hrest fun i ↦ env (i + 1)

end Script

end Translate

end Interaction
