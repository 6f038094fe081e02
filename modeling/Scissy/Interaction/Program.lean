import Mathlib.Control.Basic
import Mathlib.Logic.Function.Iterate

/-!
# Programs over a signature of atomic operations

A program is a tree: it has returned, or it issues one operation and goes on with a continuation
that receives the operation's answer. Each operation is atomic; whatever happens between two of
them (another thread, a crash) is decided by whoever runs the tree, never by the tree itself. The
same program can therefore be run on its own (`Prog.run`), interleaved with others (the pool
module), or inspected without being run at all (`Prog.Within`).

## The environment

An operation may depend on something the program does not control: whether a disk is full, the
bytes a random generator hands out, the time. Each execution of an operation receives one element
of a type `E` of environment choices, and `run` takes a stream of them. Statements quantify over
the stream, so a nondeterministic step and a step parameterized by `E` are the same thing and
everything stays executable.

## The rules

- `Prog.wp` is the weakest precondition over all admissible choices, computed by recursion on the
  tree; `wp_iff_run` identifies it with `run`.
- `Prog.Decides` specifies a check made in the middle of a function: it reads, and passes exactly
  with the values it should.
- `Prog.Within` bounds the operations a program can issue and the values it can return, whatever
  the answers are; `Within.run_rel` turns a per-operation fact into a fact about runs.
- `Prog.Returns` says that a program only reads and what it returns; `Prog.SameAnswer` compares
  two states a program only reads, and composes along the program.
- `Prog.KeepsStep` compares two programs up to the answer that parts them; `Prog.replay` finds the
  point a program has reached from a record of its operations.
- `Prog.ReturnsIn` also counts the operations, for statements about the choice one of them meets.
-/

namespace Interaction

universe u

/-- A program issuing operations of the signature `F` and returning an `α`. -/
inductive Prog (F : Type → Type u) (α : Type) : Type (max 1 u)
  /-- The program has returned. -/
  | done (a : α)
  /-- Issue `op` and continue with its answer. -/
  | call {β : Type} (op : F β) (next : β → Prog F α)

/-- An interpretation of the operations on states `W`, under environment choices `E`. -/
class Interp (F : Type → Type u) (E W : outParam Type) where
  /-- The answer to one operation and the state after it. -/
  exec : {β : Type} → F β → E → W → β × W

namespace Prog

variable {F : Type → Type u} {E W α β γ ε : Type}

/-! ## The monad -/

/-- Sequential composition: graft `f` onto the leaves. -/
def bind : Prog F α → (α → Prog F β) → Prog F β
  | done a, f => f a
  | call op next, f => call op fun b ↦ (next b).bind f

instance : Monad (Prog F) where
  pure := done
  bind := bind

@[simp] theorem done_bind (a : α) (f : α → Prog F β) : (done a >>= f) = f a := rfl

@[simp] theorem call_bind (op : F γ) (next : γ → Prog F α) (f : α → Prog F β) :
    (call op next >>= f) = call op fun b ↦ next b >>= f := rfl

theorem bind_done (p : Prog F α) : (p >>= done) = p := by
  induction p with
  | done a => rfl
  | call op next ih => rw [call_bind]; congr 1; funext b; exact ih b

theorem bind_assoc (p : Prog F α) (f : α → Prog F β) (g : β → Prog F γ) :
    (p >>= f) >>= g = p >>= fun a ↦ f a >>= g := by
  induction p with
  | done a => rfl
  | call op next ih => simp only [call_bind]; congr 1; funext b; exact ih b

instance : LawfulMonad (Prog F) :=
  LawfulMonad.mk' (Prog F) bind_done (fun _ _ ↦ rfl) bind_assoc

/-- Issue one operation and return its answer. -/
def issue (op : F β) : Prog F β := call op done

/-- Run `p`; an `error` is the value of the whole program, an `ok` goes on with `k`. This is the
early `return` of a macro or a guard expanded in the middle of a function. -/
def orReturn (p : Prog F (Except ε α)) (k : α → Prog F ε) : Prog F ε :=
  p >>= fun r ↦ match r with
    | .error e => done e
    | .ok a => k a

/-- Run `p`; an `error` is passed on, an `ok` goes on with the next check. -/
def andThen (p : Prog F (Except ε α)) (k : α → Prog F (Except ε β)) : Prog F (Except ε β) :=
  p >>= fun r ↦ match r with
    | .error e => done (.error e)
    | .ok a => k a

/-- Two checks in a row are one check. -/
theorem andThen_orReturn (p : Prog F (Except ε α)) (q : α → Prog F (Except ε β))
    (k : β → Prog F ε) : (p.andThen q).orReturn k = p.orReturn fun a ↦ (q a).orReturn k := by
  rw [andThen, orReturn, orReturn, LawfulMonad.bind_assoc]
  congr 1
  funext r
  cases r <;> rfl

/-! ## The same program on other operations -/

section Translate

variable {G : Type → Type u}

/-- Issue the operations that `f` gives instead. -/
def translate (f : {β : Type} → F β → G β) : Prog F α → Prog G α
  | done a => done a
  | call op next => call (f op) fun b ↦ (next b).translate f

@[simp] theorem translate_done (f : {β : Type} → F β → G β) (a : α) :
    (done a : Prog F α).translate f = done a := rfl

@[simp] theorem translate_call (f : {β : Type} → F β → G β) (op : F β) (next : β → Prog F α) :
    (call op next).translate f = call (f op) fun b ↦ (next b).translate f := rfl

theorem translate_bind (f : {β : Type} → F β → G β) (p : Prog F α) (k : α → Prog F β) :
    (p >>= k).translate f = p.translate f >>= fun a ↦ (k a).translate f := by
  induction p with
  | done a => rfl
  | call op next ih =>
    rw [call_bind, translate_call, translate_call, call_bind]
    congr 1
    funext b
    exact ih b

end Translate

/-! ## Running a program alone -/

variable [Interp F E W]

/-- Run a program by itself, one element of the stream of choices for each operation. -/
def run : Prog F α → (ℕ → E) → W → α × W
  | done a, _, w => (a, w)
  | call op next, env, w =>
    let r := Interp.exec op (env 0) w
    (next r.1).run (fun n ↦ env (n + 1)) r.2

@[simp] theorem run_done (a : α) (env : ℕ → E) (w : W) :
    (done a : Prog F α).run env w = (a, w) := rfl

@[simp] theorem run_call (op : F β) (next : β → Prog F α) (env : ℕ → E) (w : W) :
    (call op next).run env w = (next (Interp.exec op (env 0) w).1).run (fun n ↦ env (n + 1))
      (Interp.exec op (env 0) w).2 := rfl

@[simp] theorem run_map (f : α → β) (p : Prog F α) (env : ℕ → E) (w : W) :
    (f <$> p).run env w = (f (p.run env w).1, (p.run env w).2) := by
  rw [map_eq_pure_bind]
  induction p generalizing env w with
  | done a => rfl
  | call op next ih => exact ih _ _ _

/-- Two programs in sequence: the second goes on from where the first one stops. -/
theorem exists_run_bind (p : Prog F α) (env : ℕ → E) (w : W) :
    ∃ n, ∀ {β : Type} (k : α → Prog F β),
      (p >>= k).run env w = (k (p.run env w).1).run (fun i ↦ env (i + n)) (p.run env w).2 := by
  induction p generalizing env w with
  | done a => exact ⟨0, fun k ↦ rfl⟩
  | call op next ih =>
    obtain ⟨n, hn⟩ := ih (Interp.exec op (env 0) w).1 (fun i ↦ env (i + 1))
      (Interp.exec op (env 0) w).2
    exact ⟨n + 1, fun k ↦ hn k⟩

/-- The states a run goes through, from its first to its last. -/
def visited : Prog F α → (ℕ → E) → W → List W
  | done _, _, w => [w]
  | call op next, env, w =>
    w :: (next (Interp.exec op (env 0) w).1).visited (fun n ↦ env (n + 1))
      (Interp.exec op (env 0) w).2

theorem mem_visited (p : Prog F α) (env : ℕ → E) (w : W) : w ∈ p.visited env w := by
  cases p with
  | done a => exact List.mem_singleton_self w
  | call op next => exact List.mem_cons_self

/-- A relation that every operation respects relates every state of a run to its last. -/
theorem rel_of_mem_visited {R : W → W → Prop} (hrefl : ∀ w, R w w)
    (htrans : ∀ {u v w}, R u v → R v w → R u w)
    (hop : ∀ {β} (op : F β) e w, R w (Interp.exec op e w).2) {p : Prog F α} {env : ℕ → E}
    {v w : W} (h : v ∈ p.visited env w) : R v (p.run env w).2 := by
  have hrun : ∀ (p : Prog F α) (env : ℕ → E) w, R w (p.run env w).2 := by
    intro p
    induction p with
    | done a => exact fun _ w ↦ hrefl w
    | call op next ih => exact fun env w ↦ htrans (hop op (env 0) w) (ih _ _ _)
  induction p generalizing env w with
  | done a =>
    obtain rfl := List.mem_singleton.mp h
    exact hrefl v
  | call op next ih =>
    rcases List.mem_cons.mp h with rfl | h
    · exact hrun (call op next) env v
    · exact ih _ h

/-! ## Replaying a record -/

/-- What is left of a program after some of its operations, each recorded with its choice and the
state it met. -/
def replay : Prog F α → List (E × W) → Prog F α
  | p, [] => p
  | done a, _ :: _ => done a
  | call op next, (e, w) :: record => (next (Interp.exec op e w).1).replay record

@[simp] theorem replay_nil (p : Prog F α) : p.replay ([] : List (E × W)) = p := by
  cases p <;> rfl

theorem replay_concat {p : Prog F α} {record : List (E × W)} {op : F β} {next : β → Prog F α}
    (h : p.replay record = call op next) (e : E) (w : W) :
    p.replay (record ++ [(e, w)]) = next (Interp.exec op e w).1 := by
  induction record generalizing p with
  | nil =>
    rw [replay_nil] at h
    rw [h, List.nil_append, replay, replay_nil]
  | cons r record ih =>
    cases p with
    | done a => cases h
    | call op' next' => exact ih h

/-- The program has returned a value that satisfies `P`. -/
def Ends (P : α → Prop) : Prog F α → Prop
  | done a => P a
  | call _ _ => False

/-! ## Weakest preconditions -/

/-- Every run of the program whose choices are all admissible ends in `Q`. -/
def wp (A : E → Prop) : Prog F α → (α → W → Prop) → W → Prop
  | done a, Q, w => Q a w
  | call op next, Q, w =>
    ∀ e, A e → (next (Interp.exec op e w).1).wp A Q (Interp.exec op e w).2

section WeakestPrecondition

variable {A : E → Prop} {Q Q' : α → W → Prop} {w : W}

@[simp] theorem wp_done {a : α} : (done a : Prog F α).wp A Q w ↔ Q a w := Iff.rfl

@[simp] theorem wp_pure {a : α} : (pure a : Prog F α).wp A Q w ↔ Q a w := Iff.rfl

@[simp] theorem wp_call {op : F β} {next : β → Prog F α} :
    (call op next).wp A Q w ↔
      ∀ e, A e → (next (Interp.exec op e w).1).wp A Q (Interp.exec op e w).2 := Iff.rfl

@[simp] theorem wp_issue {op : F α} :
    (issue op).wp A Q w ↔ ∀ e, A e → Q (Interp.exec op e w).1 (Interp.exec op e w).2 := Iff.rfl

@[simp] theorem wp_bind {p : Prog F α} {f : α → Prog F β} {Q : β → W → Prop} :
    (p >>= f).wp A Q w ↔ p.wp A (fun a v ↦ (f a).wp A Q v) w := by
  induction p generalizing w with
  | done a => rfl
  | call op next ih =>
    rw [call_bind, wp_call, wp_call]
    exact forall_congr' fun e ↦ imp_congr_right fun _ ↦ ih _

@[simp] theorem wp_map {p : Prog F α} {f : α → β} {Q : β → W → Prop} :
    (f <$> p).wp A Q w ↔ p.wp A (fun a v ↦ Q (f a) v) w := by
  rw [map_eq_pure_bind, wp_bind]
  rfl

theorem wp_mono {p : Prog F α} (h : p.wp A Q w) (hQ : ∀ a v, Q a v → Q' a v) : p.wp A Q' w := by
  induction p generalizing w with
  | done a => exact hQ a w h
  | call op next ih => exact fun e he ↦ ih _ (h e he)

theorem wp_orReturn {p : Prog F (Except ε α)} {k : α → Prog F ε} {Q : ε → W → Prop}
    {R : Except ε α → W → Prop} (hp : p.wp A R w)
    (herror : ∀ x v, R (.error x) v → Q x v) (hok : ∀ a v, R (.ok a) v → (k a).wp A Q v) :
    (p.orReturn k).wp A Q w := by
  rw [orReturn, wp_bind]
  refine wp_mono hp fun r v hr ↦ ?_
  cases r with
  | error x => exact herror x v hr
  | ok a => exact hok a v hr

/-- **Soundness and completeness.** The precondition is exactly the postcondition of every run. -/
theorem wp_iff_run {p : Prog F α} (hA : ∃ e, A e) :
    p.wp A Q w ↔ ∀ env : ℕ → E, (∀ n, A (env n)) → Q (p.run env w).1 (p.run env w).2 := by
  induction p generalizing w with
  | done a =>
    obtain ⟨e, he⟩ := hA
    exact ⟨fun h _ _ ↦ h, fun h ↦ h (fun _ ↦ e) fun _ ↦ he⟩
  | call op next ih =>
    rw [wp_call]
    constructor
    · intro h env henv
      exact (ih _).mp (h (env 0) (henv 0)) _ fun n ↦ henv (n + 1)
    · intro h e he
      refine (ih _).mpr fun env henv ↦ ?_
      -- the stream that starts with `e` and goes on as `env`
      refine h (fun | 0 => e | n + 1 => env n) ?_
      rintro (_ | n)
      exacts [he, henv n]

theorem wp.run {p : Prog F α} (h : p.wp A Q w) (env : ℕ → E) (henv : ∀ n, A (env n)) :
    Q (p.run env w).1 (p.run env w).2 :=
  (wp_iff_run ⟨env 0, henv 0⟩).mp h env henv

end WeakestPrecondition

/-! ## Checks -/

/-- A check that only reads, and passes exactly with the values that satisfy `P`. -/
def Decides (A : E → Prop) (p : Prog F (Except ε α)) (w : W) (P : α → Prop) : Prop :=
  p.wp A (fun r v ↦ v = w ∧ ∀ a, r = .ok a ↔ P a) w

section Decides

variable {A : E → Prop} {w : W} {P : α → Prop}

theorem decides_ok (a : α) : (done (.ok a) : Prog F (Except ε α)).Decides A w (· = a) :=
  ⟨rfl, fun b ↦ by rw [Except.ok.injEq, eq_comm]⟩

theorem decides_error (x : ε) (h : ∀ a, ¬ P a) :
    (done (.error x) : Prog F (Except ε α)).Decides A w P :=
  ⟨rfl, fun a ↦ iff_of_false nofun (h a)⟩

theorem Decides.congr {P' : α → Prop} {p : Prog F (Except ε α)} (h : p.Decides A w P)
    (hP : ∀ a, P a ↔ P' a) : p.Decides A w P' :=
  wp_mono h fun _ _ hr ↦ ⟨hr.1, fun a ↦ (hr.2 a).trans (hP a)⟩

theorem Decides.andThen {p : Prog F (Except ε α)} {k : α → Prog F (Except ε β)}
    {P' : α → β → Prop} (h : p.Decides A w P) (hk : ∀ a, P a → (k a).Decides A w (P' a)) :
    (p.andThen k).Decides A w fun b ↦ ∃ a, P a ∧ P' a b := by
  rw [Decides, Prog.andThen, wp_bind]
  refine wp_mono h fun r v hr ↦ ?_
  obtain ⟨rfl, hr⟩ := hr
  cases r with
  | error x =>
    refine decides_error x ?_
    rintro b ⟨a, ha, -⟩
    cases (hr a).mpr ha
  | ok a =>
    have ha : P a := (hr a).mp rfl
    refine (hk a ha).congr fun b ↦ ⟨fun hb ↦ ⟨a, ha, hb⟩, ?_⟩
    rintro ⟨a', ha', hb⟩
    rwa [Except.ok.inj ((hr a').mpr ha')]

theorem Decides.orReturn {p : Prog F (Except ε α)} {k : α → Prog F ε} {Q : ε → W → Prop}
    (h : p.Decides A w P) (herror : ∀ x, Q x w) (hok : ∀ a, P a → (k a).wp A Q w) :
    (p.orReturn k).wp A Q w := by
  refine wp_orReturn h (fun x v hr ↦ hr.1 ▸ herror x) fun a v hr ↦ ?_
  obtain ⟨rfl, hr⟩ := hr
  exact hok a ((hr a).mp rfl)

end Decides

/-! ## What a program can do, whatever the answers -/

/-- Every operation the program can issue satisfies `P`, and every value it can return satisfies
`Q`, for all answers the operations might give. -/
def Within (P : {β : Type} → F β → Prop) (Q : α → Prop) : Prog F α → Prop
  | done a => Q a
  | call op next => P op ∧ ∀ b, (next b).Within P Q

section Within

variable {P P' : {β : Type} → F β → Prop} {Q Q' : α → Prop}

@[simp] theorem within_done {a : α} : (done a : Prog F α).Within P Q ↔ Q a := Iff.rfl

@[simp] theorem within_pure {a : α} : (pure a : Prog F α).Within P Q ↔ Q a := Iff.rfl

@[simp] theorem within_call {op : F β} {next : β → Prog F α} :
    (call op next).Within P Q ↔ P op ∧ ∀ b, (next b).Within P Q := Iff.rfl

@[simp] theorem within_issue {op : F α} : (issue op).Within P Q ↔ P op ∧ ∀ b, Q b := Iff.rfl

@[simp] theorem within_bind {p : Prog F α} {f : α → Prog F β} {Q : β → Prop} :
    (p >>= f).Within P Q ↔ p.Within P fun a ↦ (f a).Within P Q := by
  induction p with
  | done a => rfl
  | call op next ih =>
    rw [call_bind, within_call, within_call]
    exact and_congr_right fun _ ↦ forall_congr' fun b ↦ ih b

@[simp] theorem within_map {p : Prog F α} {f : α → β} {Q : β → Prop} :
    (f <$> p).Within P Q ↔ p.Within P fun a ↦ Q (f a) := by
  rw [map_eq_pure_bind, within_bind]
  rfl

@[simp] theorem within_ite {c : Prop} [Decidable c] {p q : Prog F α} :
    (if c then p else q).Within P Q ↔ if c then p.Within P Q else q.Within P Q := by
  split <;> rfl

theorem Within.mono {p : Prog F α} (h : p.Within P Q) (hP : ∀ {β} (op : F β), P op → P' op)
    (hQ : ∀ a, Q a → Q' a) : p.Within P' Q' := by
  induction p with
  | done a => exact hQ a h
  | call op next ih => exact ⟨hP op h.1, fun b ↦ ih b (h.2 b)⟩

theorem Within.translate {G : Type → Type u} {f : {β : Type} → F β → G β}
    {P' : {β : Type} → G β → Prop} {p : Prog F α} (h : p.Within P Q)
    (hf : ∀ {β} (op : F β), P op → P' (f op)) : (p.translate f).Within P' Q := by
  induction p with
  | done a => exact h
  | call op next ih => exact ⟨hf op h.1, fun b ↦ ih b (h.2 b)⟩

theorem Within.run_value {p : Prog F α} (h : p.Within P Q) (env : ℕ → E) (w : W) :
    Q (p.run env w).1 := by
  induction p generalizing env w with
  | done a => exact h
  | call op next ih => exact ih _ (h.2 _) _ _

/-- **The frame rule.** A reflexive and transitive relation that every issued operation respects
relates the first state of a run to its last. -/
theorem Within.run_rel {p : Prog F α} (h : p.Within P Q) {R : W → W → Prop}
    (hrefl : ∀ w, R w w) (htrans : ∀ {u v w}, R u v → R v w → R u w)
    (hop : ∀ {β} (op : F β), P op → ∀ e w, R w (Interp.exec op e w).2) (env : ℕ → E) (w : W) :
    R w (p.run env w).2 := by
  induction p generalizing env w with
  | done a => exact hrefl w
  | call op next ih => exact htrans (hop op h.1 (env 0) w) (ih _ (h.2 _) _ _)

theorem Within.wp {p : Prog F α} (h : p.Within P Q) {R : W → W → Prop} {A : E → Prop}
    (hrefl : ∀ w, R w w) (htrans : ∀ {u v w}, R u v → R v w → R u w)
    (hop : ∀ {β} (op : F β), P op → ∀ e w, R w (Interp.exec op e w).2) (w : W) :
    p.wp A (fun a v ↦ Q a ∧ R w v) w := by
  induction p generalizing w with
  | done a => exact ⟨h, hrefl w⟩
  | call op next ih =>
    intro e _
    exact wp_mono (ih _ (h.2 _) _) fun a v hv ↦ ⟨hv.1, htrans (hop op h.1 e w) hv.2⟩

end Within

theorem within_true (p : Prog F α) : p.Within (fun _ ↦ True) fun _ ↦ True := by
  induction p with
  | done a => trivial
  | call op next ih => exact ⟨trivial, ih⟩

theorem run_invariant {I : W → Prop}
    (hop : ∀ {β} (op : F β) e w, I w → I (Interp.exec op e w).2) (p : Prog F α) (env : ℕ → E)
    {w : W} (h : I w) : I (p.run env w).2 :=
  (within_true p).run_rel (R := fun v v' ↦ I v → I v') (fun _ h ↦ h) (fun h h' ↦ h' ∘ h)
    (fun op _ ↦ hop op) env w h

/-! ## Two programs until an answer parts them -/

/-- The programs issue the same operations as long as no answer `asks`. `prior` tells whether the
last one did; an answer that asks is the last one before the first program returns, and then `Q`
looks at what the second one goes on with. -/
def KeepsStep (asks : {β : Type} → F β → β → Prop) :
    Prog F α → Prog F α → Prop → (Prop → α → Prog F α → Prop) → Prop
  | done a, q, prior, Q => Q prior a q
  | call op next, q, prior, Q => ¬ prior ∧ ∃ next', q = call op next' ∧
    ∀ b, (next b).KeepsStep asks (next' b) (asks op b) Q

/-- The first program stops exactly when it has been asked, and otherwise the second one has
returned the same. -/
def Parts (stop : α → Prop) (prior : Prop) (a : α) (q : Prog F α) : Prop :=
  (stop a ↔ prior) ∧ (¬ stop a → q = done a)

section KeepsStep

variable {asks : {β : Type} → F β → β → Prop} {prior : Prop} {p q : Prog F α} {stop : α → Prop}

theorem KeepsStep.mono {Q Q' : Prop → α → Prog F α → Prop} (h : p.KeepsStep asks q prior Q)
    (hQ : ∀ prior a q, Q prior a q → Q' prior a q) : p.KeepsStep asks q prior Q' := by
  induction p generalizing q prior with
  | done a => exact hQ prior a q h
  | call op next ih =>
    obtain ⟨hprior, next', hq, hnext⟩ := h
    exact ⟨hprior, next', hq, fun b ↦ ih b (hnext b)⟩

theorem keepsStep_bind {f g : α → Prog F β} {Q : Prop → β → Prog F β → Prop}
    (h : p.KeepsStep asks q prior fun prior a q ↦ (f a).KeepsStep asks (q >>= g) prior Q) :
    (p >>= f).KeepsStep asks (q >>= g) prior Q := by
  induction p generalizing q prior with
  | done a => exact h
  | call op next ih =>
    obtain ⟨hprior, next', rfl, hnext⟩ := h
    exact ⟨hprior, fun b ↦ next' b >>= g, rfl, fun b ↦ ih b (hnext b)⟩

theorem keepsStep_issue_bind {op : F γ} {f g : γ → Prog F β} {Q : Prop → β → Prog F β → Prop}
    (hprior : ¬ prior) (h : ∀ c, (f c).KeepsStep asks (g c) (asks op c) Q) :
    (issue op >>= f).KeepsStep asks (issue op >>= g) prior Q := ⟨hprior, g, rfl, h⟩

theorem Within.keepsStep {Q : α → Prop} (h : p.Within (fun op ↦ ∀ b, ¬ asks op b) Q)
    (hprior : ¬ prior) :
    p.KeepsStep asks p prior fun prior a q ↦ ¬ prior ∧ q = done a ∧ Q a := by
  induction p generalizing prior with
  | done a => exact ⟨hprior, rfl, h⟩
  | call op next ih => exact ⟨hprior, next, rfl, fun b ↦ ih b (h.2 b) (h.1 b)⟩

theorem Within.keepsStep_bind {Q : α → Prop} (h : p.Within (fun op ↦ ∀ b, ¬ asks op b) Q)
    (hprior : ¬ prior) {f g : α → Prog F β} {Q' : Prop → β → Prog F β → Prop}
    (hk : ∀ a prior, Q a → ¬ prior → (f a).KeepsStep asks (g a) prior Q') :
    (p >>= f).KeepsStep asks (p >>= g) prior Q' := by
  refine Prog.keepsStep_bind ((h.keepsStep hprior).mono ?_)
  rintro prior a _ ⟨hprior, rfl, ha⟩
  exact hk a prior ha hprior

theorem Within.keepsStep_parts (h : p.Within (fun op ↦ ∀ b, ¬ asks op b) fun a ↦ ¬ stop a)
    (hprior : ¬ prior) : p.KeepsStep asks p prior (Parts stop) := by
  refine (h.keepsStep hprior).mono ?_
  rintro prior a _ ⟨hprior, rfl, ha⟩
  exact ⟨iff_of_false ha hprior, fun _ ↦ rfl⟩

theorem KeepsStep.bind_parts {f g : α → Prog F β} {stop' : β → Prop}
    (h : p.KeepsStep asks q prior (Parts stop))
    (hstop : ∀ a, stop a → ∃ b, f a = done b ∧ stop' b)
    (hgo : ∀ a prior, ¬ stop a → ¬ prior → (f a).KeepsStep asks (g a) prior (Parts stop')) :
    (p >>= f).KeepsStep asks (q >>= g) prior (Parts stop') := by
  refine Prog.keepsStep_bind (h.mono fun prior a q' ha ↦ ?_)
  obtain ⟨hiff, hq'⟩ := ha
  by_cases hs : stop a
  · obtain ⟨b, hf, hb⟩ := hstop a hs
    rw [hf]
    exact ⟨iff_of_true hb (hiff.mp hs), fun hno ↦ absurd hb hno⟩
  · rw [hq' hs]
    exact hgo a prior hs fun hprior ↦ hs (hiff.mpr hprior)

theorem KeepsStep.ends_iff (h : p.KeepsStep asks q prior (Parts stop)) : p.Ends stop ↔ prior := by
  cases p with
  | done a => exact h.1
  | call op next => exact iff_of_false id h.1

/-- **Along a record**, either the first program has stopped or both are at the same point. -/
theorem KeepsStep.replay (h : p.KeepsStep asks q prior (Parts stop)) (record : List (E × W)) :
    (p.replay record).Ends stop ∨
      ∃ prior, (p.replay record).KeepsStep asks (q.replay record) prior (Parts stop) := by
  induction record generalizing p q prior with
  | nil =>
    rw [replay_nil, replay_nil]
    exact Or.inr ⟨prior, h⟩
  | cons r record ih =>
    cases p with
    | done a =>
      by_cases ha : stop a
      · exact Or.inl ha
      · rw [h.2 ha]
        exact Or.inr ⟨prior, h.1, fun _ ↦ rfl⟩
    | call op next =>
      obtain ⟨-, next', rfl, hnext⟩ := h
      exact ih (hnext _)

/-- The answer of the next operation decides whether the first program stops. -/
theorem KeepsStep.ends_replay_concat_iff (h : p.KeepsStep asks q prior (Parts stop))
    {record : List (E × W)} {op : F β} {next : β → Prog F α}
    (hcall : p.replay record = call op next) (e : E) (w : W) :
    (p.replay (record ++ [(e, w)])).Ends stop ↔ asks op (Interp.exec op e w).1 := by
  rw [replay_concat hcall]
  rcases h.replay record with hends | ⟨prior, hnext⟩
  · rw [hcall] at hends
    exact hends.elim
  · rw [hcall] at hnext
    obtain ⟨-, next', -, hnext⟩ := hnext
    exact (hnext _).ends_iff

end KeepsStep

/-! ## Programs that only read -/

section Reading

variable {A : E → Prop} {p : Prog F α} {v w : W} {a : α} {b : β}

/-- Whatever the admissible choices are, the program changes nothing and returns `a`. -/
def Returns (A : E → Prop) (p : Prog F α) (w : W) (a : α) : Prop :=
  p.wp A (fun r v ↦ v = w ∧ r = a) w

theorem returns_done (a : α) : (done a : Prog F α).Returns A w a := ⟨rfl, rfl⟩

theorem Returns.wp_bind {k : α → Prog F β} {Q : β → W → Prop} (h : p.Returns A w a)
    (hk : (k a).wp A Q w) : (p >>= k).wp A Q w := by
  refine Prog.wp_bind.mpr (wp_mono h fun r v hr ↦ ?_)
  obtain ⟨rfl, rfl⟩ := hr
  exact hk

theorem Returns.bind {k : α → Prog F β} (h : p.Returns A w a) (hk : (k a).Returns A w b) :
    (p >>= k).Returns A w b := h.wp_bind hk

theorem Returns.run (h : p.Returns A w a) (env : ℕ → E) (henv : ∀ n, A (env n)) :
    p.run env w = (a, w) := by
  obtain ⟨hw, ha⟩ := wp.run h env henv
  exact Prod.ext ha hw

theorem Decides.of_returns {p : Prog F (Except ε α)} {P : α → Prop} (h : p.Decides A w P)
    (hok : p.Returns A w (.ok a)) (hA : ∃ e, A e) : P a := by
  obtain ⟨e, he⟩ := hA
  have hrun := hok.run (fun _ ↦ e) fun _ ↦ he
  have hdecides := (wp.run h (fun _ ↦ e) fun _ ↦ he).2
  rw [hrun] at hdecides
  exact (hdecides a).mp rfl

/-- The program cannot tell `v` from `w`: it only reads, and returns the same value from both, one
of those that satisfy `P`. -/
def SameAnswer (A : E → Prop) (p : Prog F α) (v w : W) (P : α → Prop) : Prop :=
  ∃ a, p.Returns A v a ∧ p.Returns A w a ∧ P a

theorem sameAnswer_done {P : α → Prop} (h : P a) : (done a : Prog F α).SameAnswer A v w P :=
  ⟨a, returns_done a, returns_done a, h⟩

theorem SameAnswer.bind {k : α → Prog F β} {P : α → Prop} {Q : β → Prop}
    (h : p.SameAnswer A v w P) (hk : ∀ a, P a → (k a).SameAnswer A v w Q) :
    (p >>= k).SameAnswer A v w Q := by
  obtain ⟨a, hv, hw, ha⟩ := h
  obtain ⟨b, hv', hw', hb⟩ := hk a ha
  exact ⟨b, hv.bind hv', hw.bind hw', hb⟩

theorem SameAnswer.orReturn {p : Prog F (Except ε α)} {k : α → Prog F ε}
    {P : Except ε α → Prop} {Q : ε → Prop} (h : p.SameAnswer A v w P)
    (herror : ∀ x, P (.error x) → Q x) (hok : ∀ a, P (.ok a) → (k a).SameAnswer A v w Q) :
    (p.orReturn k).SameAnswer A v w Q := by
  refine h.bind fun r hr ↦ ?_
  cases r with
  | error x => exact sameAnswer_done (herror x hr)
  | ok a => exact hok a hr

theorem SameAnswer.andThen {p : Prog F (Except ε α)} {k : α → Prog F (Except ε β)}
    (h : p.SameAnswer A v w fun _ ↦ True)
    (hok : ∀ a, (k a).SameAnswer A v w fun _ ↦ True) :
    (p.andThen k).SameAnswer A v w fun _ ↦ True := by
  refine h.bind fun r _ ↦ ?_
  cases r with
  | error x => exact sameAnswer_done trivial
  | ok a => exact hok a

/-- **Two runs of a program that cannot tell their states apart** return the same value. -/
theorem SameAnswer.run_eq {P : α → Prop} (h : p.SameAnswer A v w P) (env env' : ℕ → E)
    (henv : ∀ n, A (env n)) (henv' : ∀ n, A (env' n)) :
    (p.run env v).1 = (p.run env' w).1 := by
  obtain ⟨a, hv, hw, -⟩ := h
  rw [hv.run env henv, hw.run env' henv']

end Reading

/-! ## How many operations a program takes -/

section Counting

variable {p : Prog F α} {w : W} {n m : ℕ} {a : α} {b : β}

/-- Whatever the choices are, the program changes nothing, and returns `a` after `n` operations. So
the choice that meets the next operation is known. -/
def ReturnsIn : Prog F α → W → ℕ → α → Prop
  | done b, _, n, a => n = 0 ∧ b = a
  | call op next, w, n, a => ∃ m, n = m + 1 ∧
    ∀ e, (Interp.exec op e w).2 = w ∧ (next (Interp.exec op e w).1).ReturnsIn w m a

theorem returnsIn_done (a : α) : (done a : Prog F α).ReturnsIn w 0 a := ⟨rfl, rfl⟩

theorem returnsIn_issue {op : F α} (h : ∀ e, Interp.exec op e w = (a, w)) :
    (issue op).ReturnsIn w 1 a := by
  refine ⟨0, rfl, fun e ↦ ?_⟩
  rw [h e]
  exact ⟨rfl, returnsIn_done a⟩

theorem ReturnsIn.bind {k : α → Prog F β} (h : p.ReturnsIn w n a) (hk : (k a).ReturnsIn w m b) :
    (p >>= k).ReturnsIn w (n + m) b := by
  induction p generalizing n with
  | done a' =>
    obtain ⟨rfl, rfl⟩ := h
    rwa [Nat.zero_add]
  | call op next ih =>
    obtain ⟨n, rfl, h⟩ := h
    exact ⟨n + m, Nat.succ_add n m, fun e ↦ ⟨(h e).1, ih _ (h e).2⟩⟩

theorem ReturnsIn.bind_done {k : α → Prog F β} (h : p.ReturnsIn w n a)
    (hk : (k a).ReturnsIn w 0 b) : (p >>= k).ReturnsIn w n b := h.bind hk

theorem ReturnsIn.run_bind (h : p.ReturnsIn w n a) (k : α → Prog F β) (env : ℕ → E) :
    (p >>= k).run env w = (k a).run (fun i ↦ env (i + n)) w := by
  induction p generalizing n env with
  | done a' =>
    obtain ⟨rfl, rfl⟩ := h
    rfl
  | call op next ih =>
    obtain ⟨n, rfl, h⟩ := h
    rw [call_bind, run_call, (h (env 0)).1, ih _ (h (env 0)).2]
    rfl

theorem ReturnsIn.run_orReturn_ok {p : Prog F (Except ε α)} (h : p.ReturnsIn w n (.ok a))
    (k : α → Prog F ε) (env : ℕ → E) :
    (p.orReturn k).run env w = (k a).run (fun i ↦ env (i + n)) w := h.run_bind _ env

theorem ReturnsIn.run_orReturn_error {p : Prog F (Except ε α)} {x : ε}
    (h : p.ReturnsIn w n (.error x)) (k : α → Prog F ε) (env : ℕ → E) :
    (p.orReturn k).run env w = (x, w) := h.run_bind _ env

end Counting

end Prog

end Interaction
