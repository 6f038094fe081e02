import Mathlib.Data.List.Basic
import Mathlib.Order.MinMax
import Mathlib.Order.BoundedOrder.Basic
import Mathlib.Tactic.Common

/-!
# Roles through groups

A subject holds a role on an object directly, or by way of a group: the group has a role on the
object and the subject has a role in the group, and the weaker of the two is what the path is
worth. Roles are a linear order whose least element means no role at all.

`Policy.Grants` is the question a gate asks: is somebody at least an `r`? An implementation may
consider only some of the paths, so the question takes the relation `counts` between the two roles
of a path that counts. The role of a subject is then determined by the answers (`Policy.IsRole`),
and every comparison of roles, across policies or across the paths that count, is a comparison of
grants.

## Why the grants come first

A role could be defined as a maximum over the paths. Then one would need the paths to be finitely
many, and each fact about roles would be a fact about a maximum. `Grants` is monotone in the policy
and in `counts`, by one case analysis each, and says what a new fact of the policy changes. The role
is a name for all the answers together, and an implementation has to show no more than that what it
computes answers alike.
-/

namespace Authority

variable {O S G L : Type} [LinearOrder L]

/-! ## The strongest of several roles -/

section Strongest

variable [OrderBot L]

/-- The strongest of a list of roles; no role if the list is empty. -/
def strongest (roles : List L) : L := roles.foldr max ⊥

theorem le_strongest_iff {r : L} (hr : ⊥ < r) {roles : List L} :
    r ≤ strongest roles ↔ ∃ a ∈ roles, r ≤ a := by
  induction roles with
  | nil => simpa [strongest] using hr.ne'
  | cons a roles ih =>
    rw [strongest, List.foldr_cons, ← strongest, le_max_iff, ih, List.exists_mem_cons_iff]

theorem eq_of_forall_le_iff {a b : L} (h : ∀ r, ⊥ < r → (r ≤ a ↔ r ≤ b)) : a = b := by
  have key : ∀ {a b : L}, (∀ r, ⊥ < r → (r ≤ a → r ≤ b)) → a ≤ b := by
    intro a b h
    rcases bot_le.eq_or_lt (a := (⊥ : L)) (b := a) with ha | ha
    · rw [← ha]
      exact bot_le
    · exact h a ha le_rfl
  exact le_antisymm (key fun r hr ↦ (h r hr).mp) (key fun r hr ↦ (h r hr).mpr)

end Strongest

/-! ## Policies -/

/-- Who has which role on what, and in which group. -/
structure Policy (O S G L : Type) where
  direct : O → S → L → Prop
  onGroup : O → G → L → Prop
  member : G → S → L → Prop

namespace Policy

variable {p q : Policy O S G L} {counts counts' : L → L → Prop} {o : O} {s : S} {r r' a b : L}

/-- `s` is at least an `r` on `o`: directly, or along a path whose two roles `counts` accepts. -/
def Grants (p : Policy O S G L) (counts : L → L → Prop) (o : O) (s : S) (r : L) : Prop :=
  (∃ a, p.direct o s a ∧ r ≤ a) ∨
    ∃ g a b, p.onGroup o g a ∧ p.member g s b ∧ counts a b ∧ r ≤ min a b

/-- Every fact of `p` is one of `q`. -/
structure Sub (p q : Policy O S G L) : Prop where
  direct : ∀ {o s a}, p.direct o s a → q.direct o s a
  onGroup : ∀ {o g a}, p.onGroup o g a → q.onGroup o g a
  member : ∀ {g s a}, p.member g s a → q.member g s a

omit [LinearOrder L] in
theorem Sub.refl (p : Policy O S G L) : p.Sub p := ⟨id, id, id⟩

omit [LinearOrder L] in
theorem Sub.trans {p₁ p₂ p₃ : Policy O S G L} (h : p₁.Sub p₂) (h' : p₂.Sub p₃) : p₁.Sub p₃ :=
  ⟨h'.direct ∘ h.direct, h'.onGroup ∘ h.onGroup, h'.member ∘ h.member⟩

theorem Grants.anti (h : p.Grants counts o s r) (hr : r' ≤ r) : p.Grants counts o s r' := by
  rcases h with ⟨a, ha, hra⟩ | ⟨g, a, b, ha, hb, hab, hrab⟩
  · exact Or.inl ⟨a, ha, hr.trans hra⟩
  · exact Or.inr ⟨g, a, b, ha, hb, hab, hr.trans hrab⟩

theorem Grants.mono (h : p.Grants counts o s r) (hpq : p.Sub q) : q.Grants counts o s r := by
  rcases h with ⟨a, ha, hra⟩ | ⟨g, a, b, ha, hb, hab, hrab⟩
  · exact Or.inl ⟨a, hpq.direct ha, hra⟩
  · exact Or.inr ⟨g, a, b, hpq.onGroup ha, hpq.member hb, hab, hrab⟩

/-- With more paths that count, more is granted. -/
theorem Grants.imp (h : p.Grants counts o s r) (hcounts : ∀ {a b}, counts a b → counts' a b) :
    p.Grants counts' o s r := by
  rcases h with ⟨a, ha, hra⟩ | ⟨g, a, b, ha, hb, hab, hrab⟩
  · exact Or.inl ⟨a, ha, hra⟩
  · exact Or.inr ⟨g, a, b, ha, hb, hcounts hab, hrab⟩

/-! ## Adding one fact -/

/-- `p` with one more direct role. -/
def addDirect (p : Policy O S G L) (o : O) (s : S) (a : L) : Policy O S G L :=
  { p with direct := fun o' s' a' ↦ p.direct o' s' a' ∨ (o' = o ∧ s' = s ∧ a' = a) }

/-- `p` with one more role of a group on an object. -/
def addOnGroup (p : Policy O S G L) (o : O) (g : G) (a : L) : Policy O S G L :=
  { p with onGroup := fun o' g' a' ↦ p.onGroup o' g' a' ∨ (o' = o ∧ g' = g ∧ a' = a) }

/-- `p` with one more member of a group. -/
def addMember (p : Policy O S G L) (g : G) (s : S) (a : L) : Policy O S G L :=
  { p with member := fun g' s' a' ↦ p.member g' s' a' ∨ (g' = g ∧ s' = s ∧ a' = a) }

theorem grants_addDirect {o' : O} {s' : S}
    (h : (p.addDirect o s a).Grants counts o' s' r) : p.Grants counts o' s' r ∨ o' = o := by
  rcases h with ⟨x, hx | ⟨rfl, -, -⟩, hrx⟩ | hpath
  · exact Or.inl (Or.inl ⟨x, hx, hrx⟩)
  · exact Or.inr rfl
  · exact Or.inl (Or.inr hpath)

theorem grants_addOnGroup {o' : O} {s' : S} {g : G}
    (h : (p.addOnGroup o g a).Grants counts o' s' r) : p.Grants counts o' s' r ∨ o' = o := by
  rcases h with hdirect | ⟨g', x, y, hx | ⟨rfl, -, -⟩, hy, hxy, hr⟩
  · exact Or.inl (Or.inl hdirect)
  · exact Or.inl (Or.inr ⟨g', x, y, hx, hy, hxy, hr⟩)
  · exact Or.inr rfl

/-- A new member gains at most what the group has. -/
theorem grants_addMember {s' : S} {g : G} (h : (p.addMember g s a).Grants counts o s' r) :
    p.Grants counts o s' r ∨ (s' = s ∧ ∃ x, p.onGroup o g x ∧ r ≤ x) := by
  rcases h with hdirect | ⟨g', x, y, hx, hy | ⟨rfl, rfl, rfl⟩, hxy, hr⟩
  · exact Or.inl (Or.inl hdirect)
  · exact Or.inl (Or.inr ⟨g', x, y, hx, hy, hxy, hr⟩)
  · exact Or.inr ⟨rfl, x, hx, hr.trans (min_le_left _ _)⟩

/-! ## The role of a subject -/

section IsRole

variable [OrderBot L]

/-- `a` is the role of `s` on `o`. -/
def IsRole (p : Policy O S G L) (counts : L → L → Prop) (o : O) (s : S) (a : L) : Prop :=
  ∀ r, ⊥ < r → (r ≤ a ↔ p.Grants counts o s r)

theorem IsRole.eq (h : p.IsRole counts o s a) (h' : p.IsRole counts o s b) : a = b :=
  eq_of_forall_le_iff fun r hr ↦ (h r hr).trans (h' r hr).symm

theorem isRole_bot (h : ∀ r, ⊥ < r → ¬ p.Grants counts o s r) : p.IsRole counts o s ⊥ :=
  fun r hr ↦ iff_of_false hr.not_ge (h r hr)

/-- A role on an object depends on what the policies say about that object only. -/
theorem IsRole.eq_of_agree (h : p.IsRole counts o s a) (h' : q.IsRole counts o s b)
    (hdirect : p.direct o s = q.direct o s) (hgroup : p.onGroup o = q.onGroup o)
    (hmember : p.member = q.member) : a = b := by
  refine h.eq fun r hr ↦ (h' r hr).trans ?_
  rw [Grants, Grants, hdirect, hgroup, hmember]

theorem IsRole.le (h : p.IsRole counts o s a) (h' : q.IsRole counts' o s b)
    (himp : ⊥ < a → p.Grants counts o s a → q.Grants counts' o s a) : a ≤ b := by
  rcases bot_le.eq_or_lt (a := (⊥ : L)) (b := a) with ha | ha
  · rw [← ha]
    exact bot_le
  · exact (h' a ha).mpr (himp ha ((h a ha).mp le_rfl))

/-- A role that has grown to `b` was granted by something new. -/
theorem IsRole.grants_of_lt (h : p.IsRole counts o s a) (h' : q.IsRole counts o s b) (hlt : a < b) :
    q.Grants counts o s b ∧ ¬ p.Grants counts o s b := by
  have hb : ⊥ < b := bot_le.trans_lt hlt
  exact ⟨(h' b hb).mp le_rfl, fun hp ↦ hlt.not_ge ((h b hb).mpr hp)⟩

/-- **When leaving out paths is harmless.** The role over the paths that count is the role over
all of them exactly when every path left out is worth nothing or no more than something kept. -/
theorem IsRole.eq_iff (h : p.IsRole counts o s a) (h' : p.IsRole (fun _ _ ↦ True) o s b) :
    a = b ↔ ∀ g x y, p.onGroup o g x → p.member g s y → ¬ counts x y →
      min x y = ⊥ ∨ p.Grants counts o s (min x y) := by
  constructor
  · rintro rfl g x y hx hy -
    rcases bot_le.eq_or_lt (a := (⊥ : L)) (b := min x y) with hbot | hpos
    · exact Or.inl hbot.symm
    · refine Or.inr ((h _ hpos).mp ((h' _ hpos).mpr (Or.inr ⟨g, x, y, hx, hy, trivial, le_rfl⟩)))
  · intro hpaths
    refine le_antisymm (h.le h' fun _ hg ↦ hg.imp fun _ ↦ trivial) (h'.le h fun hb hg ↦ ?_)
    rcases hg with ⟨x, hx, hbx⟩ | ⟨g, x, y, hx, hy, -, hb'⟩
    · exact Or.inl ⟨x, hx, hbx⟩
    · by_cases hxy : counts x y
      · exact Or.inr ⟨g, x, y, hx, hy, hxy, hb'⟩
      · rcases hpaths g x y hx hy hxy with hmin | hmin
        · exact absurd (hb'.trans hmin.le) hb.not_ge
        · exact hmin.anti hb'

end IsRole

end Policy

end Authority
