import Mathlib.Data.Set.Basic
import Mathlib.Tactic.Common

/-!
# Changes of memberships

Groups and links between things, as sets. A link is identified by its key; some links are about a
group, and a group that is deleted takes the links about it along. `Change.apply` says what a
statement does to such a graph: a link whose key is taken, or which is about a group that is not
there, is not added.

Two changes commute unless they clash (`apply_comm`): they add or remove the same link, or one
inserts the group that the other is about. In particular a deletion commutes with everything that
happens to the links of the group, since it undoes or prevents it.

A link is lost by its removal or with its group (`mem_links_apply`), and nothing happens to a group
that does not exist (`apply_of_not_hasGroup`).

## Representation

A graph is two sets, so two graphs are equal when they have the same elements: the order of rows in
a table is no part of it. What a link refers to, other than groups, is a parameter (`Schema`), since
no change alters it.
-/

namespace Authority

/-- A link of some kind, with a role. -/
structure Link (κ ι ρ : Type) where
  kind : κ
  left : ι
  right : ι
  role : ρ

variable {κ ι ρ ν : Type}

def Link.key (l : Link κ ι ρ) : κ × ι × ι := (l.kind, l.left, l.right)

/-- Groups and links. -/
@[ext]
structure Graph (κ ι ρ ν : Type) where
  groups : Set (ι × ν)
  links : Set (Link κ ι ρ)

/-- What a link refers to. -/
structure Schema (κ ι ρ : Type) where
  /-- The links with this key are about the group. -/
  about : κ × ι × ι → ι → Prop
  /-- What else the link refers to exists. -/
  sound : Link κ ι ρ → Prop

namespace Graph

/-- The group exists. -/
def HasGroup (G : Graph κ ι ρ ν) (g : ι) : Prop := ∃ a, (g, a) ∈ G.groups

/-- Every link is about groups that exist. -/
def Closed (σ : Schema κ ι ρ) (G : Graph κ ι ρ ν) : Prop :=
  ∀ l ∈ G.links, ∀ g, σ.about l.key g → G.HasGroup g

/-- The graph takes the link. -/
def Takes (σ : Schema κ ι ρ) (G : Graph κ ι ρ ν) (l : Link κ ι ρ) : Prop :=
  σ.sound l ∧ (∀ g, σ.about l.key g → G.HasGroup g) ∧ ∀ x ∈ G.links, x.key ≠ l.key

end Graph

/-- A change of a graph. -/
inductive Change (κ ι ρ ν : Type)
  | insert (a : ι × ν)
  | add (l : Link κ ι ρ)
  | remove (k : κ × ι × ι)
  | delete (g : ι)

namespace Change

/-- What a change does. -/
def apply (σ : Schema κ ι ρ) (G : Graph κ ι ρ ν) : Change κ ι ρ ν → Graph κ ι ρ ν
  | insert a => { G with groups := {x | x ∈ G.groups ∨ x = a} }
  | add l => { G with links := {x | x ∈ G.links ∨ x = l ∧ G.Takes σ l} }
  | remove k => { G with links := {x | x ∈ G.links ∧ x.key ≠ k} }
  | delete g => ⟨{x | x ∈ G.groups ∧ x.1 ≠ g}, {x | x ∈ G.links ∧ ¬ σ.about x.key g}⟩

/-- The order of the two changes matters. -/
def Clash (σ : Schema κ ι ρ) : Change κ ι ρ ν → Change κ ι ρ ν → Prop
  | insert a, add l => σ.about l.key a.1
  | insert a, delete g => a.1 = g
  | add l, add l' => l.key = l'.key
  | add l, remove k => l.key = k
  | _, _ => False

/-- The change is about a group that should exist. -/
def About (σ : Schema κ ι ρ) (g : ι) : Change κ ι ρ ν → Prop
  | insert _ => False
  | add l => σ.about l.key g
  | remove k => σ.about k g
  | delete g' => g' = g

section Laws

variable {σ : Schema κ ι ρ} {G : Graph κ ι ρ ν} {c c' : Change κ ι ρ ν} {g : ι}

theorem hasGroup_delete {g' : ι} :
    ((delete g').apply σ G).HasGroup g ↔ G.HasGroup g ∧ g ≠ g' := by
  simp only [Graph.HasGroup, apply, Set.mem_ofPred_eq, exists_and_right]

theorem hasGroup_insert {a : ι × ν} (h : G.HasGroup g) : ((insert a).apply σ G).HasGroup g := by
  obtain ⟨b, hb⟩ := h
  exact ⟨b, Or.inl hb⟩

theorem hasGroup_insert_of_ne {a : ι × ν} (hg : a.1 ≠ g) :
    ((insert a).apply σ G).HasGroup g ↔ G.HasGroup g := by
  refine ⟨?_, hasGroup_insert⟩
  rintro ⟨b, hb | rfl⟩
  · exact ⟨b, hb⟩
  · exact absurd rfl hg

theorem delete_add_comm (l : Link κ ι ρ) :
    (delete g).apply σ ((add l).apply σ G) = (add l).apply σ ((delete g).apply σ G) := by
  ext x
  · rfl
  · by_cases hl : σ.about l.key g
    · -- the link is deleted again, or refused
      simp only [apply, Graph.Takes, Set.mem_ofPred_eq]
      constructor
      · rintro ⟨hx | ⟨rfl, -⟩, hg⟩
        · exact Or.inl ⟨hx, hg⟩
        · exact absurd hl hg
      · rintro (⟨hx, hg⟩ | ⟨rfl, -, hgroups, -⟩)
        · exact ⟨Or.inl hx, hg⟩
        · obtain ⟨a, -, hne⟩ := hgroups g hl
          exact absurd rfl hne
    · have htakes : ((delete g).apply σ G).Takes σ l ↔ G.Takes σ l := by
        refine and_congr_right fun _ ↦ and_congr ?_ ?_
        · refine forall₂_congr fun g' hg' ↦ hasGroup_delete.trans (and_iff_left ?_)
          rintro rfl
          exact hl hg'
        · refine ⟨fun h x hx hkey ↦ ?_, fun h x hx ↦ h x hx.1⟩
          exact h x ⟨hx, hkey ▸ hl⟩ hkey
      simp only [apply, Set.mem_ofPred_eq]
      constructor
      · rintro ⟨hx | ⟨rfl, ht⟩, hg⟩
        · exact Or.inl ⟨hx, hg⟩
        · exact Or.inr ⟨rfl, htakes.mpr ht⟩
      · rintro (⟨hx, hg⟩ | ⟨rfl, ht⟩)
        · exact ⟨Or.inl hx, hg⟩
        · exact ⟨Or.inr ⟨rfl, htakes.mp ht⟩, hl⟩

theorem remove_add_comm {l : Link κ ι ρ} {k : κ × ι × ι} (hk : l.key ≠ k) :
    (remove k).apply σ ((add l).apply σ G) = (add l).apply σ ((remove k).apply σ G) := by
  have htakes : ((remove k).apply σ G).Takes σ l ↔ G.Takes σ l := by
    refine and_congr_right fun _ ↦ and_congr_right fun _ ↦ ?_
    refine ⟨fun h x hx hkey ↦ h x ⟨hx, hkey ▸ hk⟩ hkey, fun h x hx ↦ h x hx.1⟩
  ext x
  · rfl
  · simp only [apply, Set.mem_ofPred_eq]
    constructor
    · rintro ⟨hx | ⟨rfl, ht⟩, hg⟩
      · exact Or.inl ⟨hx, hg⟩
      · exact Or.inr ⟨rfl, htakes.mpr ht⟩
    · rintro (⟨hx, hg⟩ | ⟨rfl, ht⟩)
      · exact ⟨Or.inl hx, hg⟩
      · exact ⟨Or.inr ⟨rfl, htakes.mp ht⟩, hk⟩

theorem takes_add_iff {l l' : Link κ ι ρ} (hl : l.key ≠ l'.key) :
    ((add l).apply σ G).Takes σ l' ↔ G.Takes σ l' := by
  refine and_congr_right fun _ ↦ and_congr_right fun _ ↦ ?_
  refine ⟨fun h x hx ↦ h x (Or.inl hx), fun h x hx ↦ ?_⟩
  rcases hx with hx | ⟨rfl, -⟩
  · exact h x hx
  · exact hl

theorem add_add_comm {l l' : Link κ ι ρ} (hl : l.key ≠ l'.key) :
    (add l).apply σ ((add l').apply σ G) = (add l').apply σ ((add l).apply σ G) := by
  ext x
  · rfl
  · change (x ∈ G.links ∨ x = l' ∧ G.Takes σ l') ∨ x = l ∧ ((add l').apply σ G).Takes σ l ↔
      (x ∈ G.links ∨ x = l ∧ G.Takes σ l) ∨ x = l' ∧ ((add l).apply σ G).Takes σ l'
    rw [takes_add_iff hl, takes_add_iff hl.symm]
    exact or_right_comm

theorem insert_add_comm {a : ι × ν} {l : Link κ ι ρ} (ha : ¬ σ.about l.key a.1) :
    (insert a).apply σ ((add l).apply σ G) = (add l).apply σ ((insert a).apply σ G) := by
  have htakes : ((insert a).apply σ G).Takes σ l ↔ G.Takes σ l := by
    refine and_congr_right fun _ ↦ and_congr_left fun _ ↦ forall₂_congr fun g hg ↦ ?_
    refine hasGroup_insert_of_ne ?_
    rintro rfl
    exact ha hg
  ext x
  · rfl
  · exact or_congr_right (and_congr_right fun _ ↦ htakes.symm)

theorem insert_delete_comm {a : ι × ν} (ha : a.1 ≠ g) :
    (insert a).apply σ ((delete g).apply σ G) = (delete g).apply σ ((insert a).apply σ G) := by
  ext x
  · simp only [apply, Set.mem_ofPred_eq]
    constructor
    · rintro (⟨hx, hg⟩ | rfl)
      · exact ⟨Or.inl hx, hg⟩
      · exact ⟨Or.inr rfl, ha⟩
    · rintro ⟨hx | rfl, hg⟩
      · exact Or.inl ⟨hx, hg⟩
      · exact Or.inr rfl
  · rfl

/-- **Changes that do not clash commute.** -/
theorem apply_comm (h : ¬ Clash σ c c') (h' : ¬ Clash σ c' c) :
    c.apply σ (c'.apply σ G) = c'.apply σ (c.apply σ G) := by
  cases c with
  | insert a =>
    cases c' with
    | insert a' =>
      ext x
      · exact or_right_comm
      · rfl
    | add l => exact insert_add_comm h
    | remove k => rfl
    | delete g => exact insert_delete_comm h
  | add l =>
    cases c' with
    | insert a => exact (insert_add_comm h').symm
    | add l' => exact add_add_comm h
    | remove k => exact (remove_add_comm h).symm
    | delete g => exact (delete_add_comm l).symm
  | remove k =>
    cases c' with
    | insert a => rfl
    | add l => exact remove_add_comm h'
    | remove k' =>
      ext x
      · rfl
      · exact and_right_comm
    | delete g =>
      ext x
      · rfl
      · exact and_right_comm
  | delete g =>
    cases c' with
    | insert a => exact (insert_delete_comm h').symm
    | add l => exact delete_add_comm l
    | remove k =>
      ext x
      · rfl
      · exact and_right_comm
    | delete g' =>
      ext x
      · exact and_right_comm
      · exact and_right_comm

/-! ### What a change leaves alone -/

theorem apply_add_of_not_takes {l : Link κ ι ρ} (h : ¬ G.Takes σ l) : (add l).apply σ G = G := by
  ext x
  · rfl
  · exact or_iff_left fun hx ↦ h hx.2

theorem apply_of_not_hasGroup (hG : G.Closed σ) (hc : c.About σ g) (hg : ¬ G.HasGroup g) :
    c.apply σ G = G := by
  have hlinks {x : Link κ ι ρ} (hx : x ∈ G.links) : ¬ σ.about x.key g := fun h ↦ hg (hG x hx g h)
  cases c with
  | insert a => exact hc.elim
  | add l => exact apply_add_of_not_takes fun htakes ↦ hg (htakes.2.1 g hc)
  | remove k =>
    ext x
    · rfl
    · refine and_iff_left_of_imp fun hx hkey ↦ hlinks hx ?_
      rw [hkey]
      exact hc
  | delete g' =>
    obtain rfl : g' = g := hc
    ext x
    · refine and_iff_left_of_imp fun hx heq ↦ hg ⟨x.2, ?_⟩
      rw [← heq]
      exact hx
    · exact and_iff_left_of_imp hlinks

/-- A link is lost by its removal or by the deletion of a group it is about. -/
theorem mem_links_apply {x : Link κ ι ρ} (hx : x ∈ G.links) :
    x ∈ (c.apply σ G).links ∨ c = remove x.key ∨ ∃ g, c = delete g ∧ σ.about x.key g := by
  cases c with
  | insert a => exact Or.inl hx
  | add l => exact Or.inl (Or.inl hx)
  | remove k =>
    by_cases hk : x.key = k
    · exact Or.inr (Or.inl (hk ▸ rfl))
    · exact Or.inl ⟨hx, hk⟩
  | delete g =>
    by_cases hg : σ.about x.key g
    · exact Or.inr (Or.inr ⟨g, rfl, hg⟩)
    · exact Or.inl ⟨hx, hg⟩

end Laws

end Change

end Authority
