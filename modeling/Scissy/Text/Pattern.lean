import Mathlib.Data.List.Basic
import Mathlib.Tactic.Common

/-!
# Patterns with groups

Regular expressions over any characters, with groups that capture what they match, the way a matcher
that backtracks tries them: the first alternative before the second, and a repetition as long as it
can be before it is made shorter. `results` lists the matches of a pattern at the start of a text,
in the order of preference; `fullMatch` takes the first one that reaches the end, and `replaceFirst`
the first one.

## Matching without a choice

What a pattern matches at all does not depend on the order (`Matches`, `mem_results`). A matcher has
no choice where only one way to match is left, so a pattern whose groups are determined by the text
is matched by showing one match and that it is the only one (`fullMatch_eq_some_iff`). A matcher
that tries the ways in another order, or all at once, finds the same.

## Groups

A group in a part that does not take part in the match captures nothing, and neither does an
optional part that would match the empty text. So a match captures a list of options, one for each
group of the pattern, in the order in which the groups are opened. Repetitions are those of a class
of characters, which is all that is needed here; there is no group inside of one.
-/

/-- A pattern over characters of a type. -/
inductive Pattern (σ : Type) : Type
  | empty
  | one (cls : σ → Bool)
  | many (cls : σ → Bool)
  | seq (p q : Pattern σ)
  | alt (p q : Pattern σ)
  | opt (p : Pattern σ)
  | group (p : Pattern σ)

namespace Pattern

variable {σ : Type}

/-- What the groups have captured, in their order. -/
abbrev Captures (σ : Type) := List (Option (List σ))

/-- A given text. -/
def lit [DecidableEq σ] : List σ → Pattern σ
  | [] => empty
  | c :: cs => seq (one fun c' ↦ decide (c' = c)) (lit cs)

/-- One character of a class, or more. -/
def many1 (cls : σ → Bool) : Pattern σ := seq (one cls) (many cls)

/-- One of several texts, the first one preferred. -/
def oneOf [DecidableEq σ] (w : List σ) : List (List σ) → Pattern σ
  | [] => lit w
  | w' :: ws => alt (lit w) (oneOf w' ws)

/-- The number of groups. -/
def groups : Pattern σ → ℕ
  | empty | one _ | many _ => 0
  | seq p q | alt p q => p.groups + q.groups
  | opt p => p.groups
  | group p => p.groups + 1

/-- Groups that take no part. -/
def absent (p : Pattern σ) : Captures σ := List.replicate p.groups none

/-! ## Matching -/

/-- What is left after a repetition, the longest one first. -/
def manyRests (cls : σ → Bool) : List σ → List (List σ)
  | [] => [[]]
  | c :: cs => if cls c then manyRests cls cs ++ [c :: cs] else [c :: cs]

/-- The matches at the start of a text, the preferred ones first: what the groups capture, and what
is left. -/
def results : Pattern σ → List σ → List (Captures σ × List σ)
  | empty, s => [([], s)]
  | one _, [] => []
  | one cls, c :: s => if cls c then [([], s)] else []
  | many cls, s => (manyRests cls s).map ([], ·)
  | seq p q, s => (p.results s).flatMap fun a ↦ (q.results a.2).map fun b ↦ (a.1 ++ b.1, b.2)
  | alt p q, s =>
    ((p.results s).map fun a ↦ (a.1 ++ q.absent, a.2)) ++
      (q.results s).map fun b ↦ (p.absent ++ b.1, b.2)
  | opt p, s =>
    (p.results s).filter (fun a ↦ decide (a.2.length < s.length)) ++ [(p.absent, s)]
  | group p, s =>
    (p.results s).map fun a ↦ (some (s.take (s.length - a.2.length)) :: a.1, a.2)

/-- The match of a whole text. -/
def fullMatch (p : Pattern σ) (s : List σ) : Option (Captures σ) :=
  ((p.results s).find? (·.2.isEmpty)).map Prod.fst

/-- Replace the match at the start of a text, if there is one. -/
def replaceFirst (p : Pattern σ) (f : Captures σ → List σ) (s : List σ) : List σ :=
  match (p.results s).head? with
  | none => s
  | some a => f a.1 ++ a.2

/-! ## What is matched -/

/-- The pattern matches this text, and its groups capture this. -/
def Matches : Pattern σ → List σ → Captures σ → Prop
  | empty, w, a => w = [] ∧ a = []
  | one cls, w, a => ∃ c, cls c = true ∧ w = [c] ∧ a = []
  | many cls, w, a => (∀ c ∈ w, cls c = true) ∧ a = []
  | seq p q, w, a => ∃ u v b c, p.Matches u b ∧ q.Matches v c ∧ w = u ++ v ∧ a = b ++ c
  | alt p q, w, a =>
    (∃ b, p.Matches w b ∧ a = b ++ q.absent) ∨ ∃ c, q.Matches w c ∧ a = p.absent ++ c
  | opt p, w, a => w ≠ [] ∧ p.Matches w a ∨ w = [] ∧ a = p.absent
  | group p, w, a => ∃ b, p.Matches w b ∧ a = some w :: b

variable {cls : σ → Bool} {s w rest : List σ} {a : Captures σ} {p q : Pattern σ}

theorem mem_manyRests :
    rest ∈ manyRests cls s ↔ ∃ w, (∀ c ∈ w, cls c = true) ∧ s = w ++ rest := by
  induction s with
  | nil =>
    rw [manyRests, List.mem_singleton]
    constructor
    · rintro rfl
      exact ⟨[], List.forall_mem_nil _, rfl⟩
    · rintro ⟨w, -, hs⟩
      exact (List.append_eq_nil_iff.mp hs.symm).2
  | cons c s ih =>
    have hself : ∃ w : List σ, (∀ c ∈ w, cls c = true) ∧ c :: s = w ++ c :: s :=
      ⟨[], List.forall_mem_nil _, rfl⟩
    rw [manyRests]
    by_cases hc : cls c = true
    · rw [if_pos hc, List.mem_append, ih, List.mem_singleton]
      constructor
      · rintro (⟨w, hw, rfl⟩ | rfl)
        · exact ⟨c :: w, List.forall_mem_cons.mpr ⟨hc, hw⟩, rfl⟩
        · exact hself
      · rintro ⟨w, hw, hs⟩
        cases w with
        | nil => exact .inr hs.symm
        | cons c' w =>
          obtain ⟨rfl, rfl⟩ := List.cons_eq_cons.mp hs
          exact .inl ⟨w, (List.forall_mem_cons.mp hw).2, rfl⟩
    · rw [if_neg hc, List.mem_singleton]
      constructor
      · rintro rfl
        exact hself
      · rintro ⟨w, hw, hs⟩
        cases w with
        | nil => exact hs.symm
        | cons c' w =>
          obtain ⟨rfl, rfl⟩ := List.cons_eq_cons.mp hs
          exact absurd (hw c List.mem_cons_self) hc

/-- **The matches that are tried are the matches there are.** -/
theorem mem_results : (a, rest) ∈ p.results s ↔ ∃ w, p.Matches w a ∧ s = w ++ rest := by
  induction p generalizing s a rest with
  | empty =>
    rw [results, List.mem_singleton, Prod.mk.injEq]
    constructor
    · rintro ⟨rfl, rfl⟩
      exact ⟨[], ⟨rfl, rfl⟩, rfl⟩
    · rintro ⟨_, ⟨rfl, rfl⟩, rfl⟩
      exact ⟨rfl, rfl⟩
  | one cls =>
    constructor
    · intro h
      cases s with
      | nil => cases h
      | cons c s =>
        rw [results] at h
        by_cases hc : cls c = true
        · rw [if_pos hc, List.mem_singleton, Prod.mk.injEq] at h
          obtain ⟨rfl, rfl⟩ := h
          exact ⟨[c], ⟨c, hc, rfl, rfl⟩, rfl⟩
        · rw [if_neg hc] at h
          cases h
    · rintro ⟨_, ⟨c, hc, rfl, rfl⟩, rfl⟩
      rw [List.singleton_append, results, if_pos hc]
      exact List.mem_singleton_self _
  | many cls =>
    rw [results, List.mem_map]
    constructor
    · rintro ⟨r, hr, heq⟩
      obtain ⟨rfl, rfl⟩ := Prod.mk.inj heq
      obtain ⟨w, hw, hs⟩ := mem_manyRests.mp hr
      exact ⟨w, ⟨hw, rfl⟩, hs⟩
    · rintro ⟨w, ⟨hw, rfl⟩, hs⟩
      exact ⟨rest, mem_manyRests.mpr ⟨w, hw, hs⟩, rfl⟩
  | seq p q ihp ihq =>
    rw [results, List.mem_flatMap]
    constructor
    · rintro ⟨⟨b, r⟩, hp, hq⟩
      obtain ⟨⟨c, r'⟩, hr, heq⟩ := List.mem_map.mp hq
      obtain ⟨rfl, rfl⟩ := Prod.mk.inj heq
      obtain ⟨u, hu, rfl⟩ := ihp.mp hp
      obtain ⟨v, hv, rfl⟩ := ihq.mp hr
      exact ⟨u ++ v, ⟨u, v, b, c, hu, hv, rfl, rfl⟩, (List.append_assoc u v r').symm⟩
    · rintro ⟨_, ⟨u, v, b, c, hu, hv, rfl, rfl⟩, rfl⟩
      refine ⟨(b, v ++ rest), ihp.mpr ⟨u, hu, List.append_assoc u v rest⟩, ?_⟩
      exact List.mem_map.mpr ⟨(c, rest), ihq.mpr ⟨v, hv, rfl⟩, rfl⟩
  | alt p q ihp ihq =>
    rw [results, List.mem_append, List.mem_map, List.mem_map]
    constructor
    · rintro (⟨⟨b, r⟩, hp, heq⟩ | ⟨⟨c, r⟩, hq, heq⟩)
      · obtain ⟨rfl, rfl⟩ := Prod.mk.inj heq
        obtain ⟨w, hw, hs⟩ := ihp.mp hp
        exact ⟨w, .inl ⟨b, hw, rfl⟩, hs⟩
      · obtain ⟨rfl, rfl⟩ := Prod.mk.inj heq
        obtain ⟨w, hw, hs⟩ := ihq.mp hq
        exact ⟨w, .inr ⟨c, hw, rfl⟩, hs⟩
    · rintro ⟨w, ⟨b, hw, rfl⟩ | ⟨c, hw, rfl⟩, hs⟩
      · exact .inl ⟨(b, rest), ihp.mpr ⟨w, hw, hs⟩, rfl⟩
      · exact .inr ⟨(c, rest), ihq.mpr ⟨w, hw, hs⟩, rfl⟩
  | opt p ih =>
    rw [results, List.mem_append, List.mem_filter, List.mem_singleton, Prod.mk.injEq, ih,
      decide_eq_true_eq]
    constructor
    · rintro (⟨⟨w, hw, rfl⟩, hlt⟩ | ⟨rfl, rfl⟩)
      · refine ⟨w, .inl ⟨?_, hw⟩, rfl⟩
        rintro rfl
        exact Nat.lt_irrefl _ hlt
      · exact ⟨[], .inr ⟨rfl, rfl⟩, rfl⟩
    · rintro ⟨w, ⟨hne, hw⟩ | ⟨rfl, rfl⟩, rfl⟩
      · refine .inl ⟨⟨w, hw, rfl⟩, ?_⟩
        rw [List.length_append]
        exact Nat.lt_add_of_pos_left (List.length_pos_iff.mpr hne)
      · exact .inr ⟨rfl, rfl⟩
  | group p ih =>
    rw [results, List.mem_map]
    -- what is taken away from the text is what the inside matches
    have htake (w r : List σ) : (w ++ r).take ((w ++ r).length - r.length) = w := by
      rw [List.length_append, Nat.add_sub_cancel, List.take_left]
    constructor
    · rintro ⟨⟨b, r⟩, hp, heq⟩
      obtain ⟨rfl, rfl⟩ := Prod.mk.inj heq
      obtain ⟨w, hw, rfl⟩ := ih.mp hp
      refine ⟨w, ⟨b, hw, ?_⟩, rfl⟩
      rw [htake]
    · rintro ⟨w, ⟨b, hw, rfl⟩, rfl⟩
      refine ⟨(b, rest), ih.mpr ⟨w, hw, rfl⟩, ?_⟩
      rw [htake]

/-! ## Separators -/

theorem not_mem_of_class {c : σ} (h : ∀ c' ∈ s, cls c' = true) (hc : cls c = false) : c ∉ s :=
  fun hmem ↦ Bool.noConfusion ((h c hmem).symm.trans hc)

theorem append_cons_inj_of_not_mem {c : σ} {u u' v v' : List σ} (hu : c ∉ u) (hu' : c ∉ u')
    (h : u ++ c :: v = u' ++ c :: v') : u = u' ∧ v = v' := by
  induction u generalizing u' with
  | nil =>
    cases u' with
    | nil => exact ⟨rfl, (List.cons_eq_cons.mp h).2⟩
    | cons c' u' => exact absurd ((List.cons_eq_cons.mp h).1 ▸ List.mem_cons_self) hu'
  | cons c₁ u ih =>
    cases u' with
    | nil => exact absurd ((List.cons_eq_cons.mp h).1 ▸ List.mem_cons_self) hu
    | cons c' u' =>
      obtain ⟨rfl, htail⟩ := List.cons_eq_cons.mp h
      obtain ⟨rfl, hv⟩ := ih (fun hmem ↦ hu (List.mem_cons_of_mem c₁ hmem))
        (fun hmem ↦ hu' (List.mem_cons_of_mem c₁ hmem)) htail
      exact ⟨rfl, hv⟩

/-! ## Matching a whole text -/

theorem matches_of_fullMatch (h : p.fullMatch s = some a) : p.Matches s a := by
  obtain ⟨⟨b, rest⟩, hfind, rfl⟩ := Option.map_eq_some_iff.mp h
  have hnil := List.find?_some hfind
  obtain rfl : rest = [] := List.isEmpty_iff.mp hnil
  obtain ⟨w, hw, rfl⟩ := mem_results.mp (List.mem_of_find?_eq_some hfind)
  rwa [List.append_nil]

/-- There is a match of a text unless nothing matches it. -/
theorem fullMatch_eq_none_iff : p.fullMatch s = none ↔ ∀ a, ¬ p.Matches s a := by
  rw [fullMatch, Option.map_eq_none_iff, List.find?_eq_none]
  constructor
  · intro h a ha
    exact h (a, []) (mem_results.mpr ⟨s, ha, (List.append_nil s).symm⟩) rfl
  · rintro h ⟨a, rest⟩ hmem hnil
    obtain rfl : rest = [] := List.isEmpty_iff.mp hnil
    obtain ⟨w, hw, rfl⟩ := mem_results.mp hmem
    rw [List.append_nil] at h
    exact h a hw

/-- **Matching without a choice.** If the text determines what the groups capture, every match is
the one that is found. -/
theorem fullMatch_eq_some_iff (h : ∀ a b, p.Matches s a → p.Matches s b → a = b) :
    p.fullMatch s = some a ↔ p.Matches s a := by
  refine ⟨matches_of_fullMatch, fun ha ↦ ?_⟩
  cases hmatch : p.fullMatch s with
  | none => exact absurd ha (fullMatch_eq_none_iff.mp hmatch a)
  | some b => exact congrArg some (h b a (matches_of_fullMatch hmatch) ha)

/-! ## Common parts of patterns -/

variable [DecidableEq σ]

@[simp] theorem matches_lit {t : List σ} : (lit t).Matches w a ↔ w = t ∧ a = [] := by
  induction t generalizing w a with
  | nil => exact Iff.rfl
  | cons c t ih =>
    constructor
    · rintro ⟨u, v, b, b', ⟨c', hc, rfl, rfl⟩, hv, rfl, rfl⟩
      obtain ⟨rfl, rfl⟩ := ih.mp hv
      rw [of_decide_eq_true hc]
      exact ⟨rfl, rfl⟩
    · rintro ⟨rfl, rfl⟩
      exact ⟨[c], t, [], [], ⟨c, decide_eq_true rfl, rfl, rfl⟩, ih.mpr ⟨rfl, rfl⟩, rfl, rfl⟩

omit [DecidableEq σ] in
@[simp] theorem matches_many1 :
    (many1 cls).Matches w a ↔ (w ≠ [] ∧ ∀ c ∈ w, cls c = true) ∧ a = [] := by
  constructor
  · rintro ⟨u, v, b, b', ⟨c, hc, rfl, rfl⟩, ⟨hv, rfl⟩, rfl, rfl⟩
    exact ⟨⟨List.cons_ne_nil c v, List.forall_mem_cons.mpr ⟨hc, hv⟩⟩, rfl⟩
  · rintro ⟨⟨hne, hw⟩, rfl⟩
    obtain ⟨c, v, rfl⟩ := List.exists_cons_of_ne_nil hne
    obtain ⟨hc, hv⟩ := List.forall_mem_cons.mp hw
    exact ⟨[c], v, [], [], ⟨c, hc, rfl, rfl⟩, ⟨hv, rfl⟩, rfl, rfl⟩

theorem matches_lit_seq {t : List σ} :
    (seq (lit t) q).Matches w a ↔ ∃ v, q.Matches v a ∧ w = t ++ v := by
  constructor
  · rintro ⟨u, v, b, c, hu, hv, rfl, rfl⟩
    obtain ⟨rfl, rfl⟩ := matches_lit.mp hu
    exact ⟨v, hv, rfl⟩
  · rintro ⟨v, hv, rfl⟩
    exact ⟨t, v, [], a, matches_lit.mpr ⟨rfl, rfl⟩, hv, rfl, rfl⟩

omit [DecidableEq σ] in
theorem matches_many1_seq :
    (seq (group (many1 cls)) q).Matches w a ↔
      ∃ u v c, (u ≠ [] ∧ ∀ x ∈ u, cls x = true) ∧ q.Matches v c ∧ w = u ++ v ∧ a = some u :: c := by
  constructor
  · rintro ⟨u, v, b, c, ⟨b', hu, rfl⟩, hv, rfl, rfl⟩
    obtain ⟨hclass, rfl⟩ := matches_many1.mp hu
    exact ⟨u, v, c, hclass, hv, rfl, rfl⟩
  · rintro ⟨u, v, c, hu, hv, rfl, rfl⟩
    exact ⟨u, v, [some u], c, ⟨[], matches_many1.mpr ⟨hu, rfl⟩, rfl⟩, hv, rfl, rfl⟩

theorem groups_lit (t : List σ) : (lit t).groups = 0 := by
  induction t with
  | nil => rfl
  | cons c t ih => rw [lit, groups, groups, ih]

theorem groups_oneOf (t : List σ) (ts : List (List σ)) : (oneOf t ts).groups = 0 := by
  induction ts generalizing t with
  | nil => exact groups_lit t
  | cons t' ts ih => rw [oneOf, groups, groups_lit, ih]

theorem absent_lit (t : List σ) : (lit t).absent = [] := by
  rw [absent, groups_lit]
  rfl

theorem absent_oneOf (t : List σ) (ts : List (List σ)) : (oneOf t ts).absent = [] := by
  rw [absent, groups_oneOf]
  rfl

@[simp] theorem matches_oneOf {t : List σ} {ts : List (List σ)} :
    (oneOf t ts).Matches w a ↔ w ∈ t :: ts ∧ a = [] := by
  induction ts generalizing t a with
  | nil => rw [oneOf, matches_lit, List.mem_singleton]
  | cons t' ts ih =>
    rw [List.mem_cons]
    constructor
    · rintro (⟨b, hb, rfl⟩ | ⟨c, hc, rfl⟩)
      · obtain ⟨rfl, rfl⟩ := matches_lit.mp hb
        exact ⟨.inl rfl, absent_oneOf t' ts⟩
      · obtain ⟨hw, rfl⟩ := ih.mp hc
        exact ⟨.inr hw, by rw [absent_lit]; rfl⟩
    · rintro ⟨rfl | hw, rfl⟩
      · exact .inl ⟨[], matches_lit.mpr ⟨rfl, rfl⟩, (absent_oneOf t' ts).symm⟩
      · exact .inr ⟨[], ih.mpr ⟨hw, rfl⟩, by rw [absent_lit]; rfl⟩

theorem replaceFirst_lit_group {t : List σ} {f : Captures σ → List σ}
    (hf : ∀ v b, f (some v :: b) = v) (hp : p.Matches [] a) :
    (seq (lit t) (group p)).replaceFirst f (t ++ s) = s := by
  have hmem : (some [] :: a, s) ∈ (seq (lit t) (group p)).results (t ++ s) :=
    mem_results.mpr ⟨t ++ [], matches_lit_seq.mpr ⟨[], ⟨a, hp, rfl⟩, rfl⟩, by rw [List.append_nil]⟩
  rw [replaceFirst]
  cases hhead : ((seq (lit t) (group p)).results (t ++ s)).head? with
  | none => exact absurd (List.head?_eq_none_iff.mp hhead) (List.ne_nil_of_mem hmem)
  | some r =>
    obtain ⟨w, hw, hs⟩ := mem_results.mp (List.mem_of_head? hhead)
    obtain ⟨v, ⟨b, -, hr⟩, rfl⟩ := matches_lit_seq.mp hw
    rw [List.append_assoc] at hs
    have hgroup : f r.1 = v := by rw [hr, hf]
    change f r.1 ++ r.2 = s
    rw [hgroup]
    exact (List.append_cancel_left hs).symm

end Pattern
