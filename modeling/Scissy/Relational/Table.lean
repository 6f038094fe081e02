import Mathlib.Algebra.Order.Group.Int
import Mathlib.Data.List.Nodup
import Mathlib.Data.List.Basic
import Mathlib.Data.List.Forall2
import Mathlib.Tactic.Common

/-!
# Keyed tables

The two kinds of table a relational schema is usually made of, as lists of rows in insertion
order. Both carry their primary key as a field, so a table with two rows of one key cannot be
built and nothing downstream has to re-prove that it is a key.

- `AutoTable` numbers its rows itself and remembers the largest number it ever used, so a number
  is never given twice, even after the row is gone.
- `KeyTable` takes the key out of the row's own columns.

A table never decides which rows refer to which: `References` is the relation between a child
table's column and a parent table's keys, with the three facts deletions and insertions need.

`Edit` is what one statement does to the rows of one table. A row that comes has been added, and a
row that goes has been dropped, or else one of them is the other one updated.

## Refusals

An insert may be refused because the numbers are used up, or because the key is taken, so it returns
an `Option`. Nothing is said about why: a caller who has to give a reason knows which kind of table
it is. Deletions and updates of rows always go through.

## Lookups

A `select` for one row is the head of a filtered list. The lemmas about it say that there is at most
one row to find, because the predicate fixes a number or a unique column. Then the order of the rows
plays no part, and `head?` of the filter is `some` exactly for the row.
-/

namespace Relational

variable {α β κ : Type}

/-! ## Self-numbering tables -/

/-- A table whose rows are numbered from `1` by the table itself, up to `bound`. -/
structure AutoTable (α : Type) (bound : ℤ) where
  /-- The rows with their numbers, oldest first. -/
  rows : List (ℤ × α)
  /-- The largest number ever used. -/
  seq : ℤ
  nodup_ids : (rows.map Prod.fst).Nodup
  id_pos : ∀ r ∈ rows, 0 < r.1
  id_le_seq : ∀ r ∈ rows, r.1 ≤ seq
  seq_nonneg : 0 ≤ seq
  seq_le_bound : seq ≤ bound

namespace AutoTable

variable {bound : ℤ}

/-- The table a schema creates. -/
def empty (h : 0 ≤ bound) : AutoTable α bound where
  rows := []
  seq := 0
  nodup_ids := List.nodup_nil
  id_pos := by simp
  id_le_seq := by simp
  seq_nonneg := le_rfl
  seq_le_bound := h

variable (t : AutoTable α bound)

/-- The numbers in use. -/
def ids : List ℤ := t.rows.map Prod.fst

variable {t}

theorem mem_ids {i : ℤ} : i ∈ t.ids ↔ ∃ a, (i, a) ∈ t.rows := by
  simp [ids]

theorem mem_ids_of_mem {r : ℤ × α} (h : r ∈ t.rows) : r.1 ∈ t.ids := List.mem_map_of_mem h

theorem pos_of_mem_ids {i : ℤ} (h : i ∈ t.ids) : 0 < i := by
  obtain ⟨a, ha⟩ := mem_ids.mp h
  exact t.id_pos _ ha

theorem le_seq_of_mem_ids {i : ℤ} (h : i ∈ t.ids) : i ≤ t.seq := by
  obtain ⟨a, ha⟩ := mem_ids.mp h
  exact t.id_le_seq _ ha

theorem bounds_of_mem_ids {i : ℤ} (h : i ∈ t.ids) : 0 < i ∧ i ≤ bound :=
  ⟨pos_of_mem_ids h, (le_seq_of_mem_ids h).trans t.seq_le_bound⟩

theorem seq_succ_notMem_ids : t.seq + 1 ∉ t.ids := fun h ↦ by
  have := le_seq_of_mem_ids h
  omega

/-- A number identifies its row. -/
theorem eq_of_mem_of_mem {i : ℤ} {a b : α} (ha : (i, a) ∈ t.rows) (hb : (i, b) ∈ t.rows) :
    a = b := by
  have h := List.inj_on_of_nodup_map t.nodup_ids ha hb rfl
  exact (Prod.mk.inj h).2

/-! ### Operations -/

/-- Append a row under the next number, unless the numbers are used up. -/
def insert (t : AutoTable α bound) (a : α) : Option (AutoTable α bound) :=
  if h : t.seq + 1 ≤ bound then
    some
      { rows := t.rows ++ [(t.seq + 1, a)]
        seq := t.seq + 1
        nodup_ids := by
          rw [List.map_append]
          refine t.nodup_ids.append (by simp) ?_
          rintro i hi hj
          simp only [List.map_cons, List.map_nil, List.mem_singleton] at hj
          exact seq_succ_notMem_ids (t := t) (hj ▸ hi)
        id_pos := by
          have := t.seq_nonneg
          rintro r hr
          rcases List.mem_append.mp hr with hr | hr
          · exact t.id_pos r hr
          · rw [List.mem_singleton.mp hr]; dsimp only; omega
        id_le_seq := by
          rintro r hr
          rcases List.mem_append.mp hr with hr | hr
          · have := t.id_le_seq r hr
            omega
          · rw [List.mem_singleton.mp hr]
        seq_nonneg := by have := t.seq_nonneg; omega
        seq_le_bound := h }
  else none

theorem rows_of_insert {a : α} {t' : AutoTable α bound} (h : t.insert a = some t') :
    t'.rows = t.rows ++ [(t.seq + 1, a)] ∧ t'.seq = t.seq + 1 := by
  rw [insert] at h
  split at h
  · rw [← Option.some_inj.mp h]
    exact ⟨rfl, rfl⟩
  · cases h

theorem exists_insert_iff {a : α} : (∃ t', t.insert a = some t') ↔ t.seq + 1 ≤ bound := by
  rw [insert]
  split
  · exact iff_of_true ⟨_, rfl⟩ ‹_›
  · refine iff_of_false ?_ ‹_›
    rintro ⟨t', ⟨⟩⟩

theorem ids_subset_of_insert {a : α} {t' : AutoTable α bound} (h : t.insert a = some t') :
    t.ids ⊆ t'.ids := by
  rw [ids, ids, (rows_of_insert h).1, List.map_append]
  exact List.subset_append_left _ _

/-- Append a row under a number of the caller's choice, which must be free. -/
def insertAs (t : AutoTable α bound) (i : ℤ) (a : α) : Option (AutoTable α bound) :=
  if h : i ∉ t.ids ∧ 0 < i ∧ i ≤ bound then
    some
      { rows := t.rows ++ [(i, a)]
        seq := max t.seq i
        nodup_ids := by
          rw [List.map_append]
          refine t.nodup_ids.append (by simp) ?_
          rintro j hj hj'
          rw [List.map_singleton, List.mem_singleton] at hj'
          rw [hj'] at hj
          exact h.1 hj
        id_pos := by
          rintro r hr
          rcases List.mem_append.mp hr with hr | hr
          · exact t.id_pos r hr
          · rw [List.mem_singleton.mp hr]
            exact h.2.1
        id_le_seq := by
          rintro r hr
          rcases List.mem_append.mp hr with hr | hr
          · exact (t.id_le_seq r hr).trans (le_max_left _ _)
          · rw [List.mem_singleton.mp hr]
            exact le_max_right _ _
        seq_nonneg := t.seq_nonneg.trans (le_max_left _ _)
        seq_le_bound := max_le t.seq_le_bound h.2.2 }
  else none

theorem exists_insertAs {i : ℤ} {a : α} (hfree : i ∉ t.ids) (hpos : 0 < i) (hle : i ≤ bound) :
    ∃ t', t.insertAs i a = some t' ∧ t'.rows = t.rows ++ [(i, a)] :=
  ⟨_, dif_pos ⟨hfree, hpos, hle⟩, rfl⟩

/-- Delete the rows that do not satisfy `p`; their numbers stay used. -/
def filter (t : AutoTable α bound) (p : ℤ × α → Bool) : AutoTable α bound where
  rows := t.rows.filter p
  seq := t.seq
  nodup_ids := t.nodup_ids.sublist (List.filter_sublist.map _)
  id_pos r hr := t.id_pos r (List.mem_of_mem_filter hr)
  id_le_seq r hr := t.id_le_seq r (List.mem_of_mem_filter hr)
  seq_nonneg := t.seq_nonneg
  seq_le_bound := t.seq_le_bound

@[simp] theorem filter_rows (p : ℤ × α → Bool) : (t.filter p).rows = t.rows.filter p := rfl

@[simp] theorem filter_seq (p : ℤ × α → Bool) : (t.filter p).seq = t.seq := rfl

theorem filter_sublist (p : ℤ × α → Bool) : (t.filter p).rows.Sublist t.rows := List.filter_sublist

theorem filter_eq_self_iff {p : ℤ × α → Bool} : t.filter p = t ↔ ∀ r ∈ t.rows, p r = true := by
  refine Iff.trans ⟨fun h ↦ congrArg rows h, fun h ↦ ?_⟩ List.filter_eq_self
  obtain ⟨rows, seq⟩ := t
  rw [filter]
  congr 1

/-- The effect of `modify` on one row. -/
def modifyRow (i : ℤ) (f : α → α) (r : ℤ × α) : ℤ × α := if r.1 = i then (r.1, f r.2) else r

@[simp] theorem modifyRow_fst (i : ℤ) (f : α → α) (r : ℤ × α) : (modifyRow i f r).1 = r.1 := by
  rw [modifyRow]
  split <;> rfl

theorem map_fst_modifyRow (i : ℤ) (f : α → α) (rows : List (ℤ × α)) :
    (rows.map (modifyRow i f)).map Prod.fst = rows.map Prod.fst := by
  rw [List.map_map]
  exact List.map_congr_left fun r _ ↦ modifyRow_fst i f r

/-- Change the columns of the row numbered `i`. -/
def modify (t : AutoTable α bound) (i : ℤ) (f : α → α) : AutoTable α bound where
  rows := t.rows.map (modifyRow i f)
  seq := t.seq
  nodup_ids := by
    rw [map_fst_modifyRow]
    exact t.nodup_ids
  id_pos r hr := by
    obtain ⟨r', hr', rfl⟩ := List.mem_map.mp hr
    rw [modifyRow_fst]
    exact t.id_pos r' hr'
  id_le_seq r hr := by
    obtain ⟨r', hr', rfl⟩ := List.mem_map.mp hr
    rw [modifyRow_fst]
    exact t.id_le_seq r' hr'
  seq_nonneg := t.seq_nonneg
  seq_le_bound := t.seq_le_bound

@[simp] theorem modify_rows (i : ℤ) (f : α → α) :
    (t.modify i f).rows = t.rows.map (modifyRow i f) := rfl

@[simp] theorem modify_seq (i : ℤ) (f : α → α) : (t.modify i f).seq = t.seq := rfl

@[simp] theorem modify_ids (i : ℤ) (f : α → α) : (t.modify i f).ids = t.ids :=
  map_fst_modifyRow i f t.rows

end AutoTable

/-! ## Tables keyed by their own columns -/

/-- A table in which `key` is a primary key. -/
structure KeyTable {α κ : Type} (key : α → κ) where
  /-- The rows, oldest first. -/
  rows : List α
  nodup_keys : (rows.map key).Nodup

namespace KeyTable

variable {key : α → κ}

/-- The table a schema creates. -/
def empty : KeyTable key := ⟨[], List.nodup_nil⟩

variable {t : KeyTable key}

theorem eq_of_key_eq {a b : α} (ha : a ∈ t.rows) (hb : b ∈ t.rows) (h : key a = key b) : a = b :=
  List.inj_on_of_nodup_map t.nodup_keys ha hb h

/-- Append a row, unless its key is taken. -/
def insert [DecidableEq κ] (t : KeyTable key) (a : α) : Option (KeyTable key) :=
  if h : key a ∈ t.rows.map key then none
  else some ⟨t.rows ++ [a], by
    rw [List.map_append]
    refine t.nodup_keys.append (by simp) ?_
    rintro k hk hk'
    rw [List.map_singleton, List.mem_singleton] at hk'
    exact h (hk' ▸ hk)⟩

theorem rows_of_insert [DecidableEq κ] {a : α} {t' : KeyTable key}
    (h : t.insert a = some t') : t'.rows = t.rows ++ [a] ∧ key a ∉ t.rows.map key := by
  rw [insert] at h
  split at h
  · cases h
  · rename_i hkey
    rw [← Option.some_inj.mp h]
    exact ⟨rfl, hkey⟩

theorem exists_insert_of_notMem [DecidableEq κ] {a : α} (h : key a ∉ t.rows.map key) :
    ∃ t', t.insert a = some t' := ⟨_, dif_neg h⟩

theorem exists_insert_iff [DecidableEq κ] {a : α} :
    (∃ t', t.insert a = some t') ↔ key a ∉ t.rows.map key :=
  ⟨fun ⟨_, h⟩ ↦ (rows_of_insert h).2, exists_insert_of_notMem⟩

/-- Delete the rows that do not satisfy `p`. -/
def filter (t : KeyTable key) (p : α → Bool) : KeyTable key where
  rows := t.rows.filter p
  nodup_keys := t.nodup_keys.sublist (List.filter_sublist.map _)

@[simp] theorem filter_rows (p : α → Bool) : (t.filter p).rows = t.rows.filter p := rfl

theorem filter_subset (p : α → Bool) : (t.filter p).rows ⊆ t.rows := List.filter_sublist.subset

theorem filter_eq_self_iff {p : α → Bool} : t.filter p = t ↔ ∀ a ∈ t.rows, p a = true := by
  refine Iff.trans ⟨fun h ↦ congrArg rows h, fun h ↦ ?_⟩ List.filter_eq_self
  obtain ⟨rows⟩ := t
  rw [filter]
  congr 1

end KeyTable

/-! ## References between tables -/

/-- Every row's `fk` column is one of the parent keys. -/
def References (rows : List α) (fk : α → κ) (parents : List κ) : Prop := ∀ a ∈ rows, fk a ∈ parents

namespace References

variable {rows rows' : List α} {fk : α → κ} {parents parents' : List κ}

theorem nil : References [] fk parents := by simp [References]

theorem mono (h : References rows fk parents) (hsub : parents ⊆ parents') :
    References rows fk parents' := fun a ha ↦ hsub (h a ha)

theorem subset (h : References rows fk parents) (hsub : rows' ⊆ rows) :
    References rows' fk parents := fun a ha ↦ h a (hsub ha)

theorem append_singleton {a : α} (h : References rows fk parents) (ha : fk a ∈ parents) :
    References (rows ++ [a]) fk parents := by
  intro b hb
  rcases List.mem_append.mp hb with hb | hb
  · exact h b hb
  · rwa [List.mem_singleton.mp hb]

theorem ne_of_notMem {k : κ} (h : References rows fk parents) (hk : k ∉ parents) :
    ∀ a ∈ rows, fk a ≠ k := by
  rintro a ha rfl
  exact hk (h a ha)

theorem mem_append_singleton_iff {a : α} (h : References rows fk parents) (ha : fk a ∉ parents)
    {b : α} : b ∈ rows ++ [a] ∧ fk b = fk a ↔ b = a := by
  rw [List.mem_append, List.mem_singleton]
  constructor
  · rintro ⟨hb | hb, hkey⟩
    · exact absurd hkey (h.ne_of_notMem ha b hb)
    · exact hb
  · rintro rfl
    exact ⟨Or.inr rfl, rfl⟩

theorem of_filter [DecidableEq κ] (rows : List α) (fk : α → κ) (parents : List κ) :
    References (rows.filter fun a ↦ decide (fk a ∈ parents)) fk parents :=
  fun _ ha ↦ of_decide_eq_true (List.mem_filter.mp ha).2

end References

/-! ## Edits -/

/-- How one statement changes the rows of a table. -/
inductive Edit (α : Type)
  | keep
  | add (a : α)
  /-- Keep the rows that satisfy `p`. -/
  | drop (p : α → Bool)
  | update (f : α → α)

namespace Edit

def apply : Edit α → List α → List α
  | keep, rows => rows
  | add a, rows => rows ++ [a]
  | drop p, rows => rows.filter p
  | update f, rows => rows.map f

variable {edit : Edit α} {rows : List α} {a : α}

theorem cases_of_mem_apply (hout : a ∉ rows) (hin : a ∈ edit.apply rows) :
    edit = add a ∨ ∃ f, edit = update f ∧ ∃ b ∈ rows, f b = a := by
  cases edit with
  | keep => exact absurd hin hout
  | add b =>
    rcases List.mem_append.mp hin with hin | hin
    · exact absurd hin hout
    · exact Or.inl (congrArg add (List.mem_singleton.mp hin).symm)
  | drop p => exact absurd (List.mem_of_mem_filter hin) hout
  | update f => exact Or.inr ⟨f, rfl, List.mem_map.mp hin⟩

theorem cases_of_notMem_apply (hin : a ∈ rows) (hout : a ∉ edit.apply rows) :
    (∃ p, edit = drop p ∧ p a = false) ∨ ∃ f, edit = update f ∧ f a ≠ a := by
  cases edit with
  | keep => exact absurd hin hout
  | add b => exact absurd (List.mem_append_left _ hin) hout
  | drop p =>
    refine Or.inl ⟨p, rfl, Bool.eq_false_iff.mpr fun hp ↦ ?_⟩
    exact hout (List.mem_filter.mpr ⟨hin, hp⟩)
  | update f => exact Or.inr ⟨f, rfl, fun hf ↦ hout (List.mem_map.mpr ⟨a, hin, hf⟩)⟩

end Edit

theorem KeyTable.exists_mem_of_insert [DecidableEq κ] {key : α → κ} {t t' : KeyTable key} {a : α}
    {P : α → Prop} (h : t.insert a = some t') (hP : ∃ b ∈ t'.rows, P b) :
    (∃ b ∈ t.rows, P b) ∨ P a := by
  obtain ⟨b, hb, hP⟩ := hP
  rw [(KeyTable.rows_of_insert h).1, List.mem_append, List.mem_singleton] at hb
  rcases hb with hb | rfl
  · exact Or.inl ⟨b, hb, hP⟩
  · exact Or.inr hP

/-! ## Unique columns -/

/-- A column that is not the primary key and takes no value twice. -/
def UniqueColumn (rows : List α) (col : α → κ) : Prop := (rows.map col).Nodup

namespace UniqueColumn

variable {rows rows' : List α} {col : α → κ}

theorem nil : UniqueColumn [] col := List.nodup_nil

theorem sublist (h : UniqueColumn rows col) (hsub : rows'.Sublist rows) : UniqueColumn rows' col :=
  List.Nodup.sublist (hsub.map col) h

theorem append_singleton {a : α} (h : UniqueColumn rows col) (ha : col a ∉ rows.map col) :
    UniqueColumn (rows ++ [a]) col := by
  rw [UniqueColumn, List.map_append]
  refine List.Nodup.append h (by simp) ?_
  rintro k hk hk'
  rw [List.map_singleton, List.mem_singleton] at hk'
  exact ha (hk' ▸ hk)

theorem eq_of_mem {a b : α} (h : UniqueColumn rows col) (ha : a ∈ rows) (hb : b ∈ rows)
    (hab : col a = col b) : a = b := List.inj_on_of_nodup_map h ha hb hab

end UniqueColumn

/-! ## Looking up one row -/

/-- The first of the rows a predicate selects, when it cannot select two. -/
theorem head?_filter_eq_some_iff {rows : List α} {p : α → Bool}
    (h : ∀ a ∈ rows, ∀ b ∈ rows, p a = true → p b = true → a = b) {a : α} :
    (rows.filter p).head? = some a ↔ a ∈ rows ∧ p a = true := by
  rw [List.head?_filter]
  constructor
  · intro ha
    exact ⟨List.mem_of_find?_eq_some ha, List.find?_some ha⟩
  · rintro ⟨hmem, hp⟩
    obtain ⟨b, hb⟩ := Option.isSome_iff_exists.mp (List.find?_isSome.mpr ⟨a, hmem, hp⟩)
    rw [hb, h b (List.mem_of_find?_eq_some hb) a hmem (List.find?_some hb) hp]

theorem AutoTable.head?_filter_id {bound : ℤ} {t : AutoTable α bound} {i : ℤ} {r : ℤ × α} :
    (t.rows.filter (·.1 = i)).head? = some r ↔ r ∈ t.rows ∧ r.1 = i := by
  rw [head?_filter_eq_some_iff, decide_eq_true_eq]
  intro a ha b hb hai hbi
  exact List.inj_on_of_nodup_map t.nodup_ids ha hb
    ((of_decide_eq_true hai).trans (of_decide_eq_true hbi).symm)

/-- Looking up a value of a unique column. -/
theorem UniqueColumn.head?_filter [DecidableEq κ] {rows : List α} {col : α → κ}
    (h : UniqueColumn rows col) {k : κ} {a : α} :
    (rows.filter (col · = k)).head? = some a ↔ a ∈ rows ∧ col a = k := by
  rw [head?_filter_eq_some_iff, decide_eq_true_eq]
  intro a ha b hb hak hbk
  exact h.eq_of_mem ha hb ((of_decide_eq_true hak).trans (of_decide_eq_true hbk).symm)

theorem UniqueColumn.head?_map_fst_filter [DecidableEq κ] {ι : Type} {rows : List (ι × α)}
    {col : ι × α → κ} (h : UniqueColumn rows col) {k : κ} {i : ι} :
    ((rows.filter (col · = k)).map (·.1)).head? = some i ↔ ∃ a, (i, a) ∈ rows ∧ col (i, a) = k := by
  rw [List.head?_map, Option.map_eq_some_iff]
  simp only [h.head?_filter]
  constructor
  · rintro ⟨⟨_, a⟩, ⟨hmem, hcol⟩, rfl⟩
    exact ⟨a, hmem, hcol⟩
  · rintro ⟨a, hmem, hcol⟩
    exact ⟨(i, a), ⟨hmem, hcol⟩, rfl⟩

theorem UniqueColumn.filter_eq_singleton {rows : List α} {f : α → κ} {p : α → Bool} {a : α}
    (h : UniqueColumn rows f) (ha : a ∈ rows) (hp : ∀ b ∈ rows, p b = true ↔ f b = f a) :
    rows.filter p = [a] := by
  have hall : ∀ b ∈ rows.filter p, b = a := by
    intro b hb
    obtain ⟨hb, hpb⟩ := List.mem_filter.mp hb
    exact h.eq_of_mem hb ha ((hp b hb).mp hpb)
  have hmem : a ∈ rows.filter p := List.mem_filter.mpr ⟨ha, (hp a ha).mpr rfl⟩
  have hnodup : (rows.filter p).Nodup := (List.Nodup.of_map f h).filter p
  rw [List.eq_replicate_of_mem hall] at hmem hnodup ⊢
  have hle := List.nodup_replicate.mp hnodup
  have hpos : (rows.filter p).length ≠ 0 := (List.mem_replicate.mp hmem).1
  rw [show (rows.filter p).length = 1 by omega, List.replicate_one]

theorem map_eq_of_forall₂ {γ : Type} {R : α → β → Prop} {rows : List α} {rows' : List β}
    (h : List.Forall₂ R rows rows') {f : α → γ} {f' : β → γ} (hf : ∀ a b, R a b → f' b = f a) :
    rows'.map f' = rows.map f := by
  induction h with
  | nil => rfl
  | cons hab _ ih => rw [List.map_cons, List.map_cons, hf _ _ hab, ih]

theorem map_filter_eq_of_forall₂ {γ : Type} {R : α → β → Prop} {rows : List α} {rows' : List β}
    (h : List.Forall₂ R rows rows') {p : α → Bool} {p' : β → Bool} {f : α → γ} {f' : β → γ}
    (hp : ∀ a b, R a b → p' b = p a) (hf : ∀ a b, R a b → p a = true → f' b = f a) :
    (rows'.filter p').map f' = (rows.filter p).map f := by
  induction h with
  | nil => rfl
  | cons hab _ ih =>
    rw [List.filter_cons, List.filter_cons, hp _ _ hab]
    split
    · rename_i hpa
      rw [List.map_cons, List.map_cons, hf _ _ hab hpa, ih]
    · exact ih

/-! ## Joins -/

/-- The pairs of rows of two tables that `on` accepts. -/
def join (on : α → β → Bool) (l : List α) (l' : List β) : List (α × β) :=
  l.flatMap fun a ↦ (l'.filter (on a)).map (Prod.mk a)

theorem mem_join {on : α → β → Bool} {l : List α} {l' : List β} {a : α} {b : β} :
    (a, b) ∈ join on l l' ↔ a ∈ l ∧ b ∈ l' ∧ on a b = true := by
  rw [join, List.mem_flatMap]
  constructor
  · rintro ⟨a', ha', hmem⟩
    obtain ⟨b', hb', heq⟩ := List.mem_map.mp hmem
    obtain ⟨rfl, rfl⟩ := Prod.mk.inj heq
    exact ⟨ha', List.mem_filter.mp hb'⟩
  · rintro ⟨ha, hb⟩
    exact ⟨a, ha, List.mem_map.mpr ⟨b, List.mem_filter.mpr hb, rfl⟩⟩

theorem forall₂_join {α' β' : Type} {R : α → α' → Prop} {S : β → β' → Prop} {on : α → β → Bool}
    {on' : α' → β' → Bool} {l : List α} {l' : List α'} {m : List β} {m' : List β'}
    (hl : List.Forall₂ R l l') (hm : List.Forall₂ S m m')
    (hon : ∀ a a' b b', R a a' → S b b' → on' a' b' = on a b) :
    List.Forall₂ (fun r r' ↦ R r.1 r'.1 ∧ S r.2 r'.2) (join on l m) (join on' l' m') := by
  refine List.rel_flatMap hl fun a a' ha ↦ ?_
  refine List.rel_map (fun b b' hb ↦ ⟨ha, hb⟩) (List.rel_filter (fun b b' hb ↦ ?_) hm)
  exact iff_of_eq (congrArg (· = true) (hon a a' b b' ha hb).symm)

theorem filter_join_left (on : α → β → Bool) (p : α → Bool) (l : List α) (l' : List β) :
    (join on l l').filter (fun r ↦ p r.1) = join on (l.filter p) l' := by
  induction l with
  | nil => rfl
  | cons a l ih =>
    have hpart : ((l'.filter (on a)).map (Prod.mk a)).filter (fun r ↦ p r.1) =
        if p a = true then (l'.filter (on a)).map (Prod.mk a) else [] := by
      rw [List.filter_map]
      split_ifs with hp
      · exact congrArg _ (List.filter_eq_self.mpr fun _ _ ↦ hp)
      · exact congrArg (List.map (Prod.mk a)) (List.filter_eq_nil_iff.mpr fun _ _ ↦ hp)
    rw [join, List.flatMap_cons, List.filter_append, hpart, ← join, ih, List.filter_cons]
    split_ifs
    · rw [join, join, List.flatMap_cons]
    · exact List.nil_append _

theorem join_singleton (on : α → β → Bool) (a : α) (l' : List β) :
    join on [a] l' = (l'.filter (on a)).map (Prod.mk a) := by
  rw [join, List.flatMap_singleton]

/-- A join in which each row of the first table meets one row of the second one. -/
theorem map_join_of_unique {γ : Type} {on : α → β → Bool} {l : List α} {l' : List β}
    (h : ∀ a ∈ l, ∃ b, l'.filter (on a) = [b]) (f : α → γ) :
    (join on l l').map (fun r ↦ f r.1) = l.map f := by
  induction l with
  | nil => rfl
  | cons a l ih =>
    obtain ⟨b, hb⟩ := h a List.mem_cons_self
    rw [join, List.flatMap_cons, hb, ← join, List.map_append, List.map_cons,
      ih fun a' ha' ↦ h a' (List.mem_cons_of_mem _ ha')]
    rfl

end Relational
