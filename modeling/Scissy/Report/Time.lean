import Scissy.Server.View

/-!
# The times of commits

Git keeps a time in seconds and the offset of the time zone in minutes. `copyCommit` and
`copySignature` make milliseconds of the seconds and add the offset as it is, in unsigned 64-bit
arithmetic. The pages show the sum as a time.

`milliseconds_eq` is the sum without the arithmetic of the machine: near the ends of its range the
offset carries over to the other end. Two times keep their order exactly when the offsets do not
make up for the difference (`InOrder`), so only times from one zone do whatever they are.

## Minutes among milliseconds

The sum is of two units. An offset in minutes moves a time by as many milliseconds, so two commits
whose times differ by a second or more keep their order unless their offsets differ by a thousand
minutes. The condition is stated for any offset that fits the type, with the carry, and the
counterexample uses zones that exist.
-/

namespace Scissy

namespace Service

/-! ## The sum -/

/-- A time that git has, with its zone: not before 1970, in milliseconds within 64 bits, and an
offset that is an `int`. -/
structure Stamp (time offset : ℤ) : Prop where
  time_nonneg : 0 ≤ time
  time_lt : time * 1000 < 2 ^ 64
  le_offset : -2 ^ 31 ≤ offset
  offset_lt : offset < 2 ^ 31

/-- How the offset carries the sum over an end of its range. -/
def carry (time offset : ℤ) : ℤ :=
  if time * 1000 + offset < 0 then 1 else if 2 ^ 64 ≤ time * 1000 + offset then -1 else 0

variable {t t' o o' : ℤ}

theorem milliseconds_eq (h : Stamp t o) :
    (milliseconds t o : ℤ) = t * 1000 + o + 2 ^ 64 * carry t o := by
  obtain ⟨htime, htime', hoffset, hoffset'⟩ := h
  rw [milliseconds, Int.toNat_of_nonneg (Int.emod_nonneg _ (by decide)), carry]
  split_ifs <;> omega

/-! ## Order -/

/-- What is sent for two times is ordered as they are. -/
def KeepsOrder (sent sent' : Option ℕ) (t t' : ℤ) : Prop :=
  ∃ m m', sent = some m ∧ sent' = some m' ∧ (m = m' ↔ t = t') ∧ (m < m' ↔ t < t')

/-- The first of two times is sent as the smaller number: the difference of the offsets does not
make up for the difference of the times. -/
def InOrder (t o t' o' : ℤ) : Prop :=
  o - o' < 1000 * (t' - t) + 2 ^ 64 * (carry t' o' - carry t o)

instance : Decidable (InOrder t o t' o') :=
  inferInstanceAs (Decidable (o - o' < 1000 * (t' - t) + 2 ^ 64 * (carry t' o' - carry t o)))

/-- The zones do no harm to the order of two times. -/
def HarmlessZones (t o t' o' : ℤ) : Prop :=
  (t = t' → o = o') ∧ (t < t' → InOrder t o t' o') ∧ (t' < t → InOrder t' o' t o)

theorem milliseconds_lt_iff (h : Stamp t o) (h' : Stamp t' o') :
    milliseconds t o < milliseconds t' o' ↔ InOrder t o t' o' := by
  rw [← Nat.cast_lt (α := ℤ), milliseconds_eq h, milliseconds_eq h', InOrder]
  constructor <;> intro hlt <;> linarith

/-- Of one time in two zones. -/
theorem milliseconds_eq_iff (h : Stamp t o) (h' : Stamp t o') :
    milliseconds t o = milliseconds t o' ↔ o = o' := by
  constructor
  · intro heq
    have hsum := milliseconds_eq h
    rw [heq, milliseconds_eq h'] at hsum
    obtain ⟨-, -, hoffset, hoffset'⟩ := h
    obtain ⟨-, -, hother, hother'⟩ := h'
    rw [carry, carry] at hsum
    split_ifs at hsum <;> omega
  · rintro rfl
    rfl

theorem keepsOrder_iff (h : Stamp t o) (h' : Stamp t' o') :
    KeepsOrder (some (milliseconds t o)) (some (milliseconds t' o')) t t' ↔
      HarmlessZones t o t' o' := by
  have hlt := milliseconds_lt_iff h h'
  have hgt := milliseconds_lt_iff h' h
  have hkeeps : KeepsOrder (some (milliseconds t o)) (some (milliseconds t' o')) t t' ↔
      (milliseconds t o = milliseconds t' o' ↔ t = t') ∧
        (milliseconds t o < milliseconds t' o' ↔ t < t') := by
    constructor
    · rintro ⟨m, m', hm, hm', horder⟩
      obtain rfl := Option.some_inj.mp hm
      obtain rfl := Option.some_inj.mp hm'
      exact horder
    · exact fun horder ↦ ⟨_, _, rfl, rfl, horder⟩
  rw [hkeeps, HarmlessZones, ← hlt, ← hgt]
  rcases lt_trichotomy t t' with htime | rfl | htime
  · have hne : t ≠ t' := htime.ne
    simp only [htime, hne, htime.not_gt, iff_false, iff_true, false_imp_iff, true_imp_iff, true_and,
      and_true]
    exact and_iff_right_of_imp fun hsent ↦ hsent.ne
  · rw [← milliseconds_eq_iff h h']
    simp only [lt_irrefl, iff_true, iff_false, false_imp_iff, true_imp_iff, and_true]
    exact and_iff_left_of_imp fun heq ↦ heq.not_lt
  · have hne : t ≠ t' := htime.ne'
    simp only [htime, hne, htime.not_gt, iff_false, false_imp_iff, true_imp_iff, true_and]
    constructor
    · rintro ⟨hsent, hsent'⟩
      exact lt_of_le_of_ne (not_lt.mp hsent') (Ne.symm hsent)
    · exact fun hsent ↦ ⟨hsent.ne', hsent.not_gt⟩

/-- **When the times of commits and of signatures survive the copy.** They do exactly when the
zones do no harm. -/
theorem copy_keepsOrder_iff (c c' : GitCommit) (s s' : GitSignature) :
    (Stamp c.time c.timeOffset → Stamp c'.time c'.timeOffset →
      (KeepsOrder (copyCommit c).time (copyCommit c').time c.time c'.time ↔
        HarmlessZones c.time c.timeOffset c'.time c'.timeOffset)) ∧
    (Stamp s.time s.offset → Stamp s'.time s'.offset →
      (KeepsOrder (copySignature s).time (copySignature s').time s.time s'.time ↔
        HarmlessZones s.time s.offset s'.time s'.offset)) :=
  ⟨fun h h' ↦ keepsOrder_iff h h', fun h h' ↦ keepsOrder_iff h h'⟩

/-- A commit with nothing but its time. -/
def commitAt (time offset : ℤ) : GitCommit where
  id := []
  parents := []
  treeId := []
  message := []
  time := time
  timeOffset := offset
  committer := ⟨[], [], time, offset⟩
  author := ⟨[], [], time, offset⟩

/-- Two commits one second apart, in zones one hour apart, and their authors. -/
theorem copy_keepsOrder_second :
    let c := commitAt 1000000000 60
    let c' := commitAt 1000000001 0
    KeepsOrder (copyCommit c).time (copyCommit c').time c.time c'.time ∧
      KeepsOrder (copySignature c.author).time (copySignature c'.author).time c.time c'.time := by
  have hstamp : Stamp 1000000000 60 := ⟨by decide, by decide, by decide, by decide⟩
  have hstamp' : Stamp 1000000001 0 := ⟨by decide, by decide, by decide, by decide⟩
  have hzones : HarmlessZones 1000000000 60 1000000001 0 := ⟨by decide, by decide, by decide⟩
  have hcopy := copy_keepsOrder_iff (commitAt 1000000000 60) (commitAt 1000000001 0)
    (commitAt 1000000000 60).author (commitAt 1000000001 0).author
  exact ⟨(hcopy.1 hstamp hstamp').mpr hzones, (hcopy.2 hstamp hstamp').mpr hzones⟩

/-- The same, in the zones that are farthest apart: the earlier commit gets the later time. And one
time in two zones becomes two times. -/
theorem not_copy_keepsOrder :
    ¬ KeepsOrder (copyCommit (commitAt 1000000000 840)).time
        (copyCommit (commitAt 1000000001 (-720))).time 1000000000 1000000001 ∧
      ¬ KeepsOrder (copyCommit (commitAt 1000000000 60)).time
        (copyCommit (commitAt 1000000000 0)).time 1000000000 1000000000 := by
  constructor
  · rintro ⟨m, m', hm, hm', -, hlt⟩
    obtain rfl := Option.some_inj.mp hm
    obtain rfl := Option.some_inj.mp hm'
    exact absurd (hlt.mpr (by decide)) (by decide)
  · rintro ⟨m, m', hm, hm', heq, -⟩
    obtain rfl := Option.some_inj.mp hm
    obtain rfl := Option.some_inj.mp hm'
    exact absurd (heq.mpr rfl) (by decide)

end Service

end Scissy
