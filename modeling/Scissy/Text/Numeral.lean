import Mathlib.Data.Nat.Digits.Lemmas
import Mathlib.Data.List.Basic

/-!
# Numerals

Natural numbers as text, in any base up to sixteen: `numeral` prints and `ofNumeral` reads. The
digits are lower-case ASCII letters and figures (`isDigit_of_mem_numeral`), which is all a printer
of structured text needs to know to keep its separators apart from its numbers.
-/

namespace Numeral

/-- The character of a digit below sixteen. -/
def digit (d : ℕ) : UInt8 := if d < 10 then (48 + d).toUInt8 else (87 + d).toUInt8

/-- The digit of a character. -/
def ofDigit (c : UInt8) : ℕ := if c.toNat < 87 then c.toNat - 48 else c.toNat - 87

/-- `0`–`9` and `a`–`f`. -/
def IsDigit (c : UInt8) : Prop := 48 ≤ c.toNat ∧ c.toNat ≤ 57 ∨ 97 ≤ c.toNat ∧ c.toNat ≤ 102

instance (c : UInt8) : Decidable (IsDigit c) := inferInstanceAs (Decidable (_ ∨ _))

/-- The numeral of `n`, most significant digit first and without leading zeros. -/
def numeral (base n : ℕ) : List UInt8 :=
  if n = 0 then [digit 0] else ((base.digits n).map digit).reverse

/-- The number a numeral denotes. -/
def ofNumeral (base : ℕ) (l : List UInt8) : ℕ := Nat.ofDigits base (l.reverse.map ofDigit)

variable {base : ℕ}

theorem ofDigit_digit {d : ℕ} (h : d < 16) : ofDigit (digit d) = d := by
  interval_cases d <;> decide

theorem isDigit_digit {d : ℕ} (h : d < 16) : IsDigit (digit d) := by
  interval_cases d <;> decide

theorem numeral_ne_nil (n : ℕ) : numeral base n ≠ [] := by
  rw [numeral]
  split_ifs with h
  · exact List.cons_ne_nil _ _
  · rw [ne_eq, List.reverse_eq_nil_iff, List.map_eq_nil_iff, Nat.digits_eq_nil_iff_eq_zero]
    exact h

section Base

variable (hbase : 1 < base) (hbase' : base ≤ 16)

include hbase hbase'

theorem ofNumeral_numeral (n : ℕ) : ofNumeral base (numeral base n) = n := by
  rw [ofNumeral, numeral]
  split_ifs with h
  · rw [h, List.reverse_singleton, List.map_singleton, ofDigit_digit (by decide),
      Nat.ofDigits_singleton]
  · rw [List.reverse_reverse, List.map_map]
    have hdigits : (base.digits n).map (ofDigit ∘ digit) = base.digits n := by
      conv_rhs => rw [← List.map_id (base.digits n)]
      refine List.map_congr_left fun d hd ↦ ?_
      exact ofDigit_digit ((Nat.digits_lt_base hbase hd).trans_le hbase')
    rw [hdigits, Nat.ofDigits_digits]

theorem numeral_injective : Function.Injective (numeral base) :=
  Function.LeftInverse.injective (ofNumeral_numeral hbase hbase')

theorem isDigit_of_mem_numeral {n : ℕ} {c : UInt8} (h : c ∈ numeral base n) : IsDigit c := by
  rw [numeral] at h
  split_ifs at h with hn
  · rw [List.mem_singleton.mp h]
    exact isDigit_digit (by decide)
  · rw [List.mem_reverse, List.mem_map] at h
    obtain ⟨d, hd, rfl⟩ := h
    exact isDigit_digit ((Nat.digits_lt_base hbase hd).trans_le hbase')

end Base

end Numeral
