import Mathlib.Algebra.Ring.Nat
import Lox.Proofs.Source.Numerals

/-! # Decimals written without an exponent

A decimal in positional form is digits, and a point with more digits behind it if its exponent is
negative. Read as digits with a point, they are a decimal of the same value.

* **`Decimal.natOfDigits_digitChars`** — the digits of a number denote it;
* **`Decimal.Written`** — the digits on both sides of the point;
* **`Decimal.exists_written`** — every decimal has them. -/

namespace Lox.Decimal

open Numeral (AllDigits)

/-! ## Digits of natural numbers -/

/-- Digits denote what they do for the standard library. -/
theorem natOfDigits_eq_ofDigitChars (ds : List Char) : natOfDigits ds = Nat.ofDigitChars 10 ds 0 :=
  rfl

/-- **The digits of a number denote it.** -/
theorem natOfDigits_digitChars (n : Nat) : natOfDigits (digitChars n) = n :=
  Nat.ofDigitChars_ten_toDigits

/-- Zeros behind digits. -/
theorem natOfDigits_append_zeros (ds : List Char) (k : Nat) :
    natOfDigits (ds ++ List.replicate k '0') = natOfDigits ds * 10 ^ k := by
  rw [natOfDigits_eq_ofDigitChars, Nat.ofDigitChars_append, Nat.ofDigitChars_replicate_zero,
    Nat.mul_comm]
  rfl

/-- Zeros in front of digits. -/
theorem natOfDigits_zeros_append (k : Nat) (ds : List Char) :
    natOfDigits (List.replicate k '0' ++ ds) = natOfDigits ds := by
  rw [natOfDigits_eq_ofDigitChars, Nat.ofDigitChars_append, Nat.ofDigitChars_replicate_zero,
    Nat.mul_zero]
  rfl

theorem digitChars_ne_nil (n : Nat) : digitChars n ≠ [] := Nat.toDigits_ne_nil

/-- A number is written with digits. -/
theorem allDigits_digitChars (n : Nat) : AllDigits (digitChars n) := by
  intro c hc
  have hdigit : c.isDigit = true := Nat.isDigit_of_mem_toDigits (by decide) (by decide) hc
  simpa [Numeral.isDigit, Char.isDigit, Char.le_def] using hdigit

/-- Zeros are digits. -/
theorem allDigits_zeros (k : Nat) : AllDigits (List.replicate k '0') := by
  intro c hc
  rw [List.eq_of_mem_replicate hc]
  decide

/-- The last digit of a number is its remainder. -/
theorem getLast?_digitChars (n : Nat) :
    (digitChars n).getLast? = some (Nat.digitChar (n % 10)) := by
  unfold digitChars
  by_cases hn : n < 10
  · rw [Nat.toDigits_of_lt_base hn, Nat.mod_eq_of_lt hn]
    rfl
  · rw [Nat.toDigits_of_base_le (by decide) (by omega), List.getLast?_concat]

/-- A number that is no multiple of ten does not end in a zero. -/
theorem getLast?_digitChars_ne {n : Nat} (hn : n % 10 ≠ 0) :
    (digitChars n).getLast? ≠ some '0' := by
  rw [getLast?_digitChars]
  have hall : ∀ r < 10, r ≠ 0 → some (Nat.digitChar r) ≠ some '0' := by decide
  exact hall (n % 10) (Nat.mod_lt _ (by decide)) hn

/-! ## Digits on both sides of a point -/

/-- Digits, and a point with more digits if there are any. -/
def pointed (whole fraction : List Char) : List Char :=
  if fraction = [] then whole else whole ++ '.' :: fraction

/-- **A decimal is written** with digits in front of the point, and with digits behind it exactly if
its exponent is negative. The last one is no zero, unless the digits of the decimal end in one. What
is written denotes the decimal, with the zeros that fill the places up to the point. -/
structure Written (d : Decimal) (whole fraction : List Char) : Prop where
  positional_eq : d.positional = pointed whole fraction
  whole_ne : whole ≠ []
  whole_digits : AllDigits whole
  fraction_digits : AllDigits fraction
  fraction_eq_nil_iff : fraction = [] ↔ 0 ≤ d.exponent
  getLast?_ne : d.digits % 10 ≠ 0 → fraction.getLast? ≠ some '0'
  ofDigits_eq : ofDigits whole fraction =
    if 0 ≤ d.exponent then ⟨d.digits * 10 ^ d.exponent.toNat, 0⟩ else d

/-- A decimal that is an integer is written without a point. -/
theorem written_of_nonneg {d : Decimal} (h : 0 ≤ d.exponent) :
    d.Written (digitChars d.digits ++ List.replicate d.exponent.toNat '0') [] where
  positional_eq := by
    rw [positional, if_pos h]
    rfl
  whole_ne := by simp [digitChars_ne_nil]
  whole_digits := by
    intro c hc
    rcases List.mem_append.1 hc with hc | hc
    · exact allDigits_digitChars _ c hc
    · exact allDigits_zeros _ c hc
  fraction_digits := nofun
  fraction_eq_nil_iff := by simp [h]
  getLast?_ne := by simp
  ofDigits_eq := by
    rw [if_pos h, ofDigits, List.append_nil, natOfDigits_append_zeros, natOfDigits_digitChars]
    rfl

/-- A decimal that is no integer is written with as many digits behind the point as its exponent
says, the last one of its digits behind them all. -/
theorem written_of_neg {d : Decimal} {places : Nat} (h : d.exponent = -(places : Int))
    (hpos : 0 < places) {whole fraction : List Char}
    (hpositional : d.positional = whole ++ '.' :: fraction) (hwhole : whole ≠ [])
    (hwholeDigits : AllDigits whole) (hfractionDigits : AllDigits fraction)
    (hlength : fraction.length = places)
    (hlast : fraction.getLast? = (digitChars d.digits).getLast?)
    (hdigits : natOfDigits (whole ++ fraction) = d.digits) : d.Written whole fraction := by
  have hfraction : fraction ≠ [] := by
    rintro rfl
    rw [List.length_nil] at hlength
    omega
  have hneg : ¬ 0 ≤ d.exponent := by omega
  exact {
    positional_eq := by rw [pointed, if_neg hfraction, hpositional]
    whole_ne := hwhole
    whole_digits := hwholeDigits
    fraction_digits := hfractionDigits
    fraction_eq_nil_iff := iff_of_false hfraction hneg
    getLast?_ne := fun hd => hlast ▸ getLast?_digitChars_ne hd
    ofDigits_eq := by rw [if_neg hneg, ofDigits, hdigits, hlength, ← h] }

/-- **Every decimal is written** with digits and a point where it needs one. -/
theorem exists_written (d : Decimal) : ∃ whole fraction, d.Written whole fraction := by
  by_cases h : 0 ≤ d.exponent
  · exact ⟨_, _, written_of_nonneg h⟩
  obtain ⟨places, hplaces⟩ : ∃ places : Nat, d.exponent = -(places : Int) :=
    ⟨(-d.exponent).toNat, by omega⟩
  have hpos : 0 < places := by omega
  have hcount : (-d.exponent).toNat = places := by omega
  let ds := digitChars d.digits
  have hds : AllDigits ds := allDigits_digitChars d.digits
  by_cases hlt : places < ds.length
  · -- the point is among the digits
    refine ⟨ds.take (ds.length - places), ds.drop (ds.length - places),
      written_of_neg hplaces hpos ?_ ?_ ?_ ?_ ?_ ?_ ?_⟩
    · rw [positional, if_neg h, hcount]
      exact if_pos hlt
    · rw [Ne, List.take_eq_nil_iff, not_or]
      exact ⟨by omega, digitChars_ne_nil _⟩
    · exact fun c hc => hds c (List.mem_of_mem_take hc)
    · exact fun c hc => hds c (List.mem_of_mem_drop hc)
    · rw [List.length_drop]
      omega
    · rw [List.getLast?_drop, if_neg (by omega)]
    · rw [List.take_append_drop]
      exact natOfDigits_digitChars d.digits
  · -- zeros are between the point and the digits
    refine ⟨['0'], List.replicate (places - ds.length) '0' ++ ds,
      written_of_neg hplaces hpos ?_ ?_ ?_ ?_ ?_ ?_ ?_⟩
    · rw [positional, if_neg h, hcount]
      exact if_neg hlt
    · exact List.cons_ne_nil _ _
    · exact allDigits_zeros 1
    · intro c hc
      rcases List.mem_append.1 hc with hc | hc
      · exact allDigits_zeros _ c hc
      · exact hds c hc
    · rw [List.length_append, List.length_replicate]
      omega
    · rw [List.getLast?_append, getLast?_digitChars]
      rfl
    · rw [← List.append_assoc]
      show natOfDigits (List.replicate (places - ds.length + 1) '0' ++ ds) = _
      rw [natOfDigits_zeros_append]
      exact natOfDigits_digitChars d.digits

end Lox.Decimal
