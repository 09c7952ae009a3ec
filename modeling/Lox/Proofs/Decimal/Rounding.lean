import Mathlib.Tactic.Positivity
import Mathlib.Tactic.Ring
import Lox.Decimal

/-! # Decimals that are read without rounding

A binary64 number is a mantissa times a power of two. A decimal of exactly that value is read as
it, whichever of its digits stand in front of the point, and a decimal that is an integer is read as
one, rounded or not.

* **`Binary64.Canonical`** — the one mantissa and exponent of a number that rounding leads to;
* **`Binary64.round_eq_of_canonical`** — what has a canonical mantissa and exponent is not rounded;
* **`Binary64.exists_round_integer`** — an integer is rounded to an integer;
* **`Decimal.read_eq_of_integer`**, **`Decimal.read_eq_of_fraction`** — decimals with the exact
  value of a number. -/

namespace Lox

open Float.Model Float.Model.UnpackedFloat

/-- A logarithm grows by one with every doubling. -/
theorem log2_mul_two_pow {m : Nat} (hm : m ≠ 0) (k : Nat) : (m * 2 ^ k).log2 = m.log2 + k := by
  have hlow := Nat.log2_self_le hm
  have hhigh := Nat.lt_log2_self (n := m)
  rw [Nat.log2_eq_iff (by positivity)]
  constructor
  · rw [pow_add]
    exact Nat.mul_le_mul_right _ hlow
  · rw [Nat.add_right_comm, pow_add]
    exact Nat.mul_lt_mul_of_pos_right hhigh (by positivity)

namespace Binary64

/-! ## Canonical mantissas and exponents -/

/-- **The mantissa and exponent that rounding leads to**: the mantissa has 53 digits, or fewer if
the exponent is the least one. -/
structure Canonical (m : Nat) (e : Int) : Prop where
  pos : 0 < m
  lt : m < 2 ^ 53
  least : -1074 ≤ e
  full : 2 ^ 52 ≤ m ∨ e = -1074

/-- The exponent that a mantissa of 53 digits has, or the least one. -/
theorem targetExponent_eq (x : Int) :
    Format.binary64.targetExponent x = max (x - 53) (-1074) := rfl

variable {m : Nat} {e : Int}

/-- The logarithm of a canonical mantissa. -/
theorem Canonical.log2_le (h : Canonical m e) : m.log2 ≤ 52 :=
  Nat.le_of_lt_succ ((Nat.log2_lt h.pos.ne').2 h.lt)

/-- A mantissa and an exponent are where rounding leads to, if those are canonical that are left
when zeros at the end are dropped. -/
theorem Canonical.targetExponent (h : Canonical m e) (k : Nat) :
    Format.binary64.targetExponent (totalExponent (m * 2 ^ k) (e - k)) = e := by
  have hlog := h.log2_le
  rw [targetExponent_eq, totalExponent, log2_mul_two_pow h.pos.ne']
  rcases h.full with hfull | rfl
  · have hlog' := (Nat.le_log2 h.pos.ne').2 hfull
    have hleast := h.least
    omega
  · omega

/-! ## Rounding -/

/-- Zeros at the end of a mantissa are dropped without a loss. -/
theorem shiftRight_eq (m k : Nat) :
    (⟨m * 2 ^ k, false, false⟩ : ExtendedMantissa) >>> k = ⟨m, false, false⟩ := by
  induction k generalizing m with
  | zero =>
    show (⟨m * 2 ^ 0, false, false⟩ : ExtendedMantissa) = _
    rw [pow_zero, mul_one]
  | succ k ih =>
    show ExtendedMantissa.shiftRightOne ((⟨m * 2 ^ (k + 1), false, false⟩ : ExtendedMantissa) >>> k)
      = _
    have hpow : m * 2 ^ (k + 1) = (m * 2) * 2 ^ k := by ring
    rw [hpow, ih]
    simp [ExtendedMantissa.shiftRightOne]

/-- The digits that are left behind a shift. -/
theorem mantissa_shiftRight (x : ExtendedMantissa) (k : Nat) :
    (x >>> k).mantissa = x.mantissa / 2 ^ k := by
  induction k with
  | zero =>
    show x.mantissa = _
    rw [pow_zero, Nat.div_one]
  | succ k ih =>
    show (x >>> k).mantissa / 2 = _
    rw [ih, Nat.div_div_eq_div_mul, pow_succ]

/-- A canonical mantissa is shifted to its own place. -/
theorem Canonical.shiftToTargetExponent (h : Canonical m e) (k : Nat) :
    shiftToTargetExponent Format.binary64 (m * 2 ^ k) (e - k) .exact =
      (⟨m, false, false⟩, e) := by
  have hshift : (e - (e - (k : Int))).toNat = k := by omega
  simp only [UnpackedFloat.shiftToTargetExponent, shiftToExponent, h.targetExponent, hshift,
    ExtendedMantissa.ofMantissaAndAccuracy, shiftRight_eq, Int.sub_add_cancel]

/-- Rounding leads to a canonical mantissa, if one is left when zeros at the end of the rounded
mantissa are dropped. -/
theorem round_of_shift {m' : Nat} {e' e₁ : Int} {s : Sign} {accuracy : Accuracy}
    {x : ExtendedMantissa}
    (hshift : shiftToTargetExponent Format.binary64 m e accuracy = (x, e₁)) (h : Canonical m' e')
    {k : Nat} (hm : x.roundedMantissa = m' * 2 ^ k) (he : e₁ = e' - k) :
    roundWithAccuracy Format.binary64 s m e accuracy = .finite s m' e' h.pos := by
  have hagain := h.shiftToTargetExponent k
  unfold roundWithAccuracy
  rw [hshift]
  show (match UnpackedFloat.shiftToTargetExponent Format.binary64 x.roundedMantissa e₁ .exact with
    | (x, e') => if hm : x.mantissa = 0 then UnpackedFloat.zero s
      else .finite s x.mantissa e' (Nat.pos_of_ne_zero hm)) = _
  rw [hm, he, hagain]
  exact dif_neg h.pos.ne'

/-- **What has a canonical mantissa and exponent is not rounded.** -/
theorem round_eq_of_canonical (h : Canonical m e) (s : Sign) (k : Nat) :
    roundWithAccuracy Format.binary64 s (m * 2 ^ k) (e - k) .exact = .finite s m e h.pos := by
  have hrounded : (⟨m, false, false⟩ : ExtendedMantissa).roundedMantissa = m * 2 ^ 0 := by
    rw [pow_zero, mul_one]
    rfl
  exact round_of_shift (h.shiftToTargetExponent k) h hrounded (by omega)

/-- A mantissa is rounded to itself or to the next one. -/
theorem roundedMantissa_bounds (x : ExtendedMantissa) :
    x.mantissa ≤ x.roundedMantissa ∧ x.roundedMantissa ≤ x.mantissa + 1 := by
  obtain ⟨n, round, sticky⟩ := x
  cases round <;> cases sticky <;>
    simp [ExtendedMantissa.roundedMantissa, ExtendedMantissa.accuracy,
      Accuracy.roundToNearestEven]
  -- of two equally near ones the even one
  omega

/-- A mantissa that is rounded up to 53 digits or one more has a canonical form, of no smaller
exponent. -/
theorem exists_round_of_full {e₁ : Int} {s : Sign} {accuracy : Accuracy}
    {x : ExtendedMantissa}
    (hshift : shiftToTargetExponent Format.binary64 m e accuracy = (x, e₁))
    (hlow : 2 ^ 52 ≤ x.mantissa) (hhigh : x.mantissa < 2 ^ 53) (hleast : -1074 ≤ e₁) :
    ∃ m' e', ∃ h : Canonical m' e',
      roundWithAccuracy Format.binary64 s m e accuracy = .finite s m' e' h.pos ∧ e₁ ≤ e' := by
  have hrounded := roundedMantissa_bounds x
  -- all that is left is to drop the zero that rounding up to a power of two leaves at the end
  obtain ⟨m', e', h, k, hm, he, hle⟩ : ∃ m' e', ∃ _ : Canonical m' e', ∃ k : Nat,
      x.roundedMantissa = m' * 2 ^ k ∧ e₁ = e' - k ∧ e₁ ≤ e' := by
    by_cases hsmall : x.roundedMantissa < 2 ^ 53
    · exact ⟨x.roundedMantissa, e₁, ⟨by omega, hsmall, hleast, .inl (by omega)⟩, 0,
        by omega, by omega, by omega⟩
    · exact ⟨2 ^ 52, e₁ + 1, ⟨by decide, by decide, by omega, .inl (Nat.le_refl _)⟩, 1,
        by omega, by omega, by omega⟩
  exact ⟨m', e', h, round_of_shift hshift h hm he, hle⟩

/-- A mantissa and an exponent that stand for an integer. -/
def IsInteger (m : Nat) (e : Int) : Prop := 2 ^ (-e).toNat ∣ m * 2 ^ e.toNat

/-- An integer of at most 53 digits is not rounded. -/
theorem exists_round_of_small {n : Nat} (hn : 0 < n) (hsmall : n.log2 ≤ 52) (s : Sign) :
    ∃ m e, ∃ h : Canonical m e, roundWithAccuracy Format.binary64 s (n * 2 ^ 53) (-53) .exact =
      .finite s m e h.pos ∧ IsInteger m e := by
  obtain ⟨k, hk⟩ : ∃ k, k + n.log2 = 52 := ⟨52 - n.log2, by omega⟩
  have hfull : 2 ^ 52 ≤ n * 2 ^ k := by
    calc 2 ^ 52 = 2 ^ n.log2 * 2 ^ k := by rw [← pow_add, Nat.add_comm, hk]
      _ ≤ n * 2 ^ k := Nat.mul_le_mul_right _ (Nat.log2_self_le hn.ne')
  have hlt : n * 2 ^ k < 2 ^ 53 := by
    calc n * 2 ^ k < 2 ^ (n.log2 + 1) * 2 ^ k :=
          Nat.mul_lt_mul_of_pos_right Nat.lt_log2_self (by positivity)
      _ = 2 ^ 53 := by rw [← pow_add]; congr 1; omega
  have h : Canonical (n * 2 ^ k) (-(k : Int)) := ⟨by positivity, hlt, by omega, .inl hfull⟩
  refine ⟨n * 2 ^ k, -(k : Int), h, ?_, ?_⟩
  · have hround := round_eq_of_canonical h s (53 - k)
    have hmantissa : n * 2 ^ k * 2 ^ (53 - k) = n * 2 ^ 53 := by
      rw [Nat.mul_assoc, ← pow_add]
      congr 2
      omega
    have hexponent : -(k : Int) - (53 - k : Nat) = -53 := by omega
    rwa [hmantissa, hexponent] at hround
  · unfold IsInteger
    rw [Int.neg_neg, Int.toNat_natCast]
    exact ⟨n * 2 ^ (-(k : Int)).toNat, by ring⟩

/-- An integer of more digits is rounded at a digit in front of the point. -/
theorem exists_round_of_large {n : Nat} (hlarge : 52 < n.log2) (s : Sign) :
    ∃ m e, ∃ h : Canonical m e, roundWithAccuracy Format.binary64 s (n * 2 ^ 53) (-53) .exact =
      .finite s m e h.pos ∧ IsInteger m e := by
  have hn : n ≠ 0 := by
    rintro rfl
    simp at hlarge
  obtain ⟨k, hk⟩ : ∃ k, n.log2 = k + 52 := ⟨n.log2 - 52, by omega⟩
  let x : ExtendedMantissa := (⟨n * 2 ^ 53, false, false⟩ : ExtendedMantissa) >>> (k + 53)
  have hshift : shiftToTargetExponent Format.binary64 (n * 2 ^ 53) (-53) .exact =
      (x, (k : Int)) := by
    have htarget : Format.binary64.targetExponent (totalExponent (n * 2 ^ 53) (-53)) = k := by
      rw [targetExponent_eq, totalExponent, log2_mul_two_pow hn]
      omega
    have hamount : ((k : Int) - -53).toNat = k + 53 := by omega
    have hexponent : (-53 : Int) + (k + 53 : Nat) = k := by omega
    simp only [shiftToTargetExponent, shiftToExponent, htarget, hamount, hexponent]
    rfl
  have hx : x.mantissa = n / 2 ^ k := by
    rw [mantissa_shiftRight, pow_add]
    exact Nat.mul_div_mul_right _ _ (by decide)
  have hfull : 2 ^ 52 ≤ x.mantissa := by
    rw [hx, Nat.le_div_iff_mul_le (by positivity), ← pow_add, Nat.add_comm, ← hk]
    exact Nat.log2_self_le hn
  have hlt : x.mantissa < 2 ^ 53 := by
    rw [hx, Nat.div_lt_iff_lt_mul (by positivity), ← pow_add]
    refine Nat.lt_of_lt_of_eq Nat.lt_log2_self ?_
    congr 1
    omega
  obtain ⟨m, e, h, hround, hle⟩ := exists_round_of_full hshift hfull hlt (by omega)
  refine ⟨m, e, h, hround, ?_⟩
  have hzero : (-e).toNat = 0 := by omega
  unfold IsInteger
  rw [hzero, pow_zero]
  exact Nat.one_dvd _

/-- **An integer is rounded to an integer.** -/
theorem exists_round_integer {n : Nat} (hn : 0 < n) (s : Sign) :
    ∃ m e, ∃ h : Canonical m e, roundWithAccuracy Format.binary64 s (n * 2 ^ 53) (-53) .exact =
      .finite s m e h.pos ∧ IsInteger m e := by
  by_cases hsmall : n.log2 ≤ 52
  · exact exists_round_of_small hn hsmall s
  · exact exists_round_of_large (by omega) s

end Binary64

/-! ## Reading decimals -/

namespace Decimal

open Binary64

/-- The number that a decimal is read as, in parts. -/
def read (d : Decimal) : UnpackedFloat :=
  UnpackedFloat.ofScientific Format.binary64 d.digits d.exponent

/-- A decimal that is an integer is read by rounding that integer. -/
theorem read_of_nonneg {digits : Nat} (hdigits : 0 < digits) {k : Nat} (hk : k ≤ 2048) :
    read ⟨digits, k⟩ =
      roundWithAccuracy Format.binary64 .positive (digits * 10 ^ k * 2 ^ 53) (-53) .exact := by
  unfold read UnpackedFloat.ofScientific
  have hsmall : ¬ ((k : Int) > 2 ^ Format.binary64.exponentBits) := by
    show ¬ ((k : Int) > 2048)
    omega
  have hlarge : ¬ ((k : Int) < -((2 ^ Format.binary64.exponentBits : Int) + digits.log2)) := by
    show ¬ ((k : Int) < -((2048 : Int) + digits.log2))
    omega
  rw [dif_neg hdigits.ne', if_neg hsmall, if_neg hlarge, if_pos (Int.natCast_nonneg k)]
  show roundWithAccuracy Format.binary64 .positive (digits <<< 53 * 10 ^ (k : Int).toNat) (-53 + 0)
    .exact = _
  rw [Nat.shiftLeft_eq, Int.toNat_natCast, Int.add_zero, Nat.mul_right_comm]

/-- **An integer with the value of a number is read as it**, whichever of its zeros are in the
exponent. -/
theorem read_eq_of_integer {m : Nat} {e : Int} (h : Canonical m e) (he : e ≤ 971)
    {digits k : Nat} (hvalue : digits * 10 ^ k * 2 ^ (-e).toNat = m * 2 ^ e.toNat) :
    read ⟨digits, k⟩ = .finite .positive m e h.pos := by
  have hpos : 0 < digits * 10 ^ k * 2 ^ (-e).toNat := by
    rw [hvalue]
    exact Nat.mul_pos h.pos (by positivity)
  have hdigits : 0 < digits := by
    rcases Nat.eq_zero_or_pos digits with rfl | hdigits
    · simp at hpos
    · exact hdigits
  have hinteger : 1 ≤ digits * 10 ^ k := Nat.mul_pos hdigits (by positivity)
  have hk : k ≤ 2048 := by
    -- otherwise it would be above all numbers
    have hten : 2 ^ k < 2 ^ (53 + e.toNat) := by
      calc 2 ^ k ≤ 10 ^ k := Nat.pow_le_pow_left (by decide) k
        _ ≤ digits * 10 ^ k := Nat.le_mul_of_pos_left _ hdigits
        _ ≤ digits * 10 ^ k * 2 ^ (-e).toNat := Nat.le_mul_of_pos_right _ (by positivity)
        _ = m * 2 ^ e.toNat := hvalue
        _ < 2 ^ 53 * 2 ^ e.toNat := Nat.mul_lt_mul_of_pos_right h.lt (by positivity)
        _ = 2 ^ (53 + e.toNat) := (pow_add _ _ _).symm
    have := (Nat.pow_lt_pow_iff_right (by decide)).1 hten
    omega
  have hleast : (-e).toNat < 53 ∨ 0 ≤ e := by
    by_cases hneg : e < 0
    · left
      have hzero : e.toNat = 0 := by omega
      rw [hzero, pow_zero, mul_one] at hvalue
      have htwo : 2 ^ (-e).toNat < 2 ^ 53 := by
        calc 2 ^ (-e).toNat ≤ digits * 10 ^ k * 2 ^ (-e).toNat := Nat.le_mul_of_pos_left _ hinteger
          _ = m := hvalue
          _ < 2 ^ 53 := h.lt
      exact (Nat.pow_lt_pow_iff_right (by decide)).1 htwo
    · exact .inr (by omega)
  obtain ⟨j, hj⟩ : ∃ j : Nat, e - j = -53 := ⟨(e + 53).toNat, by omega⟩
  have hmantissa : digits * 10 ^ k * 2 ^ 53 = m * 2 ^ j := by
    have hexponents : 2 ^ e.toNat * 2 ^ 53 = 2 ^ j * 2 ^ (-e).toNat := by
      rw [← pow_add, ← pow_add]
      congr 1
      omega
    refine Nat.eq_of_mul_eq_mul_right (show 0 < 2 ^ (-e).toNat by positivity) ?_
    calc digits * 10 ^ k * 2 ^ 53 * 2 ^ (-e).toNat
        = digits * 10 ^ k * 2 ^ (-e).toNat * 2 ^ 53 := by ring
      _ = m * (2 ^ e.toNat * 2 ^ 53) := by rw [hvalue]; ring
      _ = m * 2 ^ j * 2 ^ (-e).toNat := by rw [hexponents]; ring
  rw [read_of_nonneg hdigits hk, hmantissa, ← hj]
  exact round_eq_of_canonical h .positive j

/-- A quotient that has no more places than are taken is found without a remainder. -/
theorem divCore_eq {digits m l k : Nat} (hvalue : digits * 2 ^ l = m * 10 ^ k)
    (htarget : min 0 (Format.binary64.targetExponent
      (totalExponent digits 0 - totalExponent (10 ^ k) 0)) ≤ -(l : Int)) :
    ∃ j : Nat, divCore Format.binary64 digits 0 (10 ^ k) 0 =
      (m * 2 ^ j, -(l : Int) - j, .exact) := by
  generalize hplaces : min (0 : Int) (Format.binary64.targetExponent
    (totalExponent digits 0 - totalExponent (10 ^ k) 0)) = places at htarget
  obtain ⟨j, rfl⟩ : ∃ j : Nat, places = -(l : Int) - j := ⟨(-(l : Int) - places).toNat, by omega⟩
  have hshift : (0 - (-(l : Int) - j)).toNat = l + j := by omega
  have hshifted : digits <<< (l + j) = m * 2 ^ j * 10 ^ k := by
    rw [Nat.shiftLeft_eq, pow_add, ← Nat.mul_assoc, hvalue]
    ring
  refine ⟨j, ?_⟩
  have hten : 0 < 10 ^ k := by positivity
  simp only [divCore, Int.sub_zero, hplaces, hshift, hshifted, Nat.mul_div_cancel _ hten,
    Nat.mul_mod_left, accuracyOfFraction, if_true]

/-- **A fraction with the value of a number is read as it.** -/
theorem read_eq_of_fraction {m l : Nat} (h : Canonical m (-(l : Int))) {digits k : Nat}
    (hk : 0 < k) (hkl : k ≤ l) (hvalue : digits * 2 ^ l = m * 10 ^ k) :
    read ⟨digits, -(k : Int)⟩ = .finite .positive m (-(l : Int)) h.pos := by
  have hpos : 0 < digits * 2 ^ l := by
    rw [hvalue]
    exact Nat.mul_pos h.pos (by positivity)
  have hdigits : 0 < digits := Nat.pos_of_mul_pos_right hpos
  have hleast := h.least
  -- the quotient of the digits has at most one digit less than the mantissa
  have htarget : min 0 (Format.binary64.targetExponent
      (totalExponent digits 0 - totalExponent (10 ^ k) 0)) ≤ -(l : Int) := by
    have hlog : digits.log2 + l < m.log2 + (10 ^ k).log2 + 2 := by
      rw [← log2_mul_two_pow hdigits.ne', hvalue,
        Nat.log2_lt (Nat.mul_pos h.pos (by positivity)).ne']
      have hproduct : m * 10 ^ k < 2 ^ (m.log2 + 1) * 2 ^ ((10 ^ k).log2 + 1) :=
        Nat.mul_lt_mul'' Nat.lt_log2_self Nat.lt_log2_self
      rw [← pow_add] at hproduct
      refine Nat.lt_of_lt_of_eq hproduct ?_
      congr 1
      omega
    have hm := h.log2_le
    rw [targetExponent_eq, totalExponent, totalExponent]
    omega
  obtain ⟨j, hdiv⟩ := divCore_eq hvalue htarget
  unfold read UnpackedFloat.ofScientific
  have hsmall : ¬ (-(k : Int) > 2 ^ Format.binary64.exponentBits) := by
    show ¬ (-(k : Int) > 2048)
    omega
  have hlarge : ¬ (-(k : Int) < -((2 ^ Format.binary64.exponentBits : Int) + digits.log2)) := by
    show ¬ (-(k : Int) < -((2048 : Int) + digits.log2))
    omega
  rw [dif_neg hdigits.ne', if_neg hsmall, if_neg hlarge,
    if_neg (show ¬ 0 ≤ -(k : Int) by omega)]
  show (match divCore Format.binary64 digits 0 (10 ^ (-(-(k : Int))).toNat) 0 with
    | (m, e, accuracy) => roundWithAccuracy Format.binary64 .positive m e accuracy) = _
  rw [Int.neg_neg, Int.toNat_natCast, hdiv]
  exact round_eq_of_canonical h .positive j

end Decimal

end Lox
