import Lox.Proofs.Decimal.Packing

/-! # The shortest decimal reads back

The decimal that a number is printed with is read as that number: it was tried, or it is exact. Its
last digit is no zero, and its exponent is negative exactly if the number is no integer, because an
integer is found on the grid of the integers at the latest.

* **`Decimal.exists_trim`** — trimming moves zeros into the exponent;
* **`Decimal.integer_of_toFloat_eq`** — a decimal without places is read as an integer;
* **`Decimal.toFloat_zeros`** — its zeros may stand behind its digits;
* **`Decimal.read_trim_exact`** — the exact decimal of a number is read as it;
* **`Decimal.shortest_cases`** — how the shortest decimal is found;
* **`Decimal.StandsFor`**, **`Decimal.shortest_of_finite`** — the shortest decimal of a number
  stands for it;
* **`NumberView.exists_ofFloat_eq`** — every finite number is seen as its sign and such a decimal;
* **`Binary64.signed_abs`** — its sign and its magnitude make up the number. -/

namespace Lox

open Binary64 Float.Model Float.Model.UnpackedFloat

namespace Decimal

/-! ## Trimming -/

/-- **Trimming moves zeros into the exponent** until the last digit is none. -/
theorem exists_trim (digits : Nat) (exponent : Int) :
    ∃ j : Nat, (trim digits exponent).exponent = exponent + j ∧
      (trim digits exponent).digits * 10 ^ j = digits ∧
      (digits ≠ 0 → (trim digits exponent).digits % 10 ≠ 0) := by
  fun_induction trim digits exponent with
  | case1 digits exponent h ih =>
    obtain ⟨j, hexponent, hdigits, hlast⟩ := ih
    refine ⟨j + 1, by rw [hexponent]; push_cast; ring, ?_, fun _ => hlast (by omega)⟩
    rw [pow_succ, ← Nat.mul_assoc, hdigits]
    omega
  | case2 digits exponent h =>
    refine ⟨0, (Int.add_zero _).symm, Nat.mul_one _, fun hne hlast => h ⟨hne, hlast⟩⟩

/-! ## Decimals that are read as a number -/

variable {m : Nat} {e : Int}

/-- The parts of the number that a decimal is read as. -/
theorem unpack_toFloat (d : Decimal) :
    d.toFloat.toModel.unpack = (Float.Model.pack d.read).unpack := rfl

/-- The number that a decimal is read as has the parts read. -/
theorem toFloat_of_read {d : Decimal} {x : UnpackedFloat} (h : d.read = x) :
    d.toFloat = .ofModel (.pack x) := by
  rw [← h]
  rfl

/-- A decimal of no digits is read as zero. -/
theorem digits_ne_zero {d : Decimal} {hm : 0 < m}
    (h : d.toFloat.toModel.unpack = .finite .positive m e hm) : d.digits ≠ 0 := by
  intro hzero
  have hread : d.read = .zero .positive := by
    unfold read UnpackedFloat.ofScientific
    exact dif_pos hzero
  rw [unpack_toFloat, hread, unpack_pack_zero] at h
  cases h

/-- A trimmed decimal that is not read as zero ends in no zero. -/
theorem last_ne_of_trim {digits : Nat} {exponent : Int} {hm : 0 < m}
    (h : (trim digits exponent).toFloat.toModel.unpack = .finite .positive m e hm) :
    (trim digits exponent).digits % 10 ≠ 0 := by
  obtain ⟨j, -, hdigits, hlast⟩ := exists_trim digits exponent
  refine hlast ?_
  rintro rfl
  exact (Nat.mul_pos (Nat.pos_of_ne_zero (digits_ne_zero h)) (by positivity)).ne' hdigits

/-- A decimal that is read as a finite number has no more zeros than can be read. -/
theorem exponent_le_of_isFinite {digits k : Nat} (hdigits : digits ≠ 0)
    (h : (toFloat ⟨digits, k⟩).isFinite = true) : k ≤ 2048 := by
  by_contra hlarge
  have hread : read ⟨digits, k⟩ = .infinity .positive := by
    unfold read UnpackedFloat.ofScientific
    rw [dif_neg hdigits]
    refine if_pos ?_
    show (k : Int) > 2048
    omega
  change (toFloat ⟨digits, k⟩).toModel.unpack.isFinite = true at h
  rw [unpack_toFloat, hread] at h
  cases h

/-- **A decimal without places is read as an integer.** -/
theorem integer_of_toFloat_eq {d : Decimal} {hm : 0 < m}
    (h : d.toFloat.toModel.unpack = .finite .positive m e hm) (hnonneg : 0 ≤ d.exponent) :
    IsInteger m e := by
  have hdigits := digits_ne_zero h
  obtain ⟨digits, exponent⟩ := d
  obtain ⟨k, rfl⟩ := Int.eq_ofNat_of_zero_le hnonneg
  have hfinite : (toFloat ⟨digits, k⟩).isFinite = true := by
    change (toFloat ⟨digits, k⟩).toModel.unpack.isFinite = true
    rw [h]
    rfl
  have hk := exponent_le_of_isFinite hdigits hfinite
  have hpos : 0 < digits * 10 ^ k := Nat.mul_pos (Nat.pos_of_ne_zero hdigits) (by positivity)
  obtain ⟨m', e', hcanonical, hround, hinteger⟩ := exists_round_integer hpos .positive
  rw [unpack_toFloat, read_of_nonneg (Nat.pos_of_ne_zero hdigits) hk, hround] at h
  by_cases hle : e' ≤ 971
  · rw [unpack_pack hcanonical hle] at h
    cases h
    exact hinteger
  · rw [unpack_pack_of_lt hcanonical (by omega)] at h
    cases h

/-- **Zeros may stand behind the digits** as well as in the exponent of what is read as a finite
number. -/
theorem toFloat_zeros {d : Decimal} (h : d.toFloat.isFinite = true) (hnonneg : 0 ≤ d.exponent) :
    toFloat ⟨d.digits * 10 ^ d.exponent.toNat, 0⟩ = d.toFloat := by
  obtain ⟨digits, exponent⟩ := d
  obtain ⟨k, rfl⟩ := Int.eq_ofNat_of_zero_le hnonneg
  simp only [Int.toNat_natCast]
  refine toFloat_of_read (?_ : read ⟨digits * 10 ^ k, (0 : Nat)⟩ = read ⟨digits, k⟩)
  rcases Nat.eq_zero_or_pos digits with rfl | hdigits
  · rw [Nat.zero_mul]
    rfl
  · rw [read_of_nonneg (Nat.mul_pos hdigits (by positivity)) (Nat.zero_le _),
      read_of_nonneg hdigits (exponent_le_of_isFinite hdigits.ne' h), pow_zero, Nat.mul_one]

/-- An integer with the value of a number is read as it when it is trimmed. -/
theorem read_trim_integer (h : Canonical m e) (he : e ≤ 971) {value : Nat}
    (hvalue : value * 2 ^ (-e).toNat = m * 2 ^ e.toNat) :
    (trim value 0).read = .finite .positive m e h.pos := by
  obtain ⟨j, hexponent, hdigits, -⟩ := exists_trim value 0
  generalize trim value 0 = d at hexponent hdigits ⊢
  obtain ⟨digits, exponent⟩ := d
  obtain rfl : exponent = j := by simpa using hexponent
  exact read_eq_of_integer h he (hdigits ▸ hvalue)

/-- **The exact decimal of a number is read as it**, trimmed or not. -/
theorem read_trim_exact (h : Canonical m e) (he : e ≤ 971) :
    (trim (m * 2 ^ e.toNat * 5 ^ (-e).toNat) (-((-e).toNat : Int))).read =
      .finite .positive m e h.pos := by
  generalize hl : (-e).toNat = l
  obtain ⟨j, hexponent, hdigits, -⟩ := exists_trim (m * 2 ^ e.toNat * 5 ^ l) (-(l : Int))
  generalize trim (m * 2 ^ e.toNat * 5 ^ l) (-(l : Int)) = d at hexponent hdigits ⊢
  obtain ⟨digits, exponent⟩ := d
  simp only at hexponent hdigits
  have hten : (10 : Nat) ^ l = 2 ^ l * 5 ^ l := by rw [← Nat.mul_pow]
  by_cases hj : l ≤ j
  · -- all places are zeros
    obtain ⟨k, rfl⟩ := Nat.exists_eq_add_of_le hj
    obtain rfl : exponent = (k : Int) := by omega
    refine read_eq_of_integer h he ?_
    rw [hl]
    refine Nat.eq_of_mul_eq_mul_right (show 0 < 5 ^ l by positivity) ?_
    calc digits * 10 ^ k * 2 ^ l * 5 ^ l = digits * 10 ^ (l + k) := by rw [pow_add, hten]; ring
      _ = m * 2 ^ e.toNat * 5 ^ l := hdigits
  · -- places are left, so the number is a fraction
    obtain ⟨k, hk⟩ : ∃ k : Nat, l = j + (k + 1) := ⟨l - j - 1, by omega⟩
    obtain rfl : exponent = -((k + 1 : Nat) : Int) := by omega
    obtain rfl : e = -(l : Int) := by omega
    have hzero : (-(l : Int)).toNat = 0 := by omega
    rw [hzero, pow_zero, Nat.mul_one] at hdigits
    refine read_eq_of_fraction h (Nat.succ_pos k) (by omega) ?_
    refine Nat.eq_of_mul_eq_mul_right (show 0 < 10 ^ j by positivity) ?_
    calc digits * 2 ^ l * 10 ^ j = digits * 10 ^ j * 2 ^ l := Nat.mul_right_comm _ _ _
      _ = m * 10 ^ l := by rw [hdigits, hten]; ring
      _ = m * 10 ^ (k + 1) * 10 ^ j := by rw [hk, pow_add]; ring

/-! ## The search -/

variable {num den : Nat} {target : Float} {d : Decimal}

/-- What is found on a grid reads back, and is a trimmed point of the grid. -/
theorem exists_of_onGrid? {exponent : Int} (h : onGrid? num den exponent target = some d) :
    d.toFloat = target ∧ ∃ c, d = trim c exponent := by
  unfold onGrid? at h
  simp only at h
  have hmem := List.mem_of_find?_eq_some h
  have hreads := List.find?_some h
  obtain ⟨c, -, rfl⟩ := List.mem_map.1 hmem
  exact ⟨by simpa using hreads, c, rfl⟩

/-- An integer that reads back is found on the grid of the integers. -/
theorem isSome_onGrid?_zero {n : Nat} (hden : 0 < den) (hnum : num = n * den)
    (hreads : (trim n 0).toFloat = target) : (onGrid? num den 0 target).isSome := by
  have hbelow : num / den = n := by rw [hnum, Nat.mul_div_cancel _ hden]
  have hrest : num % den = 0 := by rw [hnum, Nat.mul_mod_left]
  unfold onGrid?
  simp [hbelow, hrest, hden, hreads]

/-- **The shortest decimal is that of the first grid** on which one reads back, or the exact one. -/
theorem shortest_cases (num den : Nat) (target : Float) :
    (∃ k : Nat,
      onGrid? num den (pointPosition num den - (k + 1 : Nat)) target =
        some (shortest num den target) ∧
      ∀ i < k, onGrid? num den (pointPosition num den - (i + 1 : Nat)) target = none) ∨
    shortest num den target = trim (num * 5 ^ den.log2) (-(den.log2 : Int)) := by
  unfold shortest
  simp only
  split
  · next d hfound =>
    left
    rw [List.findSome?_map, List.findSome?_eq_some_iff] at hfound
    obtain ⟨before, k, after, hrange, hgrid, hnone⟩ := hfound
    -- what was tried before are the numbers below
    rw [List.range_eq_range', List.range'_eq_append_iff] at hrange
    obtain ⟨k', -, rfl, hafter⟩ := hrange
    obtain ⟨hk, -⟩ := List.range'_eq_cons_iff.1 hafter.symm
    refine ⟨k, hgrid, fun i hi => hnone i (List.mem_range'_1.2 ?_)⟩
    omega
  · exact .inr rfl

/-! ## The result -/

/-- **A decimal stands for a number**: it is read as its magnitude, has places behind the point
exactly if the number is no integer, and the last one of them is no zero. -/
structure StandsFor (d : Decimal) (n : Float) : Prop where
  toFloat_eq : d.toFloat = n.abs
  nonneg_iff : 0 ≤ d.exponent ↔ IsIntegral n
  last_ne : d.exponent < 0 → d.digits % 10 ≠ 0

/-- An integer stands in front of the point. -/
theorem pointPosition_pos {num den : Nat} (h : den ≤ num) : 0 < pointPosition num den := by
  rw [pointPosition, if_pos h]
  exact_mod_cast List.length_pos_of_ne_nil Nat.toDigits_ne_nil

/-- Digits that end in no zero and stand for an integer have no places. -/
theorem nonneg_of_mul_eq {digits value l : Nat} {exponent : Int} {j : Nat}
    (hlast : digits % 10 ≠ 0) (hexponent : exponent = -(l : Int) + j)
    (hvalue : digits * 10 ^ j = value * 10 ^ l) : 0 ≤ exponent := by
  by_contra hneg
  obtain ⟨k, rfl⟩ : ∃ k, l = j + (k + 1) := ⟨l - j - 1, by omega⟩
  have hdigits : digits = value * 10 ^ k * 10 := by
    refine Nat.eq_of_mul_eq_mul_right (show 0 < 10 ^ j by positivity) ?_
    rw [hvalue, pow_add, pow_succ]
    ring
  omega

/-- **The shortest decimal reads back**, if the exact one does, and is a trimmed one. -/
theorem toFloat_shortest
    (hexact : (trim (num * 5 ^ den.log2) (-(den.log2 : Int))).toFloat = target) :
    (shortest num den target).toFloat = target ∧
      ∃ digits exponent, shortest num den target = trim digits exponent := by
  rcases shortest_cases num den target with ⟨k, hgrid, -⟩ | hshortest
  · obtain ⟨hreads, c, htrim⟩ := exists_of_onGrid? hgrid
    exact ⟨hreads, c, _, htrim⟩
  · exact ⟨hshortest ▸ hexact, _, _, hshortest⟩

/-- **The shortest decimal of an integer has no places**: what is found has none or is found behind
the grid of the integers, where the integer itself reads back. -/
theorem shortest_nonneg {value l : Nat} (hvalue : 0 < value)
    (hreads : (trim value 0).toFloat = target)
    (hlast : (shortest (value * 2 ^ l) (2 ^ l) target).digits % 10 ≠ 0) :
    0 ≤ (shortest (value * 2 ^ l) (2 ^ l) target).exponent := by
  have hden : 0 < 2 ^ l := by positivity
  rcases shortest_cases (value * 2 ^ l) (2 ^ l) target with ⟨k, hgrid, hnone⟩ | hshortest
  · obtain ⟨-, c, htrim⟩ := exists_of_onGrid? hgrid
    obtain ⟨j, hexponent, -⟩ := exists_trim c
      (pointPosition (value * 2 ^ l) (2 ^ l) - (k + 1 : Nat))
    have hpoint := pointPosition_pos (Nat.le_mul_of_pos_left (2 ^ l) hvalue)
    rw [← htrim] at hexponent
    by_contra hneg
    -- the grid of the integers was tried before
    obtain ⟨i, hi, hzero⟩ : ∃ i < k, pointPosition (value * 2 ^ l) (2 ^ l) - (i + 1 : Nat) = 0 :=
      ⟨(pointPosition (value * 2 ^ l) (2 ^ l)).toNat - 1, by omega, by omega⟩
    have hfound := isSome_onGrid?_zero hden rfl hreads
    rw [← hzero, hnone i hi] at hfound
    cases hfound
  · rw [Nat.log2_two_pow] at hshortest
    obtain ⟨j, hexponent, hdigits, -⟩ := exists_trim (value * 2 ^ l * 5 ^ l) (-(l : Int))
    rw [← hshortest] at hexponent hdigits
    refine nonneg_of_mul_eq hlast hexponent (?_ : _ = value * 10 ^ l)
    rw [hdigits, Nat.mul_assoc, ← Nat.mul_pow]

/-- **The shortest decimal of a number stands for it.** -/
theorem shortest_of_finite {n : Float} {s : Sign} {hm : 0 < m}
    (h : n.toModel.unpack = .finite s m e hm) :
    StandsFor (shortest (m * 2 ^ e.toNat) (2 ^ (-e).toNat) n.abs) n := by
  obtain ⟨hcanonical, he⟩ := canonical_of_unpack h
  have hparts : n.abs.toModel.unpack = .finite .positive m e hm := by
    rw [abs_of_finite h]
    exact unpack_pack hcanonical he
  have hread {d : Decimal} (hd : d.read = .finite .positive m e hm) : d.toFloat = n.abs := by
    rw [abs_of_finite h]
    exact toFloat_of_read hd
  have hexact : (trim (m * 2 ^ e.toNat * 5 ^ (2 ^ (-e).toNat).log2)
      (-((2 ^ (-e).toNat).log2 : Int))).toFloat = n.abs := by
    rw [Nat.log2_two_pow]
    exact hread (read_trim_exact hcanonical he)
  obtain ⟨hreads, digits, exponent, htrim⟩ := toFloat_shortest hexact
  have hlast : (shortest (m * 2 ^ e.toNat) (2 ^ (-e).toNat) n.abs).digits % 10 ≠ 0 := by
    rw [htrim] at hreads ⊢
    exact last_ne_of_trim (hreads.symm ▸ hparts)
  refine ⟨hreads, Iff.trans ⟨?_, ?_⟩ (isIntegral_iff h).symm, fun _ => hlast⟩
  · exact integer_of_toFloat_eq (hreads.symm ▸ hparts)
  · rintro ⟨value, hvalue⟩
    rw [Nat.mul_comm _ value] at hvalue
    rw [hvalue] at hlast ⊢
    refine shortest_nonneg ?_ ?_ hlast
    · rcases Nat.eq_zero_or_pos value with rfl | hpos
      · have := Nat.mul_pos hm (show 0 < 2 ^ e.toNat by positivity)
        omega
      · exact hpos
    · exact hread (read_trim_integer hcanonical he hvalue.symm)

/-- The decimal of zero stands for the zeros. -/
theorem zero_standsFor {n : Float} {s : Sign} (h : n.toModel.unpack = .zero s) :
    StandsFor ⟨0, 0⟩ n where
  toFloat_eq := (abs_of_zero h).symm
  nonneg_iff := iff_of_true (Int.le_refl _) (isIntegral_of_zero h)
  last_ne := fun hneg => absurd hneg (Int.lt_irrefl _)

end Decimal

/-- The sign bit of a number. -/
def Binary64.signBit (n : Float) : Bool := n.toBits.toBitVec.msb

/-- **Every finite number is seen as its sign bit and a decimal that stands for it.** -/
theorem NumberView.exists_ofFloat_eq {n : Float} (h : n.isFinite = true) :
    ∃ d, ofFloat n = .finite (signBit n) d ∧ d.StandsFor n := by
  unfold ofFloat
  obtain ⟨s, hzero⟩ | ⟨s, m, e, hm, hfinite⟩ := zero_or_finite h
  · rw [hzero]
    refine ⟨⟨0, 0⟩, ?_, Decimal.zero_standsFor hzero⟩
    rw [signBit, Float.toBits, ← signIsNegative_eq (.inr hzero)]
  · rw [hfinite]
    refine ⟨_, ?_, Decimal.shortest_of_finite hfinite⟩
    rw [signBit, Float.toBits, ← signIsNegative_eq (.inl ⟨m, e, hm, hfinite⟩)]
    simp only [abs_eq_ite hfinite]
    rfl

/-- **A finite number is its magnitude with its sign.** -/
theorem Binary64.signed_abs {n : Float} (h : n.isFinite = true) :
    (if signBit n then -n.abs else n.abs) = n := by
  have hbits : Float.ofModel (.pack n.toModel.unpack) = n := Float.ofBits_toBits n
  obtain ⟨s, hzero⟩ | ⟨s, m, e, hm, hfinite⟩ := zero_or_finite h
  · have hsign : signBit n = signIsNegative s := (signIsNegative_eq (.inr hzero)).symm
    rw [hzero] at hbits
    rw [hsign, abs_of_zero hzero]
    cases s with
    | negative => exact hbits
    | positive => exact hbits
  · have hsign : signBit n = signIsNegative s :=
      (signIsNegative_eq (.inl ⟨m, e, hm, hfinite⟩)).symm
    obtain ⟨hcanonical, hle⟩ := canonical_of_unpack hfinite
    rw [hfinite] at hbits
    rw [hsign, abs_of_finite hfinite]
    cases s with
    | negative =>
      show Float.ofModel (.pack (Float.Model.pack (.finite .positive m e hm)).unpack.neg) = n
      rw [unpack_pack hcanonical hle]
      exact hbits
    | positive => exact hbits

end Lox
