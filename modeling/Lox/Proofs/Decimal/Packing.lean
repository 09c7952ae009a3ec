import Mathlib
import Lox.Proofs.Decimal.Rounding

/-! # Binary64 numbers and their parts

A finite binary64 number that is not zero is a sign with a canonical mantissa and exponent, and
every canonical mantissa with an exponent up to 971 is that of a number.

* **`Binary64.canonical_of_unpack`** — the parts of a number are canonical;
* **`Binary64.unpack_pack`** — canonical parts are those of a number;
* **`Binary64.signIsNegative_eq`** — the sign of a number is its first bit;
* **`Binary64.abs_of_finite`**, **`Binary64.abs_eq_ite`** — the magnitude of a number;
* **`Binary64.value`**, **`Binary64.isIntegral_iff`** — the value of a number, and when it is an
  integer. -/

namespace Lox.Binary64

open Float.Model Float.Model.UnpackedFloat

variable {m : Nat} {e : Int} {s : Sign}

/-! ## Unpacking -/

/-- The leading digit of a mantissa that is not kept. -/
theorem toNat_leading (v : BitVec 52) : (1#1 ++ v).toNat = 2 ^ 52 + v.toNat := by
  rw [BitVec.toNat_append, ← Nat.shiftLeft_add_eq_or_of_lt v.isLt]
  rfl

/-- **The parts of a number are canonical**, with an exponent of at most 971. -/
theorem canonical_of_unpack {x : Float.Model} {hm : 0 < m} (h : x.unpack = .finite s m e hm) :
    Canonical m e ∧ e ≤ 971 := by
  let v : BitVec 52 := @unpackMantissa Format.binary64 x.toBits.toBitVec
  let w : BitVec 11 := @unpackExponent Format.binary64 x.toBits.toBitVec
  have hv : v.toNat < 2 ^ 52 := v.isLt
  have hw : w.toNat < 2048 := w.isLt
  have hbias : ((Format.binary64.exponentBias : Int) + (52 : Nat)) = 1075 := rfl
  unfold Float.Model.unpack UnpackedFloat.unpack at h
  simp only [hbias] at h
  change (if w = -1#11 then _ else if w = 0#11 then _ else _) = _ at h
  split at h
  · split at h <;> cases h
  next htop =>
  have hlt : w.toNat ≠ 2047 := fun hw => htop (BitVec.eq_of_toNat_eq hw)
  split at h
  · next hzero =>
    split at h
    · cases h
    · -- with no exponent of its own the number has the least one
      have hw : w.toNat = 0 := by rw [hzero]; rfl
      cases h
      change Canonical v.toNat ((w.toNat : Int) - 1075 + 1) ∧ (w.toNat : Int) - 1075 + 1 ≤ 971
      exact ⟨⟨hm, by omega, by omega, .inr (by omega)⟩, by omega⟩
  · next hpos =>
    have hne : w.toNat ≠ 0 := fun hw => hpos (BitVec.eq_of_toNat_eq hw)
    have hmantissa : (1#1 ++ v).toNat = 2 ^ 52 + v.toNat := toNat_leading v
    cases h
    change Canonical (1#1 ++ v).toNat ((w.toNat : Int) - 1075) ∧ (w.toNat : Int) - 1075 ≤ 971
    rw [hmantissa]
    exact ⟨⟨by omega, by omega, by omega, .inl (by omega)⟩, by omega⟩

/-! ## Packing -/

/-- Canonical parts with a mantissa of 53 digits are packed with an exponent of their own. -/
theorem pack_of_full (h : Canonical m e) (hfull : 2 ^ 52 ≤ m) (hle : e ≤ 971) :
    UnpackedFloat.pack Format.binary64 (.finite s m e h.pos) =
      packComponents Format.binary64 s (BitVec.ofNat 11 (e + 1075).toNat) (BitVec.ofNat 52 m) := by
  have hleast := h.least
  have hlog : m.log2 = 52 := (Nat.log2_eq_iff h.pos.ne').2 ⟨hfull, h.lt⟩
  have hbiased : (e + Format.binary64.exponentBias + (52 : Nat)).toNat = (e + 1075).toNat := by
    show (e + (1023 : Int) + 52).toNat = _
    congr 1
    omega
  unfold UnpackedFloat.pack
  simp only [hbiased, hlog]
  rw [if_neg (by show ¬ 2048 ≤ (e + 1075).toNat + 1; omega)]
  rfl

/-- Canonical parts with fewer digits are packed with no exponent. -/
theorem pack_of_short (h : Canonical m e) (hshort : m < 2 ^ 52) :
    UnpackedFloat.pack Format.binary64 (.finite s m e h.pos) =
      packComponents Format.binary64 s 0#11 (BitVec.ofNat 52 m) := by
  obtain rfl : e = -1074 := h.full.resolve_left (by omega)
  have hlog : m.log2 < 52 := (Nat.log2_lt h.pos.ne').2 hshort
  unfold UnpackedFloat.pack
  simp only
  rw [if_neg (by decide), if_neg (by show m.log2 + 1 ≠ 53; omega)]

/-- Numbers with an exponent of their own are unpacked with the leading digit. -/
theorem unpack_of_exponent {w : BitVec 11} (v : BitVec 52) (htop : w ≠ -1#11) (hzero : w ≠ 0#11) :
    UnpackedFloat.unpack Format.binary64 (packComponents Format.binary64 s w v) =
      .finite s (2 ^ 52 + v.toNat) ((w.toNat : Int) - 1075) (by positivity) := by
  unfold UnpackedFloat.unpack
  simp only [unpackMantissa_packComponents, unpackExponent_packComponents,
    unpackSign_packComponents, Sign.ofBitVec_toBitVec, if_neg htop, if_neg hzero,
    UnpackedFloat.finite.injEq, true_and]
  exact ⟨toNat_leading v, rfl⟩

/-- Numbers with no exponent of their own have the least one. -/
theorem unpack_of_zero_exponent {v : BitVec 52} (hv : 0 < v.toNat) :
    UnpackedFloat.unpack Format.binary64 (packComponents Format.binary64 s 0#11 v) =
      .finite s v.toNat (-1074) hv := by
  have hne : v ≠ 0#52 := by
    rintro rfl
    exact absurd hv (by decide)
  unfold UnpackedFloat.unpack
  simp only [unpackMantissa_packComponents, unpackExponent_packComponents,
    unpackSign_packComponents, Sign.ofBitVec_toBitVec, if_neg (show 0#11 ≠ -1#11 by decide),
    if_true, dif_neg hne, UnpackedFloat.finite.injEq, true_and]
  rfl

/-- **Canonical parts are those of a number**, if the exponent is at most 971. -/
theorem unpack_pack (h : Canonical m e) (hle : e ≤ 971) :
    (Float.Model.pack (.finite s m e h.pos)).unpack = .finite s m e h.pos := by
  have hleast := h.least
  have hlt := h.lt
  show UnpackedFloat.unpack Format.binary64
    (UnpackedFloat.pack Format.binary64 (.finite s m e h.pos)) = _
  by_cases hfull : 2 ^ 52 ≤ m
  · have hexponent : (BitVec.ofNat 11 (e + 1075).toNat).toNat = (e + 1075).toNat := by
      rw [BitVec.toNat_ofNat, Nat.mod_eq_of_lt (by omega)]
    have hmantissa : 2 ^ 52 + (BitVec.ofNat 52 m).toNat = m := by
      rw [BitVec.toNat_ofNat]
      omega
    rw [pack_of_full h hfull hle, unpack_of_exponent]
    · simp only [hexponent, hmantissa, UnpackedFloat.finite.injEq, true_and]
      omega
    · intro htop
      have hnat := congrArg BitVec.toNat htop
      rw [hexponent] at hnat
      change _ = 2047 at hnat
      omega
    · intro hzero
      have hnat := congrArg BitVec.toNat hzero
      rw [hexponent] at hnat
      change _ = 0 at hnat
      omega
  · have hmantissa : (BitVec.ofNat 52 m).toNat = m := by
      rw [BitVec.toNat_ofNat, Nat.mod_eq_of_lt (by omega)]
    rw [pack_of_short h (by omega), unpack_of_zero_exponent (by rw [hmantissa]; exact h.pos)]
    simp only [hmantissa, UnpackedFloat.finite.injEq, true_and]
    exact (h.full.resolve_left hfull).symm

/-- Parts with a larger exponent are packed as an infinity. -/
theorem unpack_pack_of_lt (h : Canonical m e) (hlt : 971 < e) :
    (Float.Model.pack (.finite s m e h.pos)).unpack = .infinity s := by
  have hpack : UnpackedFloat.pack Format.binary64 (.finite s m e h.pos) =
      packComponents Format.binary64 s (-1#11) 0#52 := by
    unfold UnpackedFloat.pack
    simp only
    rw [if_pos]
    · rfl
    · show 2048 ≤ (e + (1023 : Int) + 52).toNat + 1
      omega
  show UnpackedFloat.unpack Format.binary64
    (UnpackedFloat.pack Format.binary64 (.finite s m e h.pos)) = _
  rw [hpack]
  unfold UnpackedFloat.unpack
  simp

/-- The zeros are unpacked as such. -/
theorem unpack_pack_zero (s : Sign) : (Float.Model.pack (.zero s)).unpack = .zero s :=
  unpack_packedZero

/-! ## Signs and magnitudes -/

/-- A number is unpacked with the sign that its bits have. -/
theorem sign_of_unpack {x : Float.Model}
    (h : (∃ m e hm, x.unpack = .finite s m e hm) ∨ x.unpack = .zero s) :
    Sign.ofBitVec (@unpackSign Format.binary64 x.toBits.toBitVec) = s := by
  unfold Float.Model.unpack UnpackedFloat.unpack at h
  simp only at h
  split at h
  · split at h <;> simp at h
  · split at h
    · split at h
      · simpa using h
      · obtain ⟨_, _, _, hparts⟩ | hparts := h <;> cases hparts
        rfl
    · obtain ⟨_, _, _, hparts⟩ | hparts := h <;> cases hparts
      rfl

/-- **The sign of a number is its first bit.** -/
theorem signIsNegative_eq {x : Float.Model}
    (h : (∃ m e hm, x.unpack = .finite s m e hm) ∨ x.unpack = .zero s) :
    signIsNegative s = x.toBits.toBitVec.msb := by
  have hbit : @unpackSign Format.binary64 x.toBits.toBitVec =
      BitVec.ofBool x.toBits.toBitVec.msb := by
    rw [unpackSign_def]
    generalize x.toBits.toBitVec = b
    apply BitVec.eq_of_getLsbD_eq
    intro i hi
    obtain rfl : i = 0 := by omega
    simp only [BitVec.msb_eq_getLsbD_last, BitVec.getLsbD_extractLsb', BitVec.getLsbD_ofBool]
    rfl
  rw [← sign_of_unpack h, hbit]
  cases x.toBits.toBitVec.msb <;> rfl

variable {n : Float} {hm : 0 < m}

/-- The magnitude of a number has its parts, and no sign. -/
theorem abs_of_finite (h : n.toModel.unpack = .finite s m e hm) :
    n.abs = .ofModel (.pack (.finite .positive m e hm)) := by
  unfold Float.abs Float.Model.abs
  rw [h]
  rfl

/-- The magnitude of a number is the number or its opposite, as the sign says. -/
theorem abs_eq_ite (h : n.toModel.unpack = .finite s m e hm) :
    (if signIsNegative s then -n else n) = n.abs := by
  rw [abs_of_finite h]
  cases s with
  | negative =>
    show Float.ofModel (.pack n.toModel.unpack.neg) = _
    rw [h]
    rfl
  | positive =>
    have hbits : Float.ofModel (.pack n.toModel.unpack) = n := Float.ofBits_toBits n
    rw [h] at hbits
    exact hbits.symm

/-- The magnitude of a zero is the one without a sign. -/
theorem abs_of_zero (h : n.toModel.unpack = .zero s) :
    n.abs = .ofModel (.pack (.zero .positive)) := by
  unfold Float.abs Float.Model.abs
  rw [h]
  rfl

/-- A finite number is a zero, or has a mantissa and an exponent. -/
theorem zero_or_finite (h : n.isFinite = true) :
    (∃ s, n.toModel.unpack = .zero s) ∨ ∃ s m e hm, n.toModel.unpack = .finite s m e hm := by
  change n.toModel.unpack.isFinite = true at h
  cases hparts : n.toModel.unpack with
  | zero s => exact .inl ⟨s, rfl⟩
  | finite s m e hm => exact .inr ⟨s, m, e, hm, rfl⟩
  | notANumber | infinity s =>
    rw [hparts] at h
    cases h

/-- The magnitude of a finite number is finite. -/
theorem isFinite_abs (h : n.isFinite = true) : n.abs.isFinite = true := by
  obtain ⟨s, hzero⟩ | ⟨s, m, e, hm, hfinite⟩ := zero_or_finite h
  · rw [abs_of_zero hzero]
    rfl
  · obtain ⟨hcanonical, hle⟩ := canonical_of_unpack hfinite
    rw [abs_of_finite hfinite]
    show (Float.Model.pack _).unpack.isFinite = true
    rw [unpack_pack hcanonical hle]
    rfl

/-! ## Values -/

/-- The rational number that a finite number is. -/
def value (n : Float) : ℚ :=
  match n.toModel.unpack with
  | .finite s m e _ => s.apply m * 2 ^ e
  | .zero _ | .infinity _ | .notANumber => 0

/-- A number without a fraction. -/
def IsIntegral (n : Float) : Prop := ∃ k : ℤ, value n = k

/-- A zero has no fraction. -/
theorem isIntegral_of_zero (h : n.toModel.unpack = .zero s) : IsIntegral n :=
  ⟨0, by rw [value, h, Int.cast_zero]⟩

/-- **A number has no fraction exactly if its mantissa and exponent stand for an integer.** -/
theorem isIntegral_iff (h : n.toModel.unpack = .finite s m e hm) :
    IsIntegral n ↔ IsInteger m e := by
  have hvalue : value n = s.apply m * 2 ^ e := by rw [value, h]
  have hpow : (2 : ℚ) ^ e * 2 ^ (-e).toNat = 2 ^ e.toNat := by
    rw [← zpow_natCast, ← zpow_natCast, ← zpow_add₀ two_ne_zero]
    congr 1
    omega
  have hne : (2 : ℚ) ^ (-e).toNat ≠ 0 := by positivity
  -- with the denominator on the other side, both sides are integers
  have hcast (k : ℤ) : value n = k ↔ s.apply m * 2 ^ e.toNat = k * 2 ^ (-e).toNat := by
    rw [hvalue, ← mul_left_inj' hne, mul_assoc, hpow]
    exact_mod_cast Iff.rfl
  have hdvd : IsInteger m e ↔ (2 ^ (-e).toNat : ℤ) ∣ s.apply m * 2 ^ e.toNat := by
    have hsign : s.apply m = m ∨ s.apply m = -m := by cases s <;> simp [Sign.apply]
    have hnat : IsInteger m e ↔ (2 ^ (-e).toNat : ℤ) ∣ m * 2 ^ e.toNat := by
      rw [IsInteger, ← Int.natCast_dvd_natCast]
      push_cast
      rfl
    rw [hnat]
    rcases hsign with hs | hs
    · rw [hs]
    · rw [hs, neg_mul, dvd_neg]
  rw [hdvd]
  constructor
  · rintro ⟨k, hk⟩
    exact ⟨k, by rw [(hcast k).1 hk, mul_comm]⟩
  · rintro ⟨k, hk⟩
    exact ⟨k, (hcast k).2 (by rw [hk, mul_comm])⟩

end Lox.Binary64
