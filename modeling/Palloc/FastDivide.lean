import Mathlib.Data.BitVec
import Mathlib.Tactic.Ring
import Mathlib.Algebra.Order.Ring.Nat

/-!
# Division by a multiplication

The heap walk divides many offsets by the same block size.  It computes a
reciprocal once: for the least power `2 ^ shift` that the divisor does not
exceed, `2 ^ 32 + magic` is the first number above `2 ^ (32 + shift) / divisor`.
The product with an offset below `2 ^ 32` is so close that cutting off the low
`32 + shift` bits gives the quotient.

The code keeps `magic` without its leading `2 ^ 32`, so that the product fits
in 64 bits.
-/

namespace Palloc

/-- `pa_get_fast_divisor`: the magic number and the shift. -/
def getFastDivisor (divisor : BitVec 64) : BitVec 64 × ℕ :=
  let shift := 64 - (divisor - 1#64).clz.toNat
  ((1#64 <<< 32) * ((1#64 <<< shift) - divisor) / divisor + 1#64, shift)

/-- `pa_fast_divide`. -/
def fastDivide (n magic : BitVec 64) (shift : ℕ) : BitVec 64 :=
  let hi := (n * magic) >>> 32
  (hi + n) >>> shift

/-! ## The reciprocal on natural numbers -/

section Reciprocal

variable {d n pow : ℕ}

/-- The magic number for the power `pow`. -/
def magicNumber (d pow : ℕ) : ℕ := 2 ^ 32 * (pow - d) / d + 1

theorem reciprocal_mul (hpos : 0 < d) (hpow : d ≤ pow) :
    ∃ excess, 0 < excess ∧ excess ≤ d ∧
      (2 ^ 32 + magicNumber d pow) * d = 2 ^ 32 * pow + excess := by
  have hmod := Nat.mod_lt (2 ^ 32 * (pow - d)) hpos
  have hdiv := Nat.div_add_mod (2 ^ 32 * (pow - d)) d
  refine ⟨d - 2 ^ 32 * (pow - d) % d, by omega, by omega, ?_⟩
  have hsplit : 2 ^ 32 * pow = 2 ^ 32 * (pow - d) + 2 ^ 32 * d := by
    rw [← Nat.mul_add, Nat.sub_add_cancel hpow]
  have hproduct : (2 ^ 32 + magicNumber d pow) * d =
      2 ^ 32 * d + d * (2 ^ 32 * (pow - d) / d) + d := by
    unfold magicNumber
    ring
  omega

theorem reciprocal_div (hpos : 0 < d) (hpow : d ≤ pow) (hn : n < 2 ^ 32) :
    n * (2 ^ 32 + magicNumber d pow) / (2 ^ 32 * pow) = n / d := by
  obtain ⟨excess, -, hexcess, hmul⟩ := reciprocal_mul hpos hpow
  have hlower := Nat.div_mul_le_self n d
  have hupper : n + 1 ≤ (n / d + 1) * d := by
    rw [Nat.add_mul, Nat.one_mul, Nat.mul_comm]
    have hmod := Nat.mod_lt n hpos
    have hdiv := Nat.div_add_mod n d
    omega
  have hproduct : n * (2 ^ 32 + magicNumber d pow) * d =
      n * (2 ^ 32 * pow) + n * excess := by
    rw [Nat.mul_assoc, hmul, Nat.mul_add]
  have hsmall : n * excess < 2 ^ 32 * pow :=
    Nat.mul_lt_mul_of_lt_of_le hn (hexcess.trans hpow) (by omega)
  apply Nat.div_eq_of_lt_le
  · apply Nat.le_of_mul_le_mul_right _ hpos
    calc n / d * (2 ^ 32 * pow) * d = n / d * d * (2 ^ 32 * pow) := by ring
      _ ≤ n * (2 ^ 32 * pow) := Nat.mul_le_mul_right _ hlower
      _ ≤ n * (2 ^ 32 + magicNumber d pow) * d := by
          rw [hproduct]
          exact Nat.le_add_right _ _
  · apply Nat.lt_of_mul_lt_mul_right (a := d)
    calc n * (2 ^ 32 + magicNumber d pow) * d
        < n * (2 ^ 32 * pow) + 2 ^ 32 * pow := by
          rw [hproduct]
          exact Nat.add_lt_add_left hsmall _
      _ = (n + 1) * (2 ^ 32 * pow) := by ring
      _ ≤ (n / d + 1) * d * (2 ^ 32 * pow) := Nat.mul_le_mul_right _ hupper
      _ = (n / d + 1) * (2 ^ 32 * pow) * d := by ring

theorem magicNumber_div (hpos : 0 < d) (hpow : d ≤ pow) (hn : n < 2 ^ 32) :
    (n * magicNumber d pow / 2 ^ 32 + n) / pow = n / d := by
  rw [← reciprocal_div hpos hpow hn, ← Nat.div_div_eq_div_mul,
    Nat.mul_add, Nat.add_comm (n * 2 ^ 32),
    Nat.add_mul_div_right _ _ (by decide : 0 < 2 ^ 32)]

theorem magicNumber_le (hpos : 0 < d) (hhalf : pow < 2 * d) :
    magicNumber d pow ≤ 2 ^ 32 := by
  have hlt : 2 ^ 32 * (pow - d) / d < 2 ^ 32 := by
    rw [Nat.div_lt_iff_lt_mul hpos]
    exact Nat.mul_lt_mul_of_pos_left (by omega) (by decide)
  exact hlt

end Reciprocal

/-! ## The machine words -/

variable {divisor n : BitVec 64}

theorem getFastDivisor_shift (hpos : 0 < divisor.toNat)
    (hdivisor : divisor.toNat < 2 ^ 32) :
    divisor.toNat ≤ 2 ^ (getFastDivisor divisor).2 ∧
      2 ^ (getFastDivisor divisor).2 < 2 * divisor.toNat ∧
      (getFastDivisor divisor).2 ≤ 32 := by
  have hsub : (divisor - 1#64).toNat = divisor.toNat - 1 :=
    BitVec.toNat_sub_of_le (BitVec.le_def.mpr hpos)
  have habove : (divisor - 1#64).toNat <
      2 ^ (64 - (divisor - 1#64).clz.toNat) :=
    BitVec.toNat_lt_two_pow_sub_clz
  have hbelow : 2 ^ (64 - (divisor - 1#64).clz.toNat) <
      2 * divisor.toNat := by
    by_cases hzero : divisor - 1#64 = 0#64
    · rw [hzero]
      have hclz : (0#64).clz.toNat = 64 := by decide
      rw [hclz, Nat.sub_self, Nat.pow_zero]
      omega
    · have hle := BitVec.two_pow_sub_clz_le_toNat_of_ne_zero
        (by decide) hzero
      have hlt : (divisor - 1#64).clz.toNat < 64 :=
        BitVec.clz_lt_iff_ne_zero.mpr hzero
      have hsucc : 64 - (divisor - 1#64).clz.toNat =
          64 - 1 - (divisor - 1#64).clz.toNat + 1 := by omega
      rw [hsucc, Nat.pow_succ]
      omega
  have habove' : divisor.toNat ≤
      2 ^ (64 - (divisor - 1#64).clz.toNat) := by omega
  refine ⟨habove', hbelow, ?_⟩
  show 64 - (divisor - 1#64).clz.toNat ≤ 32
  by_contra hlarge
  have hmono : 2 ^ 33 ≤ 2 ^ (64 - (divisor - 1#64).clz.toNat) :=
    Nat.pow_le_pow_right (by decide) (by omega)
  omega

/-- Every operation of `pa_get_fast_divisor` gives the exact result. -/
structure FastDivisorExact (divisor : BitVec 64) (shift : ℕ) : Prop where
  pred : (divisor - 1#64).toNat = divisor.toNat - 1 ∧ 1 ≤ divisor.toNat
  shift_le : (divisor - 1#64).clz.toNat ≤ 64
  high : (1#64 <<< 32).toNat = 2 ^ 32
  power : (1#64 <<< shift).toNat = 2 ^ shift
  sub : ((1#64 <<< shift) - divisor).toNat = 2 ^ shift - divisor.toNat ∧
    divisor.toNat ≤ 2 ^ shift
  mul : ((1#64 <<< 32) * ((1#64 <<< shift) - divisor)).toNat =
    2 ^ 32 * (2 ^ shift - divisor.toNat)
  succ : ((1#64 <<< 32) * ((1#64 <<< shift) - divisor) / divisor +
      1#64).toNat =
    2 ^ 32 * (2 ^ shift - divisor.toNat) / divisor.toNat + 1

/-- Every operation of `pa_fast_divide` gives the exact result. -/
structure FastDivideExact (n magic : BitVec 64) : Prop where
  mul : (n * magic).toNat = n.toNat * magic.toNat
  add : ((n * magic) >>> 32 + n).toNat =
    n.toNat * magic.toNat / 2 ^ 32 + n.toNat

theorem getFastDivisor_exact (hpos : 0 < divisor.toNat)
    (hdivisor : divisor.toNat < 2 ^ 32) :
    FastDivisorExact divisor (getFastDivisor divisor).2 := by
  obtain ⟨hpow, hhalf, hshift⟩ := getFastDivisor_shift hpos hdivisor
  generalize (getFastDivisor divisor).2 = shift at hpow hhalf hshift ⊢
  have hpower : (1#64 <<< shift).toNat = 2 ^ shift := by
    rw [BitVec.toNat_shiftLeft, Nat.shiftLeft_eq]
    refine (congrArg (· % 2 ^ 64) (Nat.one_mul (2 ^ shift))).trans ?_
    exact Nat.mod_eq_of_lt (Nat.pow_lt_pow_right (by decide) (by omega))
  have hsub : ((1#64 <<< shift) - divisor).toNat =
      2 ^ shift - divisor.toNat := by
    rw [BitVec.toNat_sub_of_le, hpower]
    rw [BitVec.le_def, hpower]
    exact hpow
  have hmul : ((1#64 <<< 32) * ((1#64 <<< shift) - divisor)).toNat =
      2 ^ 32 * (2 ^ shift - divisor.toNat) := by
    rw [BitVec.toNat_mul, hsub]
    apply Nat.mod_eq_of_lt
    have hhigh : (1#64 <<< 32).toNat = 2 ^ 32 := rfl
    rw [hhigh]
    omega
  have hmagic := magicNumber_le hpos hhalf
  unfold magicNumber at hmagic
  refine ⟨⟨BitVec.toNat_sub_of_le (BitVec.le_def.mpr hpos), hpos⟩,
    BitVec.clz_le, rfl, hpower, ⟨hsub, hpow⟩, hmul, ?_⟩
  rw [BitVec.toNat_add, BitVec.toNat_udiv, hmul]
  have hone : (1#64).toNat = 1 := rfl
  exact Nat.mod_eq_of_lt (by omega)

theorem getFastDivisor_magic (hpos : 0 < divisor.toNat)
    (hdivisor : divisor.toNat < 2 ^ 32) :
    (getFastDivisor divisor).1.toNat =
      magicNumber divisor.toNat (2 ^ (getFastDivisor divisor).2) :=
  (getFastDivisor_exact hpos hdivisor).succ

theorem fastDivide_exact {magic : BitVec 64} (hn : n.toNat < 2 ^ 32)
    (hmagic : magic.toNat ≤ 2 ^ 32) : FastDivideExact n magic := by
  have hproduct : n.toNat * magic.toNat ≤ (2 ^ 32 - 1) * 2 ^ 32 :=
    Nat.mul_le_mul (by omega) hmagic
  have hmul : (n * magic).toNat = n.toNat * magic.toNat := by
    rw [BitVec.toNat_mul]
    exact Nat.mod_eq_of_lt (by omega)
  refine ⟨hmul, ?_⟩
  rw [BitVec.toNat_add, BitVec.toNat_ushiftRight, hmul,
    Nat.shiftRight_eq_div_pow]
  exact Nat.mod_eq_of_lt (by omega)

/-- For every divisor and every dividend of 32 bits the fast division is the
division, and no operation on the way leaves the 64 bits. -/
theorem fast_divide_eq (divisor n : BitVec 64)
    (hpos : 1 ≤ divisor.toNat) (hdivisor : divisor.toNat ≤ 2 ^ 32 - 1)
    (hn : n.toNat ≤ 2 ^ 32 - 1) :
    (fastDivide n (getFastDivisor divisor).1
        (getFastDivisor divisor).2).toNat = n.toNat / divisor.toNat ∧
      FastDivisorExact divisor (getFastDivisor divisor).2 ∧
      FastDivideExact n (getFastDivisor divisor).1 := by
  have hdivisor' : divisor.toNat < 2 ^ 32 := by omega
  have hn' : n.toNat < 2 ^ 32 := by omega
  obtain ⟨hpow, hhalf, -⟩ := getFastDivisor_shift hpos hdivisor'
  have hmagic := getFastDivisor_magic hpos hdivisor'
  have hdivide : FastDivideExact n (getFastDivisor divisor).1 :=
    fastDivide_exact hn' (hmagic.trans_le (magicNumber_le hpos hhalf))
  refine ⟨?_, getFastDivisor_exact hpos hdivisor', hdivide⟩
  unfold fastDivide
  rw [BitVec.toNat_ushiftRight, hdivide.add, Nat.shiftRight_eq_div_pow]
  show (n.toNat * (getFastDivisor divisor).1.toNat / 2 ^ 32 + n.toNat) /
    2 ^ (getFastDivisor divisor).2 = _
  rw [hmagic]
  exact magicNumber_div hpos hpow hn'

/-- The largest dividend by the largest divisor. -/
theorem fast_divide_eq_max :
    (fastDivide 4294967295#64 (getFastDivisor 4294967295#64).1
        (getFastDivisor 4294967295#64).2).toNat = 1 ∧
      FastDivisorExact 4294967295#64 (getFastDivisor 4294967295#64).2 ∧
      FastDivideExact 4294967295#64 (getFastDivisor 4294967295#64).1 :=
  fast_divide_eq 4294967295#64 4294967295#64 (by decide) (by decide)
    (by decide)

end Palloc
