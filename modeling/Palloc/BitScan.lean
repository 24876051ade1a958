import Palloc.BitFields
import Mathlib.Data.List.Range

/-!
# Visiting the set bits of a field

A loop that takes the lowest set bit of a field and clears it visits the set
bits in increasing order.
-/

namespace BitFields

variable {m : BitVec 64}

/-- The set bits of a field from bit `p` on. -/
def setBits (m : BitVec 64) (p : ℕ) : List ℕ :=
  (List.range' p (64 - p)).filter m.getLsbD

theorem exists_odd_mul {x t : ℕ} (hlow : ∀ j < t, x.testBit j = false)
    (hbit : x.testBit t = true) : ∃ k, x = 2 ^ t * (2 * k + 1) := by
  have hmod : x % 2 ^ t = 0 := by
    apply Nat.eq_of_testBit_eq
    intro j
    rw [Nat.testBit_mod_two_pow, Nat.zero_testBit]
    by_cases hj : j < t
    · rw [hlow j hj, Bool.and_false]
    · rw [decide_eq_false hj, Bool.false_and]
  have hodd : x / 2 ^ t % 2 = 1 := by
    rw [← Nat.toNat_testBit, hbit]
    rfl
  refine ⟨x / 2 ^ t / 2, ?_⟩
  have hdiv := Nat.div_add_mod x (2 ^ t)
  have hhalf : 2 * (x / 2 ^ t / 2) + 1 = x / 2 ^ t := by omega
  rw [hhalf]
  omega

theorem getLsbD_and_sub_one (hne : m ≠ 0#64) (j : ℕ) :
    (m &&& (m - 1#64)).getLsbD j =
      (m.getLsbD j && decide (j ≠ m.ctz.toNat)) := by
  obtain ⟨k, hk⟩ := exists_odd_mul (x := m.toNat) (t := m.ctz.toNat)
    (fun i hi => BitVec.getLsbD_false_of_lt_ctz hi)
    (BitVec.getLsbD_true_ctz_of_ne_zero hne)
  generalize m.ctz.toNat = t at hk ⊢
  have hpow : 1 ≤ 2 ^ t := Nat.one_le_two_pow
  have hsub : (m - 1#64).toNat = 2 ^ t * (2 * k) + (2 ^ t - 1) := by
    have hexpand : 2 ^ t * (2 * k + 1) = 2 ^ t * (2 * k) + 2 ^ t :=
      Nat.mul_succ _ _
    rw [BitVec.toNat_sub_of_le]
    · show m.toNat - 1 = _
      omega
    · rw [BitVec.le_def]
      show 1 ≤ m.toNat
      omega
  rw [BitVec.getLsbD_and, ← BitVec.testBit_toNat, ← BitVec.testBit_toNat,
    hsub, Nat.testBit_two_pow_mul_add _ (by omega), hk]
  have hzero := Nat.testBit_two_pow_mul_add (2 * k + 1)
    (b := 0) (i := t) (by omega) j
  rw [Nat.add_zero] at hzero
  rw [hzero]
  by_cases hlt : j < t
  · simp [hlt]
  · by_cases heq : j = t
    · subst heq
      simp [Nat.testBit_zero]
    · have hsucc : j - t = j - t - 1 + 1 := by omega
      simp only [hlt, if_false, heq, ne_eq, not_false_eq_true, decide_true,
        Bool.and_true]
      rw [hsucc, Nat.testBit_succ, Nat.testBit_succ]
      have hhalf : 2 * k / 2 = (2 * k + 1) / 2 := by omega
      rw [hhalf, Bool.and_self]

theorem setBits_cons {p : ℕ} (hne : m ≠ 0#64)
    (hlow : ∀ j < p, m.getLsbD j = false) :
    setBits m p = m.ctz.toNat ::
      setBits (m &&& (m - 1#64)) (m.ctz.toNat + 1) := by
  have hbit := BitVec.getLsbD_true_ctz_of_ne_zero hne
  have hlt : m.ctz.toNat < 64 := BitVec.lt_of_getLsbD hbit
  have hle : p ≤ m.ctz.toNat := by
    by_contra hbelow
    rw [hlow _ (not_le.mp hbelow)] at hbit
    cases hbit
  have hrange : List.range' p (64 - p) =
      List.range' p (m.ctz.toNat - p) ++ m.ctz.toNat ::
        List.range' (m.ctz.toNat + 1) (64 - (m.ctz.toNat + 1)) := by
    have hcount : 64 - p = (m.ctz.toNat - p) +
        (64 - (m.ctz.toNat + 1) + 1) := by omega
    have hstart : p + 1 * (m.ctz.toNat - p) = m.ctz.toNat := by omega
    rw [hcount, ← List.range'_append, hstart, List.range'_succ]
  have hnone : (List.range' p (m.ctz.toNat - p)).filter m.getLsbD = [] := by
    rw [List.filter_eq_nil_iff]
    intro j hj
    rw [List.mem_range'_1] at hj
    rw [BitVec.getLsbD_false_of_lt_ctz (by omega)]
    simp
  unfold setBits
  rw [hrange, List.filter_append, hnone, List.nil_append,
    List.filter_cons_of_pos hbit]
  congr 1
  apply List.filter_congr
  intro j hj
  rw [List.mem_range'_1] at hj
  have hother : j ≠ m.ctz.toNat := by omega
  rw [getLsbD_and_sub_one hne, decide_eq_true hother, Bool.and_true]

theorem setBits_zero (p : ℕ) : setBits 0#64 p = [] := by
  simp [setBits]

end BitFields
