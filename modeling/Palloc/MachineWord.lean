import Mathlib.Data.Nat.Basic
import Mathlib.Algebra.Order.Ring.Nat
import Mathlib.Tactic.Ring
import Mathlib.Data.Nat.Log

/-!
# Unsigned 64-bit arithmetic on natural numbers

Sums of machine words wrap around at `wordSize`.  Rounding up to a multiple
adds before it divides, so it wraps for words close to the maximum; it then
gives zero, which a comparison with the argument detects.
-/

namespace MachineWord

def wordSize : ℕ := 2 ^ 64

def maxWord : ℕ := wordSize - 1

instance : NeZero wordSize := ⟨by decide⟩

/-- Round up to a multiple of `alignment`, as unsigned words.  For a power of
two, masking the low bits off is the same as dividing and multiplying. -/
def wordAlignUp (word alignment : ℕ) : ℕ :=
  (word + alignment - 1) % wordSize / alignment * alignment

def exactAlignUp (word alignment : ℕ) : ℕ :=
  (word + alignment - 1) / alignment * alignment

variable {word alignment : ℕ}

theorem dvd_wordAlignUp (word alignment : ℕ) :
    alignment ∣ wordAlignUp word alignment :=
  Nat.dvd_mul_left _ _

theorem dvd_exactAlignUp (word alignment : ℕ) :
    alignment ∣ exactAlignUp word alignment :=
  Nat.dvd_mul_left _ _

theorem le_exactAlignUp (halign : 0 < alignment) :
    word ≤ exactAlignUp word alignment := by
  unfold exactAlignUp
  have hdiv := Nat.div_add_mod (word + alignment - 1) alignment
  have hmod := Nat.mod_lt (word + alignment - 1) halign
  rw [Nat.mul_comm] at hdiv
  omega

theorem exactAlignUp_lt (halign : 0 < alignment) :
    exactAlignUp word alignment < word + alignment := by
  unfold exactAlignUp
  have hle := Nat.div_mul_le_self (word + alignment - 1) alignment
  omega

theorem exactAlignUp_le_of_dvd {bound : ℕ} (hle : word ≤ bound)
    (hdvd : alignment ∣ bound) : exactAlignUp word alignment ≤ bound := by
  rcases Nat.eq_zero_or_pos alignment with rfl | halign
  · simp [exactAlignUp]
  · obtain ⟨k, rfl⟩ := hdvd
    unfold exactAlignUp
    have hlt : (word + alignment - 1) / alignment < k + 1 := by
      rw [Nat.div_lt_iff_lt_mul halign, Nat.add_mul, Nat.one_mul,
        Nat.mul_comm k]
      omega
    rw [Nat.mul_comm alignment]
    exact Nat.mul_le_mul_right _ (Nat.le_of_lt_succ hlt)

theorem exactAlignUp_of_dvd (halign : 0 < alignment)
    (hdvd : alignment ∣ word) : exactAlignUp word alignment = word :=
  le_antisymm (exactAlignUp_le_of_dvd le_rfl hdvd) (le_exactAlignUp halign)

theorem wordAlignUp_of_lt (hlt : word + alignment - 1 < wordSize) :
    wordAlignUp word alignment = exactAlignUp word alignment := by
  unfold wordAlignUp exactAlignUp
  rw [Nat.mod_eq_of_lt hlt]

theorem wordAlignUp_of_wrap (hword : word < wordSize)
    (halign : alignment ≤ wordSize)
    (hwrap : wordSize ≤ word + alignment - 1) :
    wordAlignUp word alignment = 0 := by
  unfold wordAlignUp
  have hmod : (word + alignment - 1) % wordSize =
      word + alignment - 1 - wordSize := by
    rw [Nat.mod_eq_sub_mod hwrap, Nat.mod_eq_of_lt (by omega)]
  rw [hmod, Nat.div_eq_of_lt (by omega), Nat.zero_mul]

theorem wordAlignUp_eq_exact (hpos : 0 < word) (hword : word < wordSize)
    (halign : alignment ≤ wordSize)
    (hle : word ≤ wordAlignUp word alignment) :
    wordAlignUp word alignment = exactAlignUp word alignment := by
  by_cases hwrap : wordSize ≤ word + alignment - 1
  · rw [wordAlignUp_of_wrap hword halign hwrap] at hle
    omega
  · exact wordAlignUp_of_lt (by omega)

theorem wordAlignUp_lt_wordSize : wordAlignUp word alignment < wordSize := by
  have hle := Nat.div_mul_le_self ((word + alignment - 1) % wordSize) alignment
  have hlt : (word + alignment - 1) % wordSize < wordSize :=
    Nat.mod_lt _ (by decide)
  exact hle.trans_lt hlt

/-! ## Powers of two -/

theorem exists_pow_of_and_pred (hpos : 0 < word)
    (hand : word &&& (word - 1) = 0) : ∃ k, word = 2 ^ k := by
  obtain ⟨k, hle, hlt⟩ : ∃ k, 2 ^ k ≤ word ∧ word < 2 ^ (k + 1) :=
    ⟨Nat.log 2 word, Nat.pow_log_le_self 2 hpos.ne',
      Nat.lt_pow_succ_log_self (by decide) word⟩
  refine ⟨k, ?_⟩
  by_contra hne
  have hbit : word.testBit k = true :=
    Nat.testBit_of_two_pow_le_and_two_pow_add_one_gt hle hlt
  have hpred : (word - 1).testBit k = true :=
    Nat.testBit_of_two_pow_le_and_two_pow_add_one_gt (by omega) (by omega)
  have hboth : (word &&& (word - 1)).testBit k = true := by
    rw [Nat.testBit_and, hbit, hpred]
    rfl
  rw [hand, Nat.zero_testBit] at hboth
  cases hboth

theorem and_pred_pow (word k : ℕ) : word &&& (2 ^ k - 1) = word % 2 ^ k :=
  Nat.and_two_pow_sub_one_eq_mod word k

end MachineWord
