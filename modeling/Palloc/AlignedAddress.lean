import Palloc.BlockHeap
import Palloc.MachineWord

/-!
# Aligned addresses

An aligned object is less than one alignment behind the start of its block.
As blocks start at multiples of the word size, its address is one exactly when
the offset is, up to the alignment.
-/

namespace Palloc

open BlockHeap

section Addresses

variable {block offset k : ℕ}

theorem alignAdjust_spec (block offset k : ℕ) :
    alignAdjust block (2 ^ k) offset < 2 ^ k ∧
      2 ^ k ∣ block + alignAdjust block (2 ^ k) offset + offset := by
  have hpos : 0 < 2 ^ k := Nat.two_pow_pos k
  have hmod := Nat.mod_lt (block + offset) hpos
  have hdiv := Nat.div_add_mod (block + offset) (2 ^ k)
  unfold alignAdjust
  dsimp only
  rw [MachineWord.and_pred_pow]
  split
  · next hzero =>
      refine ⟨hpos, Nat.dvd_of_mod_eq_zero ?_⟩
      rw [Nat.add_zero]
      exact hzero
  · next hne =>
      refine ⟨by omega, (block + offset) / 2 ^ k + 1, ?_⟩
      rw [Nat.mul_add, Nat.mul_one]
      omega

theorem alignAdjust_unique {x : ℕ} (hx : x < 2 ^ k)
    (hdvd : 2 ^ k ∣ block + x + offset) :
    alignAdjust block (2 ^ k) offset = x := by
  obtain ⟨hlt, hdvd'⟩ := alignAdjust_spec block offset k
  generalize alignAdjust block (2 ^ k) offset = y at hlt hdvd' ⊢
  have hmod : x ≡ y [MOD 2 ^ k] := by
    have hsum : block + offset + x ≡ block + offset + y [MOD 2 ^ k] := by
      have hx' : (block + offset + x) % 2 ^ k = 0 := by
        rw [Nat.add_right_comm]
        exact Nat.mod_eq_zero_of_dvd hdvd
      have hy' : (block + offset + y) % 2 ^ k = 0 := by
        rw [Nat.add_right_comm]
        exact Nat.mod_eq_zero_of_dvd hdvd'
      exact hx'.trans hy'.symm
    exact Nat.ModEq.add_left_cancel' _ hsum
  exact (Nat.ModEq.eq_of_lt_of_lt hmod hx hlt).symm

theorem aligned_iff {p : ℕ} : p &&& (2 ^ k - 1) = 0 ↔ 2 ^ k ∣ p := by
  rw [MachineWord.and_pred_pow, Nat.dvd_iff_mod_eq_zero]

/-- An address with a given residue is a multiple of the word size exactly
when the offset is, up to the alignment. -/
theorem word_iff {p : ℕ} (hdvd : 2 ^ k ∣ p + offset) (hlarge : 3 ≤ k) :
    intptrSize ∣ p ↔ intptrSize ∣ offset := by
  have hword : intptrSize ∣ p + offset :=
    (pow_dvd_pow 2 hlarge).trans hdvd
  exact ⟨fun h => (Nat.dvd_add_right h).mp hword,
    fun h => (Nat.dvd_add_left h).mp hword⟩

end Addresses

section Oversize

variable {block alignment offset : ℕ}

theorem alignAdjust_lt (hpos : 0 < alignment) :
    alignAdjust block alignment offset < alignment := by
  unfold alignAdjust
  dsimp only
  split <;> omega

theorem le_oversize (size alignment : ℕ) (hpos : 0 < alignment) :
    max size 1 ≤ oversize size alignment := by
  unfold oversize smallSizeMax maxAlignSize
  split
  · split <;> omega
  · split <;> omega

theorem adjust_add_le_oversize {size : ℕ} (hpos : 0 < alignment)
    (hsmall : ¬blockAlignmentMax < alignment) :
    alignAdjust block alignment offset + max size 1 ≤
      oversize size alignment := by
  have hadjust := @alignAdjust_lt block alignment offset hpos
  unfold oversize maxAlignSize
  rw [if_neg hsmall]
  split <;> omega

end Oversize

/-- The address of an aligned object; it is less than one alignment behind
the start of the block. -/
def AlignedAt (alignment offset : ℕ) (o : HeapObject) : Prop :=
  alignment ∣ o.ptr + offset ∧ o.ptr < o.block + alignment

/-- An aligned address is a multiple of the word size exactly when the offset
is, up to the alignment. -/
theorem AlignedAt.word_iff {k offset : ℕ} {o : HeapObject}
    (h : AlignedAt (2 ^ k) offset o)
    (hword : intptrSize ∣ o.block) (hge : o.block ≤ o.ptr) :
    intptrSize ∣ o.ptr ↔ offset % min intptrSize (2 ^ k) = 0 := by
  rw [← Nat.dvd_iff_mod_eq_zero]
  obtain ⟨hdvd, hlt⟩ := h
  by_cases hlarge : 3 ≤ k
  · have hle : intptrSize ≤ 2 ^ k :=
      Nat.pow_le_pow_right (show 0 < 2 by decide) hlarge
    rw [min_eq_left hle]
    exact Palloc.word_iff hdvd hlarge
  · have hsmall : 2 ^ k ∣ intptrSize := pow_dvd_pow 2 (show k ≤ 3 by omega)
    rw [min_eq_right (Nat.le_of_dvd (by decide) hsmall)]
    constructor
    · intro hptr
      exact (Nat.dvd_add_right (hsmall.trans hptr)).mp hdvd
    · intro hoffset
      -- Below one alignment behind a block there is only the block.
      have hptr : 2 ^ k ∣ o.ptr := (Nat.dvd_add_left hoffset).mp hdvd
      have hdiff : 2 ^ k ∣ o.ptr - o.block :=
        Nat.dvd_sub hptr (hsmall.trans hword)
      have hzero := Nat.eq_zero_of_dvd_of_lt hdiff (by omega)
      have hblock : o.ptr = o.block := by omega
      rw [hblock]
      exact hword

theorem alignAdjust_word_iff {block alignment : ℕ} (offset : ℕ)
    (hpos : 0 < alignment) (hpow : isPowerOfTwo alignment)
    (hword : intptrSize ∣ block) :
    intptrSize ∣ block + alignAdjust block alignment offset ↔
      offset % min intptrSize alignment = 0 := by
  obtain ⟨k, rfl⟩ := MachineWord.exists_pow_of_and_pred hpos hpow
  obtain ⟨hlt, hdvd⟩ := alignAdjust_spec block offset k
  have hat : AlignedAt (2 ^ k) offset
      ⟨0, block, block + alignAdjust block (2 ^ k) offset, 0⟩ :=
    ⟨hdvd, Nat.add_lt_add_left hlt block⟩
  exact hat.word_iff hword (Nat.le_add_right _ _)

end Palloc
