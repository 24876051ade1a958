import Palloc.AllocatorModel
import Mathlib.Data.BitVec

/-!
# From a pointer to its segment and its block

The segment of a pointer is found by clearing its low bits; a pointer at the
very end of a segment still belongs to it.  The block is found from the start
and the size of the blocks of the page, with a mask when the size is a power
of two.
-/

namespace Palloc

/-! ## The segment -/

/-- `_pa_ptr_segment`. -/
def ptrSegment (p : BitVec 64) : BitVec 64 :=
  let segment := (p - 1) &&& ~~~BitVec.ofNat 64 (segmentSize - 1)
  if segment.toInt ≤ 0 then 0 else segment

def segmentNumber (p : Addr) : Option ℕ :=
  let segment := ptrSegment (BitVec.ofNat 64 p)
  if segment = 0 then none else some (segment.toNat / segmentSize)

theorem toNat_and_not_segmentMask (x : BitVec 64) :
    (x &&& ~~~BitVec.ofNat 64 (segmentSize - 1)).toNat =
      x.toNat / segmentSize * segmentSize := by
  have hpow : segmentSize = 2 ^ 25 := rfl
  apply Nat.eq_of_testBit_eq
  intro i
  rw [hpow, Nat.testBit_mul_two_pow, Nat.testBit_div_two_pow,
    BitVec.testBit_toNat, BitVec.getLsbD_and, BitVec.getLsbD_not,
    BitVec.getLsbD_ofNat, Nat.testBit_two_pow_sub_one, ← BitVec.testBit_toNat]
  by_cases hi : i < 25
  · have hnot : ¬ 25 ≤ i := by omega
    have hword : i < 64 := by omega
    simp [hi, hword]
  · have hle : 25 ≤ i := by omega
    rw [Nat.sub_add_cancel hle]
    by_cases hword : i < 64
    · simp [hi, hle, hword]
    · have hhigh : x.toNat.testBit i = false := by
        rw [BitVec.testBit_toNat]
        exact BitVec.getLsbD_of_ge x i (by omega)
      simp [hhigh]

theorem segmentSize_dvd_ptrSegment (p : BitVec 64) :
    segmentSize ∣ (ptrSegment p).toNat := by
  unfold ptrSegment
  dsimp only
  split
  · exact dvd_zero _
  · rw [toNat_and_not_segmentMask]
    exact Nat.dvd_mul_left _ _

theorem toNat_ptrSegment {p : BitVec 64} {segment : ℕ} (hpos : 0 < segment)
    (hbound : segment * segmentSize < 2 ^ 63)
    (hlo : segment * segmentSize < p.toNat)
    (hhi : p.toNat ≤ segment * segmentSize + segmentSize) :
    (ptrSegment p).toNat = segment * segmentSize := by
  have hone : (1 : BitVec 64) ≤ p := by
    rw [BitVec.le_def]
    exact Nat.one_le_of_lt hlo
  have hsub : (p - 1).toNat = p.toNat - 1 := BitVec.toNat_sub_of_le hone
  have hdiv : (p.toNat - 1) / segmentSize = segment := by
    rw [Nat.div_eq_iff (by decide)]
    unfold segmentSize at hlo hhi ⊢
    omega
  have hstart : ((p - 1) &&& ~~~BitVec.ofNat 64 (segmentSize - 1)).toNat =
      segment * segmentSize := by
    rw [toNat_and_not_segmentMask, hsub, hdiv]
  have hint : ¬ ((p - 1) &&&
      ~~~BitVec.ofNat 64 (segmentSize - 1)).toInt ≤ 0 := by
    rw [BitVec.toInt_eq_toNat_of_lt (by rw [hstart]; omega), hstart]
    have hsegment : 0 < segment * segmentSize :=
      Nat.mul_pos hpos (by decide)
    omega
  unfold ptrSegment
  dsimp only
  rw [if_neg hint, hstart]

theorem segmentNumber_eq {p segment : ℕ} (hpos : 0 < segment)
    (hbound : segment * segmentSize < 2 ^ 63)
    (hlo : segment * segmentSize < p)
    (hhi : p ≤ segment * segmentSize + segmentSize) :
    segmentNumber p = some segment := by
  have hp : (BitVec.ofNat 64 p).toNat = p := by
    rw [BitVec.toNat_ofNat]
    unfold segmentSize at hbound hhi
    exact Nat.mod_eq_of_lt (by omega)
  have hsegment := @toNat_ptrSegment (BitVec.ofNat 64 p) segment hpos hbound
    (by rwa [hp]) (by rwa [hp])
  have hne : ptrSegment (BitVec.ofNat 64 p) ≠ 0 := by
    intro hzero
    rw [hzero] at hsegment
    have hlt : 0 < segment * segmentSize := Nat.mul_pos hpos (by decide)
    exact absurd hsegment hlt.ne
  unfold segmentNumber
  dsimp only
  rw [if_neg hne, hsegment, Nat.mul_div_cancel _ (by decide)]

/-! ## The block -/

/-- `_pa_page_ptr_unalign`, with the fields of the page that it reads. -/
def pagePtrUnalign (pageStart blockSize blockSizeShift p : ℕ) : ℕ :=
  let diff := p - pageStart
  let adjust :=
    if blockSizeShift ≠ 0 then diff &&& (1 <<< blockSizeShift - 1)
    else diff % blockSize
  p - adjust

theorem pagePtrUnalign_eq {pageStart blockSize blockSizeShift p : ℕ}
    (hshift : blockSizeShift ≠ 0 → blockSize = 2 ^ blockSizeShift)
    (hstart : pageStart ≤ p) :
    pagePtrUnalign pageStart blockSize blockSizeShift p =
      pageStart + (p - pageStart) / blockSize * blockSize := by
  have hadjust : (if blockSizeShift ≠ 0 then
      (p - pageStart) &&& (1 <<< blockSizeShift - 1)
      else (p - pageStart) % blockSize) = (p - pageStart) % blockSize := by
    split
    · rename_i hne
      rw [Nat.one_shiftLeft, Nat.and_two_pow_sub_one_eq_mod, hshift hne]
    · rfl
  have hsplit := Nat.div_add_mod' (p - pageStart) blockSize
  unfold pagePtrUnalign
  dsimp only
  rw [hadjust]
  generalize (p - pageStart) / blockSize * blockSize = whole at hsplit ⊢
  omega

theorem pagePtrUnalign_block {pageStart blockSize blockSizeShift adjust : ℕ}
    (hshift : blockSizeShift ≠ 0 → blockSize = 2 ^ blockSizeShift) (i : ℕ)
    (hadjust : adjust < blockSize) :
    pagePtrUnalign pageStart blockSize blockSizeShift
        (pageStart + i * blockSize + adjust) = pageStart + i * blockSize := by
  have hle : pageStart ≤ pageStart + i * blockSize + adjust := by
    rw [Nat.add_assoc]
    exact Nat.le_add_right _ _
  have hdiff : pageStart + i * blockSize + adjust - pageStart =
      adjust + blockSize * i := by
    rw [Nat.add_assoc, Nat.add_sub_cancel_left, Nat.add_comm,
      Nat.mul_comm blockSize]
  rw [pagePtrUnalign_eq hshift hle, hdiff,
    Nat.add_mul_div_left _ _ (Nat.zero_lt_of_lt hadjust),
    Nat.div_eq_of_lt hadjust, Nat.zero_add]

end Palloc
