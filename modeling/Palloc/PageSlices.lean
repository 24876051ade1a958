import Palloc.BlockPadding
import Palloc.PageQueue

/-!
# The slices of a page

A page that needs no segment of its own gets the slices that
`_pa_segment_page_alloc` asks for.  If these are several and the page holds
one block, the block starts with the first slice, so that the page can grow
over the slices behind it.
-/

namespace Palloc

/-- The slices that `pa_segments_page_alloc` looks for. -/
def segmentsPageSlices (required : ℕ) : ℕ :=
  alignUp required
    (if mediumPageSize < required then mediumPageSize else segmentSliceSize) /
      segmentSliceSize

/-- The slices of a page for blocks of a size that needs no huge page, as
`_pa_segment_page_alloc` chooses them. -/
def pageSlices (blockSize : ℕ) : ℕ :=
  if blockSize ≤ smallObjSizeMax then segmentsPageSlices blockSize
  else if blockSize ≤ mediumObjSizeMax then segmentsPageSlices mediumPageSize
  else segmentsPageSlices blockSize

theorem alignUp_zero (alignment : ℕ) (hpos : 0 < alignment) :
    alignUp 0 alignment = 0 := by
  unfold alignUp
  rw [Nat.zero_add, Nat.div_eq_of_lt (Nat.sub_lt hpos Nat.one_pos),
    Nat.zero_mul]

theorem segmentPageStart_large (segment idx sliceCount : ℕ) {blockSize : ℕ}
    (hlarge : mediumObjSizeMax < blockSize) :
    (segmentPageStartFromSlice segment idx sliceCount blockSize).1 =
      segment * segmentSize + idx * segmentSliceSize := by
  have hnot : ¬blockSize ≤ maxAlignGuarantee := not_le.mpr hlarge
  have hlow : ¬blockSize ≤ 512 := by
    unfold mediumObjSizeMax mediumPageSize segmentSliceSize at hlarge
    omega
  have hlow' : ¬blockSize ≤ 64 := by omega
  unfold segmentPageStartFromSlice
  simp only [hnot, hlow, hlow', false_and, and_false, if_false, ite_self]
  rw [alignUp_zero maxAlignSize (by decide), Nat.add_zero]

theorem medium_reserved (segment idx : ℕ) {blockSize : ℕ}
    (hlow : smallObjSizeMax < blockSize) (hle : blockSize ≤ mediumObjSizeMax) :
    (segmentPageStartFromSlice segment idx 8 blockSize).2 / blockSize %
      65536 ≠ 1 := by
  have hlow' : 8192 < blockSize := hlow
  have hle' : blockSize ≤ 65536 := hle
  have harea : 2 * blockSize ≤
      (segmentPageStartFromSlice segment idx 8 blockSize).2 ∧
      (segmentPageStartFromSlice segment idx 8 blockSize).2 ≤ 524288 := by
    have h64 : ¬blockSize ≤ 64 := by omega
    have h512 : ¬blockSize ≤ 512 := by omega
    unfold segmentPageStartFromSlice alignUp segmentSliceSize maxAlignSize
    simp only [h64, h512, if_false, ite_self]
    split <;> omega
  have hpos : 0 < blockSize := by omega
  have htwo := (Nat.le_div_iff_mul_le hpos).mpr harea.1
  have hlt : (segmentPageStartFromSlice segment idx 8 blockSize).2 /
      blockSize < 65536 := by
    rw [Nat.div_lt_iff_lt_mul hpos]
    omega
  rw [Nat.mod_eq_of_lt hlt]
  omega

theorem pageSlices_small {blockSize : ℕ} (hpos : 0 < blockSize)
    (hle : blockSize ≤ smallObjSizeMax) : pageSlices blockSize = 1 := by
  have hle' : blockSize ≤ 8192 := hle
  have hnot : ¬mediumPageSize < blockSize := by
    unfold mediumPageSize segmentSliceSize
    omega
  unfold pageSlices segmentsPageSlices alignUp
  rw [if_pos hle, if_neg hnot]
  unfold segmentSliceSize
  omega

theorem pageSlices_medium {blockSize : ℕ}
    (hlow : smallObjSizeMax < blockSize) (hle : blockSize ≤ mediumObjSizeMax) :
    pageSlices blockSize = 8 := by
  unfold pageSlices
  rw [if_neg (not_le.mpr hlow), if_pos hle]
  decide

/-- A page can grow: it starts at its first slice, and is linked with the
large pages. -/
structure Growable (page : BlockPage) : Prop where
  pageStart : page.pageStart = page.sliceStart
  large : mediumObjSizeMax < page.blockSize

/-- A page of several slices for one block can grow. -/
theorem blockPageInit_growable (addr segment idx : ℕ) {blockSize : ℕ}
    (isZeroInit : Bool) (keys : FreeListKeys) (hpos : 0 < blockSize)
    (hslices : 1 < pageSlices blockSize)
    (hsingle : (blockPageInit addr segment idx (pageSlices blockSize)
      blockSize false isZeroInit keys).reserved = 1) :
    Growable (blockPageInit addr segment idx (pageSlices blockSize) blockSize
      false isZeroInit keys) := by
  rcases Nat.lt_or_ge mediumObjSizeMax blockSize with hlarge | hle
  · exact ⟨segmentPageStart_large segment idx _ hlarge, hlarge⟩
  exfalso
  rcases Nat.lt_or_ge smallObjSizeMax blockSize with hlow | hsmall
  · rw [pageSlices_medium hlow hle] at hsingle
    exact medium_reserved segment idx hlow hle hsingle
  · rw [pageSlices_small hpos hsmall] at hslices
    exact absurd hslices (by decide)

end Palloc
