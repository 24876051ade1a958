import Palloc.AlignedAllocation
import Palloc.QueuedHeap

/-!
# The page for a request

`pa_find_page` takes the blocks of small and medium requests from the queue of
their bin.  A larger request gets a page of its own: in a span of a normal
segment, or, when it is too large for that or asks for a very large alignment,
in a huge segment that is laid out around it.  The request fixes the block
size of the page and its number of slices.
-/

namespace Palloc

open BlockHeap

structure PageShape where
  sliceCount : ℕ
  blockSize : ℕ
  isHuge : Bool
  deriving Repr, DecidableEq

/-- `guard_slices` of `pa_segment_alloc`. -/
def BlockBuild.guardSlices (b : BlockBuild) : ℕ := if b.secure then 1 else 0

/-- The slices of a segment and those of its header, as `pa_segment_alloc` and
`pa_segment_os_alloc` compute them. -/
def segmentAllocSlices (b : BlockBuild) (sizes : SegmentSizes)
    (required alignment : ℕ) : ℕ × ℕ :=
  if 0 < alignment then
    let layout := hugeLayout b sizes required alignment
    (layout.segmentSlices, layout.infoSlices)
  else segmentCalculateSlices b sizes required

/-- The page of `pa_segment_huge_page_alloc`; it is one block. -/
def hugePageShape (b : BlockBuild) (sizes : SegmentSizes)
    (required alignment : ℕ) : PageShape :=
  let slices := segmentAllocSlices b sizes required alignment
  let sliceCount := slices.1 - slices.2 - b.guardSlices
  ⟨sliceCount, sliceCount * segmentSliceSize, true⟩

/-- A page of `_pa_segment_page_alloc` that is not huge. -/
def spanPageShape (blockSize : ℕ) : PageShape :=
  ⟨pageSlices blockSize, blockSize, false⟩

/-- The page that `pa_find_page` finds or makes for a request, padding
included; `alignment` is `huge_alignment`. -/
def findPageShape (b : BlockBuild) (sizes : SegmentSizes)
    (request alignment : ℕ) : Option PageShape :=
  if mediumObjSizeMax < request ∨ 0 < alignment then
    if maxAllocSize < request - b.paddingSize then none
    else
      -- `pa_large_huge_page_alloc`
      let blockSize := osGoodAllocSize sizes request
      if largeObjSizeMax < blockSize ∨ 0 < alignment then
        some (hugePageShape b sizes blockSize alignment)
      else some (spanPageShape blockSize)
  else some (spanPageShape (queueBlockSize (bin request)))

variable {b : BlockBuild} {sizes : SegmentSizes} {request alignment : ℕ}
variable {shape : PageShape}

/-- A page is for a block in a queue, for a large block, or huge. -/
theorem findPageShape_cases
    (hshape : findPageShape b sizes request alignment = some shape) :
    (request ≤ mediumObjSizeMax ∧ alignment = 0 ∧
      shape = spanPageShape (queueBlockSize (bin request))) ∨
    (mediumObjSizeMax < request ∧ alignment = 0 ∧
      osGoodAllocSize sizes request ≤ largeObjSizeMax ∧
      shape = spanPageShape (osGoodAllocSize sizes request)) ∨
    ((largeObjSizeMax < osGoodAllocSize sizes request ∨ 0 < alignment) ∧
      request - b.paddingSize ≤ maxAllocSize ∧
      shape =
        hugePageShape b sizes (osGoodAllocSize sizes request) alignment) := by
  unfold findPageShape at hshape
  split at hshape
  · rename_i hlarge
    split at hshape
    · cases hshape
    · rename_i hmax
      dsimp only at hshape
      split at hshape
      · rename_i hhuge
        right; right
        exact ⟨hhuge, not_lt.mp hmax, (Option.some.inj hshape).symm⟩
      · rename_i hspan
        rw [not_or, not_lt, not_lt] at hspan
        right; left
        exact ⟨hlarge.resolve_right (not_lt.mpr hspan.2),
          Nat.le_zero.mp hspan.2, hspan.1, (Option.some.inj hshape).symm⟩
  · rename_i hmedium
    rw [not_or, not_lt, not_lt] at hmedium
    left
    exact ⟨hmedium.1, Nat.le_zero.mp hmedium.2,
      (Option.some.inj hshape).symm⟩

theorem findPageShape_bin {other : ℕ} (hle : request ≤ mediumObjSizeMax)
    (hle' : other ≤ mediumObjSizeMax) (hbin : bin other = bin request) :
    findPageShape b sizes other 0 = findPageShape b sizes request 0 := by
  have hqueued : ∀ request ≤ mediumObjSizeMax,
      findPageShape b sizes request 0 =
        some (spanPageShape (queueBlockSize (bin request))) := by
    intro request hle
    have hnot : ¬(mediumObjSizeMax < request ∨ 0 < 0) := by omega
    unfold findPageShape
    rw [if_neg hnot]
  rw [hqueued request hle, hqueued other hle', hbin]

end Palloc
