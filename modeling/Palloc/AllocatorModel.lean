import Mathlib.Data.List.Basic
import Mathlib.Data.Int.Notation
import Mathlib.Logic.Function.Basic

/-!
# Data of the allocator

Segments are 32 MiB regions cut into slices of 64 KiB; a page is a span of
slices that holds blocks of one size.  The slice entries of a segment header
are `pa_page_t` records, and a slice entry that starts no page is the same
record with only its slice fields in use.

Addresses are natural numbers and segment `k` starts at `k * segmentSize`.
A null pointer is `none`.  The link words of a page area are kept with the
page: `links block` is what `pa_block_next` decodes at `block`.
-/

namespace Palloc

abbrev Addr := ℕ

/-! ## Size constants -/

def segmentSliceSize : ℕ := 65536
def segmentSize : ℕ := 33554432
def slicesPerSegment : ℕ := 512
def smallPageSize : ℕ := segmentSliceSize
def mediumPageSize : ℕ := 8 * segmentSliceSize
def smallObjSizeMax : ℕ := smallPageSize / 8
def mediumObjSizeMax : ℕ := mediumPageSize / 8
def largeObjSizeMax : ℕ := segmentSize / 2
def maxAlignSize : ℕ := 16
def maxAlignGuarantee : ℕ := mediumObjSizeMax
def intptrSize : ℕ := 8
def maxSliceOffsetCount : ℕ := 255
def segmentBinMax : ℕ := 35
def binHuge : ℕ := 73
def binFull : ℕ := binHuge + 1

/-- `_pa_align_up`. -/
def alignUp (size alignment : ℕ) : ℕ :=
  (size + alignment - 1) / alignment * alignment

/-- `_pa_align_down`. -/
def alignDown (size alignment : ℕ) : ℕ := size / alignment * alignment

/-! ## Build and run-time configuration -/

structure Config where
  /-- `PA_SECURE`, between 0 and 4. -/
  secure : ℕ := 0
  /-- `PA_PADDING`: a padding record ends every block. -/
  padding : Bool := false
  purgeDelay : ℤ := 10
  purgeExtendDelay : ℤ := 1
  purgeDecommits : Bool := true
  adaptivePurge : Bool := false
  deriving Repr, DecidableEq

def Config.paddingSize (cfg : Config) : ℕ := if cfg.padding then 8 else 0

/-! ## Pages -/

/-- `pa_delayed_t`. -/
inductive Delayed where
  | useDelayedFree
  | delayedFreeing
  | noDelayedFree
  | neverDelayedFree
  deriving Repr, DecidableEq

/-- `pa_thread_free_t`: a block pointer with the delayed flag in its low
bits. -/
@[ext] structure ThreadFree where
  block : Option Addr
  delayed : Delayed
  deriving Repr, DecidableEq

/-- The fields of `pa_page_t`, except the queue fields `next` and `prev`, and
the link words of the page area. -/
@[ext] structure PageFields where
  sliceCount : ℕ
  sliceOffset : ℕ
  isCommitted : Bool
  isHuge : Bool
  isZeroInit : Bool
  retireExpire : ℕ
  capacity : ℕ
  used : ℕ
  inFull : Bool
  hasAligned : Bool
  freeIsZero : Bool
  blockSizeShift : ℕ
  free : Option Addr
  localFree : Option Addr
  xthreadFree : ThreadFree
  blockSize : ℕ
  reserved : ℕ
  heapTag : ℕ
  pageStart : Addr
  xheap : Option ℕ
  links : Addr → Option Addr

def PageFields.zero : PageFields where
  sliceCount := 0
  sliceOffset := 0
  isCommitted := false
  isHuge := false
  isZeroInit := false
  retireExpire := 0
  capacity := 0
  used := 0
  inFull := false
  hasAligned := false
  freeIsZero := false
  blockSizeShift := 0
  free := none
  localFree := none
  xthreadFree := ⟨none, .useDelayedFree⟩
  blockSize := 0
  reserved := 0
  heapTag := 0
  pageStart := 0
  xheap := none
  links := fun _ => none

/-- `pa_page_usable_block_size`. -/
def pageUsableBlockSize (cfg : Config) (page : PageFields) : ℕ :=
  page.blockSize - cfg.paddingSize

/-- `_pa_segment_page_start_from_slice`: the start and the size of the page
area of a span of `sliceCount` slices at slice `idx`. -/
def segmentPageStartFromSlice (segment : ℕ) (idx sliceCount blockSize : ℕ) :
    Addr × ℕ :=
  let psize := sliceCount * segmentSliceSize
  let pstart := segment * segmentSize + idx * segmentSliceSize
  let adjust := blockSize - pstart % blockSize
  let startOffset :=
    if 0 < blockSize ∧ blockSize ≤ maxAlignGuarantee ∧ adjust < blockSize ∧
        blockSize + adjust ≤ psize then adjust else 0
  let startOffset :=
    if intptrSize ≤ blockSize then
      if blockSize ≤ 64 then startOffset + 3 * blockSize
      else if blockSize ≤ 512 then startOffset + blockSize
      else startOffset
    else startOffset
  let startOffset := alignUp startOffset maxAlignSize
  (pstart + startOffset, psize - startOffset)

end Palloc
