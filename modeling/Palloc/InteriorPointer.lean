import Palloc.HugeSegment
import Palloc.PagePartition
import Palloc.BatchFree
import Palloc.GuardedObjectsRun

/-!
# Interior pointers

An aligned or guarded object starts inside of its block.  `pa_free` finds the
page of the object through the slice entry of its address, and the block from
the distance to the start of the page, by a mask where the block size is a
power of two.

Any address in a page of a normal segment leads back to the page.  In a huge
page only the first 16 MiB do, and the one address that lies a segment size
behind the start of the segment; no allocation hands out another one.
-/

namespace Palloc

open BlockHeap MachineWord

/-- `_pa_segment_page_of`. -/
def State.segmentPageOf (st : State) (segment : ℕ) (p : ℕ) : SlicePtr :=
  st.sliceFirst ⟨segment, (p - segment * segmentSize) / segmentSliceSize⟩

namespace PageFields

def shiftAdjust (page : PageFields) (p : ℕ) : ℕ :=
  (p - page.pageStart) &&& (1 <<< page.blockSizeShift - 1)

def moduloAdjust (page : PageFields) (p : ℕ) : ℕ :=
  (p - page.pageStart) % page.blockSize

/-- `_pa_page_ptr_unalign`. -/
def ptrUnalign (page : PageFields) (p : ℕ) : Addr :=
  pagePtrUnalign page.pageStart page.blockSize page.blockSizeShift p

end PageFields

/-! ## Pages since their initialisation -/

/-- The states of the page of a span since `pa_page_init`. -/
inductive PageSince (cfg : Config) (segment idx blockSize : ℕ) :
    PageFields → List Addr → Prop where
  | init {page page' : PageFields} {r : BitVec 64} {heap heapTag : ℕ}
      (hfresh : FreshPage page) (hpos : 0 < blockSize)
      (hinit : pageInit cfg r segment idx heap heapTag blockSize page =
        some page') :
      PageSince cfg segment idx blockSize page' []
  | step {page page' : PageFields} {live live' : List Addr}
      (hreach : PageSince cfg segment idx blockSize page live)
      (hstep : PageStep cfg page live page' live') :
      PageSince cfg segment idx blockSize page' live'

structure KeepsBlocks (page page' : PageFields) : Prop where
  sliceCount : page'.sliceCount = page.sliceCount
  sliceOffset : page'.sliceOffset = page.sliceOffset
  pageStart : page'.pageStart = page.pageStart
  blockSize : page'.blockSize = page.blockSize
  blockSizeShift : page'.blockSizeShift = page.blockSizeShift
  reserved : page'.reserved = page.reserved

theorem KeepsBlocks.refl (page : PageFields) : KeepsBlocks page page :=
  ⟨rfl, rfl, rfl, rfl, rfl, rfl⟩

section Operations

variable {cfg : Config} {page page' : PageFields}

theorem pageThreadFreeCollect_place (page : PageFields) :
    KeepsBlocks page (pageThreadFreeCollect page) := by
  unfold pageThreadFreeCollect
  dsimp only
  split
  · exact ⟨rfl, rfl, rfl, rfl, rfl, rfl⟩
  · split <;> exact ⟨rfl, rfl, rfl, rfl, rfl, rfl⟩

theorem pageFreeCollect_place {force : Bool}
    (h : pageFreeCollect page force = some page') : KeepsBlocks page page' := by
  have hfirst : KeepsBlocks page
      (if force ∨ page.xthreadFree.block ≠ none then
        pageThreadFreeCollect page else page) := by
    split
    · exact pageThreadFreeCollect_place page
    · exact .refl page
  unfold pageFreeCollect at h
  dsimp only at h
  generalize (if force ∨ page.xthreadFree.block ≠ none then
    pageThreadFreeCollect page else page) = p at hfirst h
  obtain ⟨hcount, hoffset, hstart, hsize, hshift, hreserved⟩ := hfirst
  split at h
  · cases h
    exact ⟨hcount, hoffset, hstart, hsize, hshift, hreserved⟩
  · split at h
    · cases h
      exact ⟨hcount, hoffset, hstart, hsize, hshift, hreserved⟩
    · split at h
      · split at h
        · cases h
        · cases h
          exact ⟨hcount, hoffset, hstart, hsize, hshift, hreserved⟩
      · cases h
        exact ⟨hcount, hoffset, hstart, hsize, hshift, hreserved⟩

theorem pageExtendFree_place {r : BitVec 64}
    (h : pageExtendFree cfg r page = some page') : KeepsBlocks page page' := by
  unfold pageExtendFree at h
  split at h
  · cases h
    exact .refl page
  split at h
  · cases h
    exact .refl page
  dsimp only at h
  split at h
  · cases h
  · rename_i p hextended
    cases h
    split at hextended
    · unfold pageFreeListExtend at hextended
      dsimp only at hextended
      split at hextended
      · cases hextended
      · cases hextended
        exact ⟨rfl, rfl, rfl, rfl, rfl, rfl⟩
    · unfold pageFreeListExtendSecure at hextended
      dsimp only at hextended
      split at hextended
      · cases hextended
      · cases hextended
        exact ⟨rfl, rfl, rfl, rfl, rfl, rfl⟩

/-- `pa_page_init` keeps the span of the page. -/
theorem pageInit_span {r : BitVec 64} {segment idx heap heapTag blockSize : ℕ}
    (h : pageInit cfg r segment idx heap heapTag blockSize page =
      some page') :
    page'.sliceCount = page.sliceCount ∧
      page'.sliceOffset = page.sliceOffset := by
  unfold pageInit at h
  dsimp only at h
  have hsame := pageExtendFree_place h
  exact ⟨hsame.sliceCount, hsame.sliceOffset⟩

theorem PageStep.keepsBlocks {live live' : List Addr}
    (hstep : PageStep cfg page live page' live') : KeepsBlocks page page' := by
  cases hstep with
  | malloc hmalloc =>
      unfold pageMallocZero at hmalloc
      split at hmalloc
      · cases hmalloc
      · cases hmalloc
        unfold pageFinishAlloc
        split <;> exact ⟨rfl, rfl, rfl, rfl, rfl, rfl⟩
  | write _ _ => exact ⟨rfl, rfl, rfl, rfl, rfl, rfl⟩
  | freeLocal _ hfree =>
      unfold freeBlockLocal at hfree
      dsimp only at hfree
      split at hfree
      · have hsame := pageFreeCollect_place hfree
        exact ⟨hsame.sliceCount, hsame.sliceOffset, hsame.pageStart,
          hsame.blockSize, hsame.blockSizeShift, hsame.reserved⟩
      · cases hfree
        exact ⟨rfl, rfl, rfl, rfl, rfl, rfl⟩
  | freeThread _ _ => exact ⟨rfl, rfl, rfl, rfl, rfl, rfl⟩
  | setDelayed _ => exact ⟨rfl, rfl, rfl, rfl, rfl, rfl⟩
  | threadFreeCollect => exact pageThreadFreeCollect_place page
  | freeCollect hcollect => exact pageFreeCollect_place hcollect
  | extendFree hextend => exact pageExtendFree_place hextend

end Operations

/-- Where `pa_page_init` places the blocks of a page, and how it chooses
`block_size_shift`. -/
structure PagePlace (segment idx blockSize : ℕ) (page : PageFields) :
    Prop where
  pos : 0 < blockSize
  blockSize_eq : page.blockSize = blockSize
  pageStart_eq : page.pageStart =
    (segmentPageStartFromSlice segment idx page.sliceCount blockSize).1
  reserved_eq : page.reserved =
    (segmentPageStartFromSlice segment idx page.sliceCount blockSize).2 /
      blockSize % 65536
  shift_eq : page.blockSizeShift =
    if isPowerOfTwo blockSize then Nat.log2 blockSize else 0

theorem PagePlace.congr {segment idx blockSize : ℕ} {page page' : PageFields}
    (h : PagePlace segment idx blockSize page) (hsame : KeepsBlocks page page') :
    PagePlace segment idx blockSize page' where
  pos := h.pos
  blockSize_eq := hsame.blockSize.trans h.blockSize_eq
  pageStart_eq := by
    rw [hsame.pageStart, hsame.sliceCount]
    exact h.pageStart_eq
  reserved_eq := by
    rw [hsame.reserved, hsame.sliceCount]
    exact h.reserved_eq
  shift_eq := hsame.blockSizeShift.trans h.shift_eq

theorem PageSince.place {cfg : Config} {segment idx blockSize : ℕ}
    {page : PageFields} {live : List Addr}
    (h : PageSince cfg segment idx blockSize page live) :
    PagePlace segment idx blockSize page := by
  induction h with
  | init _ hpos hinit =>
      unfold pageInit at hinit
      dsimp only at hinit
      refine PagePlace.congr ?_ (pageExtendFree_place hinit)
      refine ⟨hpos, rfl, rfl, rfl, ?_⟩
      dsimp only
      simp only [hpos, true_and]
  | step _ hstep ih => exact ih.congr hstep.keepsBlocks

namespace PagePlace

variable {segment idx blockSize : ℕ} {page : PageFields}

theorem blockSize_eq_two_pow (h : PagePlace segment idx blockSize page)
    (hpow : page.blockSizeShift ≠ 0 ∨ isPowerOfTwo page.blockSize) :
    page.blockSize = 2 ^ page.blockSizeShift := by
  have hsize : isPowerOfTwo blockSize := by
    rcases hpow with hshift | hpow
    · by_contra hnot
      exact hshift (h.shift_eq.trans (if_neg hnot))
    · rw [h.blockSize_eq] at hpow
      exact hpow
  obtain ⟨k, hk⟩ :=
    (Nat.and_sub_one_eq_zero_iff_isPowerOfTwo h.pos.ne').mp hsize
  rw [h.shift_eq, if_pos hsize, h.blockSize_eq, hk, Nat.log2_two_pow]

theorem shiftAdjust_eq (h : PagePlace segment idx blockSize page)
    (hpow : page.blockSizeShift ≠ 0 ∨ isPowerOfTwo page.blockSize)
    (p : ℕ) : page.shiftAdjust p = page.moduloAdjust p := by
  unfold PageFields.shiftAdjust PageFields.moduloAdjust
  rw [Nat.one_shiftLeft, Nat.and_two_pow_sub_one_eq_mod,
    h.blockSize_eq_two_pow hpow]

theorem ptrUnalign_eq (h : PagePlace segment idx blockSize page) (i : ℕ)
    {adjust : ℕ} (hadjust : adjust < page.blockSize) :
    page.ptrUnalign
        (pageBlockAt page.pageStart page.blockSize i + adjust) =
      pageBlockAt page.pageStart page.blockSize i :=
  pagePtrUnalign_block (fun hne => h.blockSize_eq_two_pow (Or.inl hne)) i
    hadjust

/-- The blocks lie in the slices of the page. -/
theorem block_bounds (h : PagePlace segment idx blockSize page) {i : ℕ}
    (hi : i < page.reserved) :
    segment * segmentSize + idx * segmentSliceSize ≤
        pageBlockAt page.pageStart page.blockSize i ∧
      pageBlockAt page.pageStart page.blockSize i + page.blockSize ≤
        segment * segmentSize + (idx + page.sliceCount) * segmentSliceSize := by
  rw [h.reserved_eq] at hi
  unfold pageBlockAt
  rw [h.pageStart_eq, h.blockSize_eq]
  have hpos := h.pos
  unfold segmentPageStartFromSlice at hi ⊢
  dsimp only at hi ⊢
  generalize alignUp _ maxAlignSize = startOffset at hi ⊢
  have hi' : i + 1 ≤ (page.sliceCount * segmentSliceSize - startOffset) /
      blockSize := hi.trans_le (Nat.mod_le _ _)
  have harea := (Nat.le_div_iff_mul_le hpos).mp hi'
  rw [Nat.succ_mul] at harea
  rw [Nat.add_mul]
  show (_ : ℕ) ≤ _ ∧ (_ : ℕ) ≤ _
  omega

end PagePlace

/-! ## Finding the page -/

namespace PageSpan

variable {st : State} {segment idx count : ℕ} {p : ℕ}

/-- The first slices of a page lead back to it. -/
theorem segmentPageOf_eq (h : PageSpan st segment idx count)
    (hlo : segment * segmentSize + idx * segmentSliceSize ≤ p)
    (hnear : p < segment * segmentSize +
      (idx + (maxSliceOffsetCount + 1)) * segmentSliceSize)
    (hcount : p < segment * segmentSize + (idx + count) * segmentSliceSize)
    (hentries : p < segment * segmentSize +
      (st.segments segment).sliceEntries * segmentSliceSize) :
    st.segmentPageOf segment p = ⟨segment, idx⟩ := by
  have hslice : ∀ n, p < segment * segmentSize + n * segmentSliceSize →
      (p - segment * segmentSize) / segmentSliceSize < n := by
    intro n hn
    rw [Nat.div_lt_iff_lt_mul (by decide)]
    omega
  have hge : idx ≤ (p - segment * segmentSize) / segmentSliceSize := by
    rw [Nat.le_div_iff_mul_le (by decide)]
    omega
  obtain ⟨i, hi⟩ := Nat.exists_eq_add_of_le hge
  have hnear' := hslice _ hnear
  have hcount' := hslice _ hcount
  have hentries' := hslice _ hentries
  rw [hi] at hnear' hcount' hentries'
  have hback := h.back i (by omega) (by omega) hentries'
  unfold State.segmentPageOf State.sliceFirst
  dsimp only
  rw [hi, hback, Nat.add_sub_cancel]

theorem segmentPageOf_last (h : PageSpan st segment idx count)
    (hentries : (st.segments segment).sliceEntries = slicesPerSegment)
    (hidx : idx ≤ slicesPerSegment) (hcount : slicesPerSegment < idx + count) :
    st.segmentPageOf segment (segment * segmentSize + segmentSize) =
      ⟨segment, idx⟩ := by
  have hlast := h.last (hentries ▸ hcount)
  rw [hentries] at hlast
  have hslice : (segment * segmentSize + segmentSize - segment * segmentSize) /
      segmentSliceSize = slicesPerSegment := by
    rw [Nat.add_sub_cancel_left]
    rfl
  unfold State.segmentPageOf State.sliceFirst
  dsimp only
  rw [hslice, hlast, Nat.sub_sub_self hidx]

end PageSpan

/-! ## What an allocation hands out -/

/-- The addresses that an allocation in `block` can return, with the request
for a page that it makes and its huge alignment. -/
inductive HandedOut (b : BlockBuild) (sizes : SegmentSizes)
    (blockSize block : ℕ) : (request alignment : ℕ) → ℕ → Prop where
  /-- `_pa_heap_malloc_zero_ex`, and every aligned allocation that takes a
  block as it is. -/
  | malloc (size : ℕ) :
      HandedOut b sizes blockSize block (BlockHeap.requestSize b size) 0 block
  /-- `pa_heap_malloc_zero_aligned_at_overalloc`. -/
  | overalloc (size offset : ℕ) {k : ℕ} (hk : 2 ^ k ≤ blockAlignmentMax) :
      HandedOut b sizes blockSize block
        (BlockHeap.requestSize b (oversize size (2 ^ k))) 0
        (block + alignAdjust block (2 ^ k) offset)
  /-- The same for a very large alignment. -/
  | largeAligned (size : ℕ) {k : ℕ} (hk : blockAlignmentMax < 2 ^ k) :
      HandedOut b sizes blockSize block
        (BlockHeap.requestSize b (oversize size (2 ^ k))) (2 ^ k)
        (block + alignAdjust block (2 ^ k) 0)
  /-- `_pa_heap_malloc_guarded`. -/
  | guarded {g : GuardBuild} {size : ℕ} (hbuild : g.build = b)
      (hpage : g.osPage = sizes.osPageSize) (hsize : size < wordSize) :
      HandedOut b sizes blockSize block
        (guardedReqSize g (guardedObjSize g size)) 0
        (block + guardedOffset g blockSize (guardedObjSize g size))
  /-- `pa_heap_malloc_guarded_aligned`. -/
  | guardedAligned {g : GuardBuild} {size k : ℕ} (hbuild : g.build = b)
      (hpage : g.osPage = sizes.osPageSize) (hk : 2 ^ k < blockAlignmentMax) :
      HandedOut b sizes blockSize block
        (guardedReqSize g (guardedObjSize g ((size + 2 ^ k - 1) % wordSize))) 0
        (alignUp (block + guardedOffset g blockSize
          (guardedObjSize g ((size + 2 ^ k - 1) % wordSize))) (2 ^ k))

section Guarded

variable {b : BlockBuild} {sizes : SegmentSizes} {g : GuardBuild}

theorem osGoodAllocSize_le (h : sizes.Usual) (size : ℕ) :
    osGoodAllocSize sizes size ≤ size + 2 ^ 22 := by
  obtain ⟨alignSize, hmem, heq⟩ := osGoodAllocSize_cases sizes size
  have hpage := h.osPageSize_le
  have hbounds : 0 < alignSize ∧ alignSize ≤ 2 ^ 22 := by
    have hpos := h.osPageSize_pos
    simp only [goodAlignments, List.mem_cons, List.not_mem_nil,
      or_false] at hmem
    omega
  rw [heq]
  split
  · omega
  · have hlt := @alignUp_lt size alignSize hbounds.1
    omega

theorem wordAlignUp_le (word alignment : ℕ) :
    wordAlignUp word alignment ≤ word + alignment := by
  have hdiv := Nat.div_mul_le_self ((word + alignment - 1) % wordSize) alignment
  have hmod := Nat.mod_le (word + alignment - 1) wordSize
  unfold wordAlignUp
  omega

/-- The request for a guarded object is for little more than the object and
the guard page, unless it wraps around and is for a few pages. -/
theorem guardedReqSize_bounds (g : GuardBuild) {objSize : ℕ}
    (hobj : objSize < wordSize) :
    guardedReqSize g objSize ≤ 3 * g.osPage ∨
      objSize + g.osPage ≤ guardedReqSize g objSize ∧
        guardedReqSize g objSize ≤ objSize + 2 * g.osPage + 64 := by
  have hword : wordSize = 2 ^ 64 := rfl
  have hmax : maxAlignSize = 16 := rfl
  have hpage := g.osPage_le
  have hpos := g.osPage_pos
  have hpage16 : 16 ≤ g.osPage := Nat.le_of_dvd hpos g.dvd_osPage
  unfold guardedReqSize
  dsimp only
  -- each of the four sums can wrap
  by_cases hfirst : wordSize ≤ objSize + maxAlignSize - 1
  · rw [wordAlignUp_of_wrap hobj (by decide) hfirst,
      show wordAlignUp ((0 + 8) % wordSize) maxAlignSize = 16 by rfl]
    have hle := wordAlignUp_le ((16 + g.osPage) % wordSize) g.osPage
    rw [Nat.mod_eq_of_lt (by omega)] at hle ⊢
    left
    omega
  rw [@wordAlignUp_of_lt objSize maxAlignSize (by omega)]
  have hle := @le_exactAlignUp objSize maxAlignSize (by decide)
  have hlt := @exactAlignUp_lt objSize maxAlignSize (by decide)
  have hdvd := dvd_exactAlignUp objSize maxAlignSize
  generalize exactAlignUp objSize maxAlignSize = obj at hle hlt hdvd ⊢
  have hobjWord : obj + 8 < wordSize := by
    rw [hmax] at hdvd
    omega
  rw [Nat.mod_eq_of_lt hobjWord]
  by_cases hsecond : wordSize ≤ obj + 8 + maxAlignSize - 1
  · rw [wordAlignUp_of_wrap hobjWord (by decide) hsecond]
    have hle := wordAlignUp_le ((0 + g.osPage) % wordSize) g.osPage
    rw [Nat.mod_eq_of_lt (by omega)] at hle ⊢
    left
    omega
  rw [@wordAlignUp_of_lt (obj + 8) maxAlignSize (by omega)]
  have hble := @le_exactAlignUp (obj + 8) maxAlignSize (by decide)
  have hblt := @exactAlignUp_lt (obj + 8) maxAlignSize (by decide)
  generalize exactAlignUp (obj + 8) maxAlignSize = bsize at hble hblt ⊢
  by_cases hthird : wordSize ≤ bsize + g.osPage
  · have hle := wordAlignUp_le ((bsize + g.osPage) % wordSize) g.osPage
    have hmod : (bsize + g.osPage) % wordSize = bsize + g.osPage - wordSize := by
      rw [Nat.mod_eq_sub_mod hthird, Nat.mod_eq_of_lt (by omega)]
    left
    omega
  rw [Nat.mod_eq_of_lt (by omega)]
  by_cases hfourth : wordSize ≤ bsize + g.osPage + g.osPage - 1
  · rw [wordAlignUp_of_wrap (by omega) (by omega) hfourth]
    left
    omega
  rw [wordAlignUp_of_lt (by omega)]
  have hrle := @le_exactAlignUp (bsize + g.osPage) g.osPage hpos
  have hrlt := @exactAlignUp_lt (bsize + g.osPage) g.osPage hpos
  right
  omega

theorem guardedObjSize_lt {size : ℕ} (hsize : size < wordSize) :
    guardedObjSize g size < wordSize := by
  unfold guardedObjSize
  split
  · exact hsize
  · exact wordAlignUp_lt_wordSize

/-- In a huge page a guarded object starts in the first 8 MiB. -/
theorem guardedOffset_lt (h : sizes.Usual) {size : ℕ} {shape : PageShape}
    (hbuild : g.build = b) (hpage : g.osPage = sizes.osPageSize)
    (hsize : size < wordSize)
    (hshape : findPageShape b sizes
      (guardedReqSize g (guardedObjSize g size)) 0 = some shape)
    (hhuge : shape.isHuge = true) :
    guardedOffset g shape.blockSize (guardedObjSize g size) < 2 ^ 23 := by
  have hword : wordSize = 2 ^ 64 := rfl
  have hlargeMax : largeObjSizeMax = 2 ^ 24 := rfl
  have hslice : segmentSliceSize = 65536 := rfl
  have hobj := @guardedObjSize_lt g size hsize
  have hpageLe := h.osPageSize_le
  have hreq := guardedReqSize_bounds g hobj
  generalize guardedObjSize g size = objSize at hobj hreq hshape ⊢
  generalize guardedReqSize g objSize = request at hreq hshape
  have hgoodLe := osGoodAllocSize_le h request
  have hgoodGe := le_osGoodAllocSize h.osPageSize_pos request
  rcases findPageShape_cases hshape with ⟨-, -, rfl⟩ | ⟨-, -, -, rfl⟩ |
    ⟨hlarge, hmax, rfl⟩
  · cases hhuge
  · cases hhuge
  have hlarge := hlarge.resolve_right (Nat.lt_irrefl 0)
  have hpadding : b.paddingSize = 0 := by
    unfold BlockBuild.paddingSize
    rw [← hbuild, g.noPadding]
    rfl
  have hmax' : maxAllocSize < 2 ^ 63 := by decide
  obtain ⟨-, hroom, hblock⟩ := @hugePage_layout sizes
    (osGoodAllocSize sizes request) h b (by omega)
  generalize (hugePageShape b sizes (osGoodAllocSize sizes request)
    0).blockSize = blockSize at hroom hblock ⊢
  have hdist : (blockSize + 2 * wordSize - g.osPage - objSize) % wordSize =
      blockSize - g.osPage - objSize := by
    rw [show blockSize + 2 * wordSize - g.osPage - objSize =
      blockSize - g.osPage - objSize + 2 * wordSize by omega,
      Nat.add_mul_mod_self_right]
    exact Nat.mod_eq_of_lt (by omega)
  unfold guardedOffset
  dsimp only
  rw [hdist]
  split
  · rename_i hclamp
    have hclampMax : blockAlignmentMax = 2 ^ 24 := rfl
    omega
  · omega

end Guarded

/-! ## Used pages -/

/-- Where a page lies in its segment: behind the header of a normal segment,
or right behind that of a huge segment that is laid out for it.  For a large
alignment the operating system places the segment. -/
inductive PageInSegment (b : BlockBuild) (sizes : SegmentSizes)
    (request alignment : ℕ) (shape : PageShape) (info : SegmentInfo)
    (segment idx : ℕ) : Prop where
  | normal (hkind : shape.isHuge = false) (hidx : 0 < idx)
      (hfits : idx + shape.sliceCount ≤ info.sliceEntries)
      (hentries : info.sliceEntries ≤ slicesPerSegment)
  | huge (hkind : shape.isHuge = true)
      (hinfo : segmentAllocInfo b sizes (osGoodAllocSize sizes request)
        alignment info = info)
      (hidx : idx = info.segmentInfoSlices)
      (hplace : 0 < alignment → alignment ∣ segment * segmentSize +
        (hugeLayout b sizes (osGoodAllocSize sizes request)
          alignment).alignOffset)

structure UsedPage (cfg : Config) (b : BlockBuild) (sizes : SegmentSizes)
    (st : State) (segment idx request alignment : ℕ) (shape : PageShape)
    (live : List Addr) : Prop where
  segment_pos : 0 < segment
  /-- Segments lie in the lower half of the address space. -/
  segment_lt : segment * segmentSize < 2 ^ 63
  made : findPageShape b sizes request alignment = some shape
  inSegment : PageInSegment b sizes request alignment shape
    (st.segments segment) segment idx
  span : PageSpan st segment idx shape.sliceCount
  since : PageSince cfg segment idx shape.blockSize
    (st.slices ⟨segment, idx⟩) live

section UsedPage

variable {cfg : Config} {b : BlockBuild} {sizes : SegmentSizes} {st : State}
variable {segment idx request alignment : ℕ} {shape : PageShape}
variable {live live' : List Addr} {page : PageFields}

theorem PageSpan.setPage {count : ℕ} (h : PageSpan st segment idx count)
    (hcount : page.sliceCount = (st.slices ⟨segment, idx⟩).sliceCount)
    (hoffset : page.sliceOffset = (st.slices ⟨segment, idx⟩).sliceOffset) :
    PageSpan (st.setSlice ⟨segment, idx⟩ page) segment idx count := by
  refine h.congr rfl ?_ ?_
  · rw [State.setSlice_self]
    exact hcount
  · intro i
    by_cases hi : (⟨segment, i⟩ : SlicePtr) = ⟨segment, idx⟩
    · rw [hi, State.setSlice_self]
      exact hoffset
    · rw [State.setSlice_ne _ _ hi]

/-- `pa_page_init` makes a used page of a span. -/
theorem UsedPage.init {r : BitVec 64} {heap heapTag : ℕ}
    (hpos : 0 < segment) (hlt : segment * segmentSize < 2 ^ 63)
    (hmade : findPageShape b sizes request alignment = some shape)
    (hsegment : PageInSegment b sizes request alignment shape
      (st.segments segment) segment idx)
    (hspan : PageSpan st segment idx shape.sliceCount)
    (hfresh : FreshPage (st.slices ⟨segment, idx⟩))
    (hsize : 0 < shape.blockSize)
    (hinit : pageInit cfg r segment idx heap heapTag shape.blockSize
      (st.slices ⟨segment, idx⟩) = some page) :
    UsedPage cfg b sizes (st.setSlice ⟨segment, idx⟩ page) segment idx request
      alignment shape [] where
  segment_pos := hpos
  segment_lt := hlt
  made := hmade
  inSegment := hsegment
  span := by
    obtain ⟨hcount, hoffset⟩ := pageInit_span hinit
    exact hspan.setPage hcount hoffset
  since := by
    rw [State.setSlice_self]
    exact .init hfresh hsize hinit

/-- An operation on a used page leaves it a used page. -/
theorem UsedPage.step
    (h : UsedPage cfg b sizes st segment idx request alignment shape live)
    (hstep : PageStep cfg (st.slices ⟨segment, idx⟩) live page live') :
    UsedPage cfg b sizes (st.setSlice ⟨segment, idx⟩ page) segment idx request
      alignment shape live' where
  segment_pos := h.segment_pos
  segment_lt := h.segment_lt
  made := h.made
  inSegment := h.inSegment
  span := h.span.setPage hstep.keepsBlocks.sliceCount
    hstep.keepsBlocks.sliceOffset
  since := by
    rw [State.setSlice_self]
    exact h.since.step hstep

theorem UsedPage.serves {other : ℕ}
    (h : UsedPage cfg b sizes st segment idx request 0 shape live)
    (hle : request ≤ mediumObjSizeMax) (hle' : other ≤ mediumObjSizeMax)
    (hbin : bin other = bin request) :
    UsedPage cfg b sizes st segment idx other 0 shape live := by
  have hmade := h.made
  rw [← findPageShape_bin hle hle' hbin] at hmade
  refine ⟨h.segment_pos, h.segment_lt, hmade, ?_, h.span, h.since⟩
  rcases h.inSegment with ⟨hkind, hidx, hfits, hentries⟩ | ⟨hkind, -, -, -⟩
  · exact .normal hkind hidx hfits hentries
  · -- a page in a queue is not huge
    unfold findPageShape at hmade
    rw [if_neg (by omega), Option.some.injEq] at hmade
    rw [← hmade] at hkind
    cases hkind

end UsedPage

section Resolve

variable {cfg : Config} {b : BlockBuild} {sizes : SegmentSizes} {st : State}
variable {segment idx request alignment : ℕ} {shape : PageShape}
variable {live : List Addr} {blockSize block p : ℕ}

theorem HandedOut.le
    (hp : HandedOut b sizes blockSize block request alignment p) :
    block ≤ p := by
  cases hp with
  | malloc size => exact le_rfl
  | overalloc size offset hk => exact Nat.le_add_right _ _
  | largeAligned size hk => exact Nat.le_add_right _ _
  | guarded hbuild hpage hsize => exact Nat.le_add_right _ _
  | guardedAligned hbuild hpage hk =>
      exact (Nat.le_add_right _ _).trans (le_alignUp (Nat.two_pow_pos _))

/-- Without a large alignment an object in a huge page starts in the first
16 MiB. -/
theorem HandedOut.near (h : sizes.Usual)
    (hmade : findPageShape b sizes request alignment = some shape)
    (hhuge : shape.isHuge = true)
    (hp : HandedOut b sizes shape.blockSize block request alignment p)
    (halign : alignment = 0) : p < block + blockAlignmentMax := by
  have hmax : blockAlignmentMax = 2 ^ 24 := rfl
  cases hp with
  | malloc size => omega
  | @overalloc size offset k hk =>
      have hlt := (alignAdjust_spec block offset k).1
      exact Nat.add_lt_add_left (hlt.trans_le hk) block
  | largeAligned size hk =>
      exact absurd halign (Nat.two_pow_pos _).ne'
  | guarded hbuild hpage hsize =>
      have hlt := guardedOffset_lt h hbuild hpage hsize hmade hhuge
      omega
  | @guardedAligned g size k hbuild hpage hk =>
      have hlt := guardedOffset_lt h hbuild hpage
        (Nat.mod_lt _ (by decide)) hmade hhuge
      have hround := @alignUp_lt (block + guardedOffset g shape.blockSize
        (guardedObjSize g ((size + 2 ^ k - 1) % wordSize))) (2 ^ k)
        (Nat.two_pow_pos k)
      have hpow : 2 ^ k ≤ 2 ^ 23 := by
        rw [hmax] at hk
        have hlt' := (Nat.pow_lt_pow_iff_right (by decide)).mp hk
        exact Nat.pow_le_pow_right (by decide) (by omega)
      omega

/-- With a large alignment the object starts one segment size behind the start
of the segment. -/
theorem HandedOut.eq_largeAligned {info : ℕ}
    (hp : HandedOut b sizes blockSize
      (segment * segmentSize + info * segmentSliceSize) request alignment p)
    (halign : 0 < alignment) (hpos : 0 < info)
    (hle : info * segmentSliceSize ≤ segmentSize)
    (hplace : alignment ∣ segment * segmentSize + segmentSize) :
    p = segment * segmentSize + segmentSize := by
  cases hp with
  | malloc size => exact absurd halign (Nat.lt_irrefl 0)
  | overalloc size offset hk => exact absurd halign (Nat.lt_irrefl 0)
  | guarded hbuild hpage hsize => exact absurd halign (Nat.lt_irrefl 0)
  | guardedAligned hbuild hpage hk => exact absurd halign (Nat.lt_irrefl 0)
  | @largeAligned size k hk =>
      have hsize : segmentSize ≤ 2 ^ k := by
        have hlt := (Nat.pow_lt_pow_iff_right (by decide : 1 < 2)).mp
          (show 2 ^ 24 < 2 ^ k from hk)
        exact Nat.pow_le_pow_right (by decide : 0 < 2) hlt
      have hslice : 0 < info * segmentSliceSize :=
        Nat.mul_pos hpos (by decide)
      have hadjust : alignAdjust (segment * segmentSize +
          info * segmentSliceSize) (2 ^ k) 0 =
            segmentSize - info * segmentSliceSize := by
        apply alignAdjust_unique
        · omega
        · rw [show segment * segmentSize + info * segmentSliceSize +
            (segmentSize - info * segmentSliceSize) + 0 =
              segment * segmentSize + segmentSize by omega]
          exact hplace
      rw [hadjust]
      omega

theorem HandedOut.request_pos
    (hp : HandedOut b sizes blockSize block request alignment p)
    (halign : 0 < alignment) : 0 < request := by
  cases hp with
  | malloc size => exact absurd halign (Nat.lt_irrefl 0)
  | overalloc size offset hk => exact absurd halign (Nat.lt_irrefl 0)
  | guarded hbuild hpage hsize => exact absurd halign (Nat.lt_irrefl 0)
  | guardedAligned hbuild hpage hk => exact absurd halign (Nat.lt_irrefl 0)
  | @largeAligned size k hk =>
      have hask := le_requestSize b (oversize size (2 ^ k))
      have hpos : 0 < oversize size (2 ^ k) := by
        unfold oversize smallSizeMax smallWsizeMax intptrSize
        rw [if_pos hk]
        split <;> omega
      omega

theorem pageSlices_le (hle : blockSize ≤ largeObjSizeMax) :
    pageSlices blockSize ≤ maxSliceOffsetCount + 1 := by
  have hspan : ∀ required ≤ largeObjSizeMax,
      segmentsPageSlices required ≤ maxSliceOffsetCount + 1 := by
    intro required hrequired
    have hround : alignUp required (if mediumPageSize < required then
        mediumPageSize else segmentSliceSize) ≤ largeObjSizeMax := by
      apply MachineWord.exactAlignUp_le_of_dvd hrequired
      split <;> decide
    exact Nat.div_le_of_le_mul hround
  unfold pageSlices
  split
  · exact hspan blockSize hle
  · split
    · exact hspan mediumPageSize (by decide)
    · exact hspan blockSize hle

theorem sliceCount_le
    (hmade : findPageShape b sizes request alignment = some shape)
    (hkind : shape.isHuge = false) :
    shape.sliceCount ≤ maxSliceOffsetCount + 1 := by
  rcases findPageShape_cases hmade with ⟨-, -, rfl⟩ | ⟨-, -, hlarge, rfl⟩ |
    ⟨-, -, rfl⟩
  · apply pageSlices_le
    have hall : ∀ bin < binFull, queueBlockSize bin ≤ largeObjSizeMax := by
      decide
    apply hall
    rcases bin_cases request with hsmall | ⟨-, hlt⟩
    · simp only [List.mem_cons, List.not_mem_nil, or_false] at hsmall
      unfold binFull binHuge
      omega
    · exact hlt
  · exact pageSlices_le hlarge
  · cases hkind

/-- The slice entries of the address of a block in a normal segment. -/
theorem UsedPage.normal_resolves
    (h : UsedPage cfg b sizes st segment idx request alignment shape live)
    (hkind : shape.isHuge = false) (hidx : 0 < idx)
    (hfits : idx + shape.sliceCount ≤ (st.segments segment).sliceEntries)
    (hentries : (st.segments segment).sliceEntries ≤ slicesPerSegment)
    (hlo : segment * segmentSize + idx * segmentSliceSize ≤ p)
    (hhi : p < segment * segmentSize +
      (idx + shape.sliceCount) * segmentSliceSize) :
    segmentNumber p = some segment ∧
      st.segmentPageOf segment p = ⟨segment, idx⟩ := by
  have hcount := sliceCount_le h.made hkind
  have hslice : ∀ m n, m ≤ n →
      m * segmentSliceSize ≤ n * segmentSliceSize :=
    fun m n hmn => Nat.mul_le_mul_right _ hmn
  have hsize : slicesPerSegment * segmentSliceSize = segmentSize := by decide
  have hone := hslice 1 idx hidx
  have hnear := hslice (idx + shape.sliceCount)
    (idx + (maxSliceOffsetCount + 1)) (by omega)
  have hin := hslice _ _ hfits
  have hseg := hslice _ _ hentries
  have hpos : 0 < segmentSliceSize := by decide
  constructor
  · apply segmentNumber_eq h.segment_pos h.segment_lt <;> omega
  · apply h.span.segmentPageOf_eq hlo <;> omega

/-- A huge page is one block, and that starts with the first slice. -/
theorem UsedPage.huge_block
    (h : UsedPage cfg b sizes st segment idx request alignment shape live)
    (hblock : shape.blockSize = shape.sliceCount * segmentSliceSize) {i : ℕ}
    (hi : i < (st.slices ⟨segment, idx⟩).reserved) :
    pageBlockAt (st.slices ⟨segment, idx⟩).pageStart
        (st.slices ⟨segment, idx⟩).blockSize i =
      segment * segmentSize + idx * segmentSliceSize := by
  have hplace := h.since.place
  have hpos := hplace.pos
  have hstart := hplace.pageStart_eq
  have hreserved := hplace.reserved_eq
  rw [h.span.sliceCount, hblock, segmentPageStart_slices] at hstart hreserved
  rw [hblock] at hpos
  dsimp only at hstart hreserved
  rw [Nat.div_self hpos] at hreserved
  have hzero : i = 0 := by omega
  unfold pageBlockAt
  rw [hstart, hzero, Nat.zero_mul, Nat.add_zero]

theorem UsedPage.huge_resolves (hsizes : sizes.Usual)
    (h : UsedPage cfg b sizes st segment idx request alignment shape live)
    (hkind : shape.isHuge = true)
    (hinfo : segmentAllocInfo b sizes (osGoodAllocSize sizes request)
      alignment (st.segments segment) = st.segments segment)
    (hidx : idx = (st.segments segment).segmentInfoSlices)
    (hplace : 0 < alignment → alignment ∣ segment * segmentSize +
      (hugeLayout b sizes (osGoodAllocSize sizes request)
        alignment).alignOffset)
    (hblock : block = segment * segmentSize + idx * segmentSliceSize)
    (hp : HandedOut b sizes shape.blockSize block request alignment p)
    (hhi : p < block + shape.blockSize) :
    segmentNumber p = some segment ∧
      st.segmentPageOf segment p = ⟨segment, idx⟩ := by
  have hslicePos : 0 < segmentSliceSize := by decide
  have hsize : slicesPerSegment * segmentSliceSize = segmentSize := by decide
  have hlo := hp.le
  have hgood := le_osGoodAllocSize hsizes.osPageSize_pos request
  rcases findPageShape_cases h.made with ⟨-, -, rfl⟩ | ⟨-, -, -, rfl⟩ |
    ⟨hlarge, -, hshape⟩
  · cases hkind
  · cases hkind
  have hslices := congrArg SegmentInfo.segmentInfoSlices hinfo
  change (segmentAllocSlices b sizes (osGoodAllocSize sizes request)
    alignment).2 = _ at hslices
  rw [← hidx] at hslices
  obtain ⟨hinfoPos, hinfoLe⟩ :=
    infoSlices_bounds hsizes b (osGoodAllocSize sizes request)
  rcases Nat.eq_zero_or_pos alignment with halign | halign
  · -- the first 16 MiB have back offsets, and lie in front of the last entry
    have hnear := hp.near hsizes h.made hkind halign
    subst halign
    have hrequired : 0 < osGoodAllocSize sizes request := by
      have := hlarge.resolve_right (Nat.lt_irrefl 0)
      omega
    obtain ⟨htotal, -, -⟩ := hugePage_layout hsizes b hrequired
    rw [hslices, ← hshape, hidx] at htotal
    have hentries := segmentAllocInfo_entries hinfo htotal
    rw [← hidx] at hentries
    change (segmentCalculateSlices b sizes _).2 = idx at hslices
    rw [hslices] at hinfoPos hinfoLe
    have hblockSize : shape.blockSize = shape.sliceCount * 65536 := by
      rw [hshape]
      rfl
    have hsegment : segmentSize = 33554432 := rfl
    have hnumber : slicesPerSegment = 512 := rfl
    have hback : maxSliceOffsetCount = 255 := rfl
    have hmax : blockAlignmentMax = 16777216 := rfl
    have hbase : segment * segmentSize = segment * 33554432 := rfl
    have hfirst : idx * segmentSliceSize = idx * 65536 := rfl
    have hin : ∀ n, p < segment * 33554432 + n * 65536 →
        p < segment * segmentSize + n * segmentSliceSize := fun _ hn => hn
    rw [hblock] at hlo hnear hhi
    constructor
    · apply segmentNumber_eq h.segment_pos h.segment_lt <;> omega
    · apply h.span.segmentPageOf_eq hlo <;> apply hin <;> omega
  · -- the object starts at the one place that the last entry is for
    obtain ⟨hinfoEq, htotal, hbeyond, hoffset⟩ := @largeAligned_layout
      sizes (osGoodAllocSize sizes request) alignment hsizes b
      (by have := hp.request_pos halign; omega) halign
    rw [hslices] at hinfoEq
    rw [hslices, ← hshape] at hbeyond
    rw [hslices, ← hshape, hidx] at htotal
    have hentries := segmentAllocInfo_entries hinfo htotal
    rw [← hidx, Nat.min_eq_left hbeyond.le] at hentries
    rw [← hinfoEq] at hinfoPos hinfoLe
    have hle : idx * segmentSliceSize ≤ segmentSize := by
      rw [← hsize]
      apply Nat.mul_le_mul_right
      unfold slicesPerSegment
      omega
    have hplace' := hplace halign
    rw [hoffset] at hplace'
    have hpEq := (hblock ▸ hp).eq_largeAligned halign hinfoPos hle hplace'
    rw [hpEq]
    constructor
    · apply segmentNumber_eq h.segment_pos h.segment_lt _ le_rfl
      exact Nat.lt_add_of_pos_right (by decide)
    · apply h.span.segmentPageOf_last hentries _ hbeyond
      unfold slicesPerSegment
      omega

/-- Every address that an allocation hands out leads back to the page and the
block that it was taken from, in a page with any number of slices and for any
of its blocks. -/
theorem interior_pointer_resolves (hsizes : sizes.Usual)
    (h : UsedPage cfg b sizes st segment idx request alignment shape live)
    {page : PageFields} (hpage : page = st.slices ⟨segment, idx⟩) {i : ℕ}
    (hi : i < page.reserved)
    (hp : HandedOut b sizes shape.blockSize
      (pageBlockAt page.pageStart page.blockSize i) request alignment p)
    (hlast : p <
      pageBlockAt page.pageStart page.blockSize i + page.blockSize) :
    segmentNumber p = some segment ∧
      st.segmentPageOf segment p = ⟨segment, idx⟩ ∧
      page.ptrUnalign p = pageBlockAt page.pageStart page.blockSize i ∧
      (page.blockSizeShift ≠ 0 ∨ isPowerOfTwo page.blockSize →
        page.shiftAdjust p = page.moduloAdjust p) := by
  subst hpage
  have hplace := h.since.place
  have hblockSize := hplace.blockSize_eq
  obtain ⟨hlow, hhigh⟩ := hplace.block_bounds hi
  rw [h.span.sliceCount] at hhigh
  have hle := hp.le
  have hfound : segmentNumber p = some segment ∧
      st.segmentPageOf segment p = ⟨segment, idx⟩ := by
    cases h.inSegment with
    | normal hkind hidx hfits hentries =>
        exact h.normal_resolves hkind hidx hfits hentries (hlow.trans hle)
          (hlast.trans_le hhigh)
    | huge hkind hinfo hidx hplaced =>
        have hshape : shape.blockSize =
            shape.sliceCount * segmentSliceSize := by
          rcases findPageShape_cases h.made with ⟨-, -, rfl⟩ |
            ⟨-, -, -, rfl⟩ | ⟨-, -, rfl⟩
          · cases hkind
          · cases hkind
          · rfl
        exact h.huge_resolves hsizes hkind hinfo hidx hplaced
          (h.huge_block hshape hi) hp (hblockSize ▸ hlast)
  refine ⟨hfound.1, hfound.2, ?_, fun hpow => hplace.shiftAdjust_eq hpow p⟩
  obtain ⟨adjust, hadjust⟩ := Nat.exists_eq_add_of_le hle
  have hlt : adjust < (st.slices ⟨segment, idx⟩).blockSize := by
    rw [hadjust] at hlast
    exact Nat.lt_of_add_lt_add_left hlast
  rw [hadjust]
  exact hplace.ptrUnalign_eq i hlt

end Resolve

/-! ## An object behind the last entry -/

/-- The segment of an object that is aligned to 32 MiB. -/
def alignedInfo : SegmentInfo :=
  segmentAllocInfo ⟨false, false, false⟩ ⟨4096, 53248⟩ 4096 (2 ^ 25) firstInfo

def alignedPage : PageFields :=
  (pageInit {} 0 1 1 0 0 (512 * segmentSliceSize)
    { PageFields.zero with sliceCount := 512 }).getD PageFields.zero

def alignedState : State :=
  { emptyState with
    segments := fun _ => alignedInfo
    slices := fun slice =>
      if slice.idx = 1 then alignedPage
      else { PageFields.zero with sliceOffset := slice.idx - 1 } }

theorem alignedState_usedPage :
    UsedPage {} ⟨false, false, false⟩ ⟨4096, 53248⟩ alignedState 1 1 1025
      (2 ^ 25) ⟨512, 512 * segmentSliceSize, true⟩ [] := by
  obtain ⟨page, -, hinit, -⟩ := @pageInit_partition {}
    { PageFields.zero with sliceCount := 512 } ⟨rfl, rfl, rfl, rfl, rfl⟩
    (512 * segmentSliceSize) (by decide) 0 1 1 0 0
  have hpage : alignedPage = page := by
    unfold alignedPage
    rw [hinit]
    rfl
  have hsince : PageSince {} 1 1 (512 * segmentSliceSize) alignedPage [] := by
    rw [hpage]
    exact .init ⟨rfl, rfl, rfl, rfl, rfl⟩ (by decide) hinit
  obtain ⟨hcount, hoffset⟩ := pageInit_span hinit
  rw [← hpage] at hcount hoffset
  refine ⟨by decide, by decide, by decide +kernel, ?_, ?_, hsince⟩
  · exact .huge rfl rfl (by decide +kernel) (fun _ => by decide +kernel)
  · refine ⟨hcount, ?_, ?_⟩
    · intro i hi hle hlt
      rcases Nat.eq_zero_or_pos i with rfl | hpos
      · exact hoffset
      · unfold alignedState
        dsimp only
        rw [if_neg (by omega)]
        exact Nat.add_sub_cancel_left 1 i
    · intro _
      decide +kernel

theorem interior_pointer_resolves_aligned :
    segmentNumber 67108864 = some 1 ∧
      alignedState.segmentPageOf 1 67108864 = ⟨1, 1⟩ ∧
      alignedPage.ptrUnalign 67108864 = 33619968 := by
  have hblock : pageBlockAt alignedPage.pageStart alignedPage.blockSize 0 =
      33619968 := by
    decide +kernel
  have hptr : 33619968 + alignAdjust 33619968 (2 ^ 25) 0 = 67108864 := by
    decide +kernel
  have hp : HandedOut ⟨false, false, false⟩ ⟨4096, 53248⟩
      (512 * segmentSliceSize) 33619968 1025 (2 ^ 25) 67108864 := by
    rw [← hptr]
    exact @HandedOut.largeAligned _ _ _ _ 1000 25 (by decide)
  have husual : SegmentSizes.Usual ⟨4096, 53248⟩ :=
    ⟨by decide, by decide, by decide, by decide⟩
  have hresolves := @interior_pointer_resolves {} ⟨false, false, false⟩
    ⟨4096, 53248⟩ alignedState 1 1 1025 (2 ^ 25)
    ⟨512, 512 * segmentSliceSize, true⟩ [] 67108864 husual
    alignedState_usedPage alignedPage rfl 0 (by decide +kernel)
    (by rw [hblock]; exact hp) (by decide +kernel)
  rw [hblock] at hresolves
  exact ⟨hresolves.1, hresolves.2.1, hresolves.2.2.1⟩

end Palloc
