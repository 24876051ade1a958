import Palloc.HeapObjects
import Palloc.MachineWord

/-!
# Aligned allocation

`pa_heap_malloc_zero_aligned_at` has four ways to find an address at which
`p + offset` is a multiple of the alignment.  It takes the first free block of
a small page when that happens to fit, it allocates without further ado when
the size makes the block aligned, it allocates more than it needs and moves
the address inside of the block, and for a very large alignment it places a
segment so that the aligned address lies one segment size behind it.
-/

namespace Palloc

open ByteMemory BlockHeap

/-! ## Huge pages -/

structure SegmentSizes where
  osPageSize : ℕ
  /-- `sizeof(pa_segment_t)`. -/
  header : ℕ
  deriving Repr, DecidableEq

/-- `_pa_os_good_alloc_size`. -/
def osGoodAllocSize (sizes : SegmentSizes) (size : ℕ) : ℕ :=
  let alignSize :=
    if size < 512 * 1024 then sizes.osPageSize
    else if size < 2 * 1024 * 1024 then 64 * 1024
    else if size < 8 * 1024 * 1024 then 256 * 1024
    else if size < 32 * 1024 * 1024 then 1024 * 1024
    else 4 * 1024 * 1024
  if 2 ^ 64 - 1 - alignSize ≤ size then size else alignUp size alignSize

/-- `pa_segment_calculate_slices`: the slices of the segment and those of its
header. -/
def segmentCalculateSlices (b : BlockBuild) (sizes : SegmentSizes)
    (required : ℕ) : ℕ × ℕ :=
  let isize := alignUp sizes.header sizes.osPageSize
  let guardsize := if b.secure then sizes.osPageSize else 0
  let required :=
    if b.secure ∧ 0 < required then
      alignUp required segmentSliceSize + sizes.osPageSize
    else required
  let isize := alignUp (isize + guardsize) segmentSliceSize
  let size :=
    if required = 0 then segmentSize
    else alignUp (required + isize + guardsize) segmentSliceSize
  (size / segmentSliceSize, isize / segmentSliceSize)

/-- What the operating system and the page layer choose for a huge page: the
start of the memory, the identity and the address of the page record. -/
structure HugeArea where
  id : ℕ
  start : ℕ
  addr : ℕ
  isZeroInit : Bool
  keys : FreeListKeys

/-- The layout that `pa_segment_os_alloc` computes for a huge page of
`required` bytes. -/
structure HugeLayout where
  segmentSlices : ℕ
  infoSlices : ℕ
  alignOffset : ℕ
  /-- The bytes that `_pa_os_alloc_aligned_at_offset` skips. -/
  skipped : ℕ
  deriving Repr, DecidableEq

def hugeLayout (b : BlockBuild) (sizes : SegmentSizes)
    (required alignment : ℕ) : HugeLayout :=
  let infoSize :=
    (segmentCalculateSlices b sizes required).2 * segmentSliceSize
  let alignOffset := alignUp infoSize segmentSize
  let extra := alignOffset - infoSize
  let slices := segmentCalculateSlices b sizes (required + extra)
  { segmentSlices := slices.1
    infoSlices := slices.2
    alignOffset := alignOffset
    skipped := alignUp alignOffset alignment - alignOffset }

/-- `pa_segment_huge_page_alloc` for a large alignment, with the memory that
the operating system gave. -/
def segmentHugePageAlloc (b : BlockBuild) (sizes : SegmentSizes)
    (required alignment : ℕ) (area : HugeArea) : BlockPage :=
  let layout := hugeLayout b sizes required alignment
  let segment := (area.start + layout.skipped) / segmentSize
  let guardSlices := if b.secure then 1 else 0
  let sliceCount := layout.segmentSlices - layout.infoSlices - guardSlices
  let psize := (segmentPageStartFromSlice segment layout.infoSlices sliceCount
    (sliceCount * segmentSliceSize)).2
  blockPageInit area.addr segment layout.infoSlices sliceCount psize true
    area.isZeroInit area.keys

/-- `pa_good_size`. -/
def goodSize (b : BlockBuild) (sizes : SegmentSizes) (size : ℕ) : ℕ :=
  if size ≤ mediumObjSizeMax then queueBlockSize (bin (size + b.paddingSize))
  else alignUp (size + b.paddingSize) sizes.osPageSize

/-- `pa_malloc_is_naturally_aligned`. -/
def mallocIsNaturallyAligned (b : BlockBuild) (sizes : SegmentSizes)
    (size alignment : ℕ) : Prop :=
  alignment ≤ size ∧
    (alignment ≤ maxAlignSize ∨
      goodSize b sizes size ≤ maxAlignGuarantee ∧
        goodSize b sizes size &&& (alignment - 1) = 0)

instance (b : BlockBuild) (sizes : SegmentSizes) (size alignment : ℕ) :
    Decidable (mallocIsNaturallyAligned b sizes size alignment) :=
  inferInstanceAs (Decidable (_ ∧ _))

/-- `PA_MAX_ALLOC_SIZE`: the slices of an allocation are counted in 32 bits. -/
def maxAllocSize : ℕ := segmentSliceSize * (2 ^ 32 - 2)

/-! ## The page layer -/

/-- The answers of the page layer and of the operating system.  `prepare` and
`settle` are its work before a block is handed out and after one is given
back.  It hands out blocks of a heap that is in order. -/
structure PageLayer (b : BlockBuild) where
  sizes : SegmentSizes
  prepare : BlockHeap → ℕ → BlockHeap
  /-- The page and the block for a request, padding included. -/
  alloc : BlockHeap → ℕ → Option (ℕ × BlockPage × ℕ)
  /-- The first free block of `_pa_heap_get_free_small_page`. -/
  smallFree : BlockHeap → ℕ → Option (ℕ × BlockPage × ℕ)
  /-- Memory of a number of bytes for a huge page, with an alignment. -/
  osAlloc : BlockHeap → ℕ → ℕ → Option HugeArea
  freeKind : BlockHeap → HeapObject → FreeKind
  settle : BlockHeap → BlockHeap
  osPageSize_pos : 0 < sizes.osPageSize
  prepare_background : ∀ st size, HeapOk b st →
    Background st (prepare st size)
  settle_background : ∀ st, HeapOk b st → Background st (settle st)
  alloc_canAlloc : ∀ st size id page block, HeapOk b st →
    alloc st size = some (id, page, block) →
      st.CanAlloc id page block size
  smallFree_canAlloc : ∀ st size id page block, HeapOk b st →
    smallFree st size = some (id, page, block) →
      st.CanAlloc id page block size
  osAlloc_fresh : ∀ st size alignment area,
    osAlloc st size alignment = some area →
      alignment ∣ area.start ∧ st.pages area.id = none ∧
      ∀ id page, st.pages id = some page →
        area.start + size ≤ page.sliceStart ∨ page.sliceEnd ≤ area.start

variable {b : BlockBuild} (layer : PageLayer b)

/-- `_pa_heap_malloc_zero_ex` without a huge alignment. -/
def heapMallocZero (st : BlockHeap) (size : ℕ) (zero : Bool) :
    Option HeapObject × BlockHeap :=
  let request := BlockHeap.requestSize b size
  let st := layer.prepare st request
  match layer.alloc st request with
  | none => (none, st)
  | some (id, page, block) =>
      (some ⟨id, block, block, size⟩, malloc b st id page block size zero)

/-- The bytes that `pa_large_huge_page_alloc` asks for. -/
def hugeBlockSize (size alignment : ℕ) : ℕ :=
  osGoodAllocSize layer.sizes
    (BlockHeap.requestSize b (oversize size alignment))

/-- The memory that `_pa_os_alloc_aligned_at_offset` asks for. -/
def hugeOsSize (size alignment : ℕ) : ℕ :=
  let layout := hugeLayout b layer.sizes (hugeBlockSize layer size alignment)
    alignment
  layout.segmentSlices * segmentSliceSize + layout.skipped

/-- `pa_heap_malloc_zero_aligned_at_overalloc`. -/
def mallocAlignedOveralloc (st : BlockHeap) (size alignment offset : ℕ)
    (zero : Bool) : Option HeapObject × BlockHeap :=
  let request := BlockHeap.requestSize b (oversize size alignment)
  if blockAlignmentMax < alignment then
    if offset ≠ 0 then (none, st)
    else
      let st := layer.prepare st request
      match layer.osAlloc st (hugeOsSize layer size alignment) alignment with
      | none => (none, st)
      | some area =>
          let page := segmentHugePageAlloc b layer.sizes
            (hugeBlockSize layer size alignment) alignment area
          let st :=
            { st with pages := Function.update st.pages area.id (some page) }
          let block := page.pageStart
          (some ⟨area.id, block, block + alignAdjust block alignment offset,
              size⟩,
            mallocAligned b st area.id page block size alignment offset zero)
  else
    let st := layer.prepare st request
    match layer.alloc st request with
    | none => (none, st)
    | some (id, page, block) =>
        (some ⟨id, block, block + alignAdjust block alignment offset, size⟩,
          mallocAligned b st id page block size alignment offset zero)

/-- `pa_heap_malloc_zero_aligned_at_generic`; a block that is not aligned
after all is freed again. -/
def mallocAlignedGeneric (check : Bool) (st : BlockHeap)
    (size alignment offset : ℕ) (zero : Bool) :
    Option HeapObject × BlockHeap :=
  if maxAllocSize - b.paddingSize < size then (none, st)
  else if offset = 0 ∧ mallocIsNaturallyAligned b layer.sizes size alignment then
    match heapMallocZero layer st size zero with
    | (none, st) => (none, st)
    | (some o, st) =>
        if o.ptr &&& (alignment - 1) = 0 then (some o, st)
        else
          let st :=
            layer.settle (paFree b check st o (layer.freeKind st o))
          mallocAlignedOveralloc layer st size alignment offset zero
  else mallocAlignedOveralloc layer st size alignment offset zero

/-- `pa_heap_malloc_zero_aligned_at`. -/
def heapMallocZeroAlignedAt (check : Bool) (st : BlockHeap)
    (size alignment offset : ℕ) (zero : Bool) :
    Option HeapObject × BlockHeap :=
  if alignment = 0 ∨ ¬isPowerOfTwo alignment then (none, st)
  else if size ≤ smallSizeMax ∧ alignment ≤ size then
    match layer.smallFree st (size + b.paddingSize) with
    | some (id, page, block) =>
        if (block + offset) &&& (alignment - 1) = 0 then
          (some ⟨id, block, block, size⟩,
            malloc b st id page block size zero)
        else mallocAlignedGeneric layer check st size alignment offset zero
    | none => mallocAlignedGeneric layer check st size alignment offset zero
  else mallocAlignedGeneric layer check st size alignment offset zero

/-! ## The layout of a huge page -/

theorem le_alignUp {n a : ℕ} (ha : 0 < a) : n ≤ alignUp n a :=
  MachineWord.le_exactAlignUp ha

theorem dvd_alignUp (n a : ℕ) : a ∣ alignUp n a :=
  MachineWord.dvd_exactAlignUp n a

theorem alignUp_lt {n a : ℕ} (ha : 0 < a) : alignUp n a < n + a :=
  MachineWord.exactAlignUp_lt ha

/-- The sizes that `_pa_os_good_alloc_size` rounds up to. -/
def goodAlignments (sizes : SegmentSizes) : List ℕ :=
  [sizes.osPageSize, 64 * 1024, 256 * 1024, 1024 * 1024, 4 * 1024 * 1024]

theorem osGoodAllocSize_cases (sizes : SegmentSizes) (size : ℕ) :
    ∃ alignSize ∈ goodAlignments sizes, osGoodAllocSize sizes size =
      if 2 ^ 64 - 1 - alignSize ≤ size then size
      else alignUp size alignSize := by
  refine ⟨_, ?_, rfl⟩
  unfold goodAlignments
  split
  · simp
  split
  · simp
  split
  · simp
  split <;> simp

theorem le_osGoodAllocSize {sizes : SegmentSizes} (hpos : 0 < sizes.osPageSize)
    (size : ℕ) : size ≤ osGoodAllocSize sizes size := by
  obtain ⟨alignSize, hmem, heq⟩ := osGoodAllocSize_cases sizes size
  have halign : 0 < alignSize := by
    revert alignSize
    simp [goodAlignments, hpos]
  rw [heq]
  split
  · exact le_rfl
  · exact le_alignUp halign

theorem segmentPageStart_slices (segment idx n : ℕ) :
    segmentPageStartFromSlice segment idx n (n * segmentSliceSize) =
      (segment * segmentSize + idx * segmentSliceSize,
        n * segmentSliceSize) := by
  have hzero : n * segmentSliceSize = 0 ∨ 512 < n * segmentSliceSize := by
    unfold segmentSliceSize
    omega
  have hadjust : ¬(0 < n * segmentSliceSize ∧
      n * segmentSliceSize ≤ maxAlignGuarantee ∧
      n * segmentSliceSize - (segment * segmentSize +
        idx * segmentSliceSize) % (n * segmentSliceSize) <
          n * segmentSliceSize ∧
      n * segmentSliceSize + (n * segmentSliceSize - (segment * segmentSize +
        idx * segmentSliceSize) % (n * segmentSliceSize)) ≤
          n * segmentSliceSize) := by
    rintro ⟨hpos, -, hlt, hle⟩
    have hmod := Nat.mod_lt (segment * segmentSize + idx * segmentSliceSize)
      hpos
    omega
  unfold segmentPageStartFromSlice
  dsimp only
  rw [if_neg hadjust]
  have hoffset : (if intptrSize ≤ n * segmentSliceSize then
      if n * segmentSliceSize ≤ 64 then 0 + 3 * (n * segmentSliceSize)
      else if n * segmentSliceSize ≤ 512 then 0 + n * segmentSliceSize
      else 0
      else 0) = 0 := by
    split
    · next hword =>
        rcases hzero with hz | hlarge
        · rw [hz] at hword
          exact absurd hword (by decide)
        · rw [if_neg (by omega), if_neg (by omega)]
    · rfl
  rw [hoffset, show alignUp 0 maxAlignSize = 0 by decide, Nat.add_zero,
    Nat.sub_zero]

section Huge

variable {sizes : SegmentSizes} {required alignment : ℕ}

theorem segmentCalculateSlices_info (b : BlockBuild) (sizes : SegmentSizes)
    (required required' : ℕ) :
    (segmentCalculateSlices b sizes required).2 =
      (segmentCalculateSlices b sizes required').2 := rfl

/-- The slices of a segment hold its header, the page, and in a secure build
a slice for the guard page. -/
theorem segmentCalculateSlices_room (b : BlockBuild)
    (hpage : 0 < sizes.osPageSize) (hpos : 0 < required) :
    required + (segmentCalculateSlices b sizes required).2 *
        segmentSliceSize + (if b.secure then 1 else 0) * segmentSliceSize ≤
      (segmentCalculateSlices b sizes required).1 * segmentSliceSize := by
  have hslice : 0 < segmentSliceSize := by decide
  unfold segmentCalculateSlices
  dsimp only
  generalize alignUp sizes.header sizes.osPageSize = isize
  cases hsecure : b.secure with
  | false =>
      have hguard : ¬(false = true ∧ 0 < required) :=
        fun h => Bool.false_ne_true h.1
      rw [if_neg Bool.false_ne_true, if_neg Bool.false_ne_true,
        if_neg hguard, if_neg hpos.ne', Nat.zero_mul, Nat.add_zero,
        Nat.add_zero, Nat.add_zero]
      rw [Nat.div_mul_cancel (dvd_alignUp _ _),
        Nat.div_mul_cancel (dvd_alignUp _ _)]
      exact le_alignUp hslice
  | true =>
      simp only [true_and, if_true, if_pos hpos, Nat.one_mul]
      generalize hinfo : alignUp (isize + sizes.osPageSize)
        segmentSliceSize = info
      generalize hneed : alignUp required segmentSliceSize = need
      have hle : required ≤ need := hneed ▸ le_alignUp hslice
      have hdvd : segmentSliceSize ∣ need + info := by
        rw [← hneed, ← hinfo]
        exact Nat.dvd_add (dvd_alignUp _ _) (dvd_alignUp _ _)
      have htotal := @le_alignUp
        (need + sizes.osPageSize + info + sizes.osPageSize) _ hslice
      have hdvd' := dvd_alignUp
        (need + sizes.osPageSize + info + sizes.osPageSize) segmentSliceSize
      rw [if_neg (by omega), Nat.div_mul_cancel hdvd',
        Nat.div_mul_cancel (hinfo ▸ dvd_alignUp _ _)]
      generalize alignUp (need + sizes.osPageSize + info +
        sizes.osPageSize) segmentSliceSize = total at htotal hdvd' ⊢
      -- both are multiples of the slice size, and the second is larger
      obtain ⟨m, hm⟩ := hdvd
      obtain ⟨n, hn⟩ := hdvd'
      have hlt : m < n := by
        by_contra hge
        have hmul : segmentSliceSize * n ≤ segmentSliceSize * m :=
          Nat.mul_le_mul_left _ (by omega)
        omega
      have hnext : segmentSliceSize * (m + 1) ≤ segmentSliceSize * n :=
        Nat.mul_le_mul_left _ hlt
      rw [Nat.mul_add, Nat.mul_one] at hnext
      omega

structure HugePageOk (b : BlockBuild) (sizes : SegmentSizes)
    (required alignment : ℕ) (area : HugeArea) (page : BlockPage) : Prop where
  ok : PageOk page
  isHuge : page.isHuge = true
  reserved : page.reserved = 1
  whole : page.blockSizeShift ≠ 0 → page.blockSize = 2 ^ page.blockSizeShift
  start_le : area.start ≤ page.sliceStart
  end_le : page.sliceEnd ≤ area.start +
    ((hugeLayout b sizes required alignment).segmentSlices *
        segmentSliceSize + (hugeLayout b sizes required alignment).skipped)
  room : required + alignAdjust page.pageStart alignment 0 ≤ page.blockSize

theorem segmentHugePageAlloc_ok {b : BlockBuild} {area : HugeArea} {k : ℕ}
    (hsize : 0 < sizes.osPageSize) (hpos : 0 < required)
    (hlarge : segmentSize ∣ 2 ^ k) (hstart : 2 ^ k ∣ area.start) :
    HugePageOk b sizes required (2 ^ k) area
      (segmentHugePageAlloc b sizes required (2 ^ k) area) := by
  have hk : 0 < 2 ^ k := Nat.two_pow_pos k
  have hsegment : 0 < segmentSize := by decide
  set layout := hugeLayout b sizes required (2 ^ k) with hlayout
  set info := (segmentCalculateSlices b sizes required).2 with hinfo
  set guard := if b.secure = true then 1 else 0 with hguard
  have hoffset : layout.alignOffset =
      alignUp (info * segmentSliceSize) segmentSize := rfl
  have hoffsetLe : info * segmentSliceSize ≤ layout.alignOffset := by
    rw [hoffset]
    exact le_alignUp hsegment
  have hoffsetDvd : segmentSize ∣ layout.alignOffset := by
    rw [hoffset]
    exact dvd_alignUp _ _
  have hoffsetLt : layout.alignOffset <
      info * segmentSliceSize + segmentSize := by
    rw [hoffset]
    exact alignUp_lt hsegment
  set extra := layout.alignOffset - info * segmentSliceSize with hextra
  have hslices : layout.segmentSlices =
      (segmentCalculateSlices b sizes (required + extra)).1 := rfl
  have hroom : required + extra + info * segmentSliceSize +
      guard * segmentSliceSize ≤ layout.segmentSlices * segmentSliceSize := by
    have hmore := @segmentCalculateSlices_room sizes (required + extra) b
      hsize (by omega)
    rw [segmentCalculateSlices_info b sizes _ required, ← hslices] at hmore
    exact hmore
  -- the memory is aligned behind the header
  have hroundLe : layout.alignOffset ≤ alignUp layout.alignOffset (2 ^ k) :=
    le_alignUp hk
  have hskipped : layout.skipped =
      alignUp layout.alignOffset (2 ^ k) - layout.alignOffset := rfl
  have hbase : segmentSize ∣ area.start + layout.skipped := by
    rw [hskipped]
    exact Nat.dvd_add (hlarge.trans hstart)
      (Nat.dvd_sub (hlarge.trans (dvd_alignUp _ _)) hoffsetDvd)
  have haligned : 2 ^ k ∣ area.start + layout.skipped +
      info * segmentSliceSize + extra + 0 := by
    rw [hskipped, show area.start + (alignUp layout.alignOffset (2 ^ k) -
      layout.alignOffset) + info * segmentSliceSize + extra + 0 =
        area.start + alignUp layout.alignOffset (2 ^ k) by omega]
    exact Nat.dvd_add hstart (dvd_alignUp _ _)
  have hmul : (area.start + layout.skipped) / segmentSize * segmentSize =
      area.start + layout.skipped := Nat.div_mul_cancel hbase
  set segment := (area.start + layout.skipped) / segmentSize with hsegmentDef
  set n := layout.segmentSlices - info - guard with hn
  have hnroom : required + extra ≤ n * segmentSliceSize := by
    unfold segmentSliceSize at hroom ⊢
    omega
  have hcount : 0 < n := by
    by_contra hzero
    rw [Nat.eq_zero_of_not_pos hzero, Nat.zero_mul] at hnroom
    omega
  have hpage : segmentHugePageAlloc b sizes required (2 ^ k) area =
      blockPageInit area.addr segment info n (n * segmentSliceSize) true
        area.isZeroInit area.keys := by
    have hpsize := congrArg Prod.snd (segmentPageStart_slices segment info n)
    unfold segmentHugePageAlloc
    dsimp only
    rw [← hlayout, ← hsegmentDef]
    exact congrArg (fun psize => blockPageInit area.addr segment info n psize
      true area.isZeroInit area.keys) hpsize
  have hstart' : (blockPageInit area.addr segment info n
      (n * segmentSliceSize) true area.isZeroInit area.keys).pageStart =
      area.start + layout.skipped + info * segmentSliceSize := by
    unfold blockPageInit
    rw [segmentPageStart_slices, hmul]
  have hslice : (blockPageInit area.addr segment info n
      (n * segmentSliceSize) true area.isZeroInit area.keys).sliceStart =
      area.start + layout.skipped + info * segmentSliceSize := by
    unfold BlockPage.sliceStart blockPageInit
    dsimp only
    rw [hmul]
  rw [hpage]
  have hadjust : alignAdjust (area.start + layout.skipped +
      info * segmentSliceSize) (2 ^ k) 0 = extra := by
    apply alignAdjust_unique _ haligned
    have hle := Nat.le_of_dvd hk hlarge
    omega
  refine ⟨?_, rfl, ?_, ?_, ?_, ?_, ?_⟩
  · apply blockPageInit_ok hcount (by omega)
    · exact Dvd.dvd.mul_left (by decide) _
    · intro hhuge
      exact nomatch hhuge
  · unfold blockPageInit
    rw [segmentPageStart_slices]
    dsimp only
    rw [Nat.div_self (by omega)]
  · exact blockPageInit_whole (by omega)
  · rw [hslice]
    omega
  · unfold BlockPage.sliceEnd
    rw [hslice]
    have hcount : (blockPageInit area.addr segment info n
        (n * segmentSliceSize) true area.isZeroInit area.keys).sliceCount =
        n := rfl
    have hfits : n * segmentSliceSize + info * segmentSliceSize ≤
        layout.segmentSlices * segmentSliceSize := by
      rw [← Nat.add_mul]
      apply Nat.mul_le_mul_right
      unfold segmentSliceSize at hroom
      omega
    rw [hcount, ← hlayout]
    omega
  · rw [hstart', hadjust]
    exact hnroom

end Huge

end Palloc
