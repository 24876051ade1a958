import Palloc.PageShape

/-!
# The size cap of a heap

A heap can have a cap on the bytes that it gives out.  The small and the
generic allocation compare the size of a request with `max_size - used_bytes`,
but the counter grows by the size of the block, the difference wraps once the
cap is passed, and two ways to get memory do not look at the cap: the free
block of a small page that happens to be aligned, and a reallocation in place.

A block is known by the usable size of its page.  The size class of a request
and the pages of the heap before it say which blocks can serve it.
-/

namespace Palloc

open BlockHeap

structure HeapBudget where
  maxSize : BitVec 64
  usedBytes : BitVec 64
  deriving Repr, DecidableEq

structure HeapPages where
  /-- The first free block of the page in `pages_free_direct`. -/
  smallFree : (size : BitVec 64) → Option (ℕ × BitVec 64)
  /-- `cache_head`, where `cache_count` is not zero. -/
  cacheHead : (bin : ℕ) → Option (BitVec 64)
  /-- The blocks of a page that was extended are larger than its queue says. -/
  queue : (bin : ℕ) → List (BitVec 64)
  genericCount : ℕ

/-- What is decided during a request: the blocks that are freed before the two
searches for a page, and the pages that these find. -/
structure PageAnswers where
  tasks : List (BitVec 64)
  found : (size : BitVec 64) → (hugeAlignment : ℕ) → Option (BitVec 64)
  collected : List (BitVec 64)
  foundAgain : (size : BitVec 64) → (hugeAlignment : ℕ) → Option (BitVec 64)

/-- `pa_heap_set_max_size`. -/
def HeapBudget.setMaxSize (heap : HeapBudget) (maxBytes : BitVec 64) :
    HeapBudget :=
  { heap with maxSize := maxBytes }

def HeapBudget.rejects (heap : HeapBudget) (size : BitVec 64) : Bool :=
  heap.maxSize ≠ 0 ∧ heap.maxSize - heap.usedBytes < size

/-- `_pa_page_finish_alloc`. -/
def HeapBudget.finishAlloc (heap : HeapBudget) (usable : BitVec 64) :
    HeapBudget :=
  { heap with usedBytes := heap.usedBytes + usable }

/-- `pa_free_block_local`. -/
def HeapBudget.freeBlockLocal (heap : HeapBudget) (usable : BitVec 64) :
    HeapBudget :=
  { heap with
    usedBytes :=
      if usable ≤ heap.usedBytes then heap.usedBytes - usable else 0 }

def HeapBudget.freeBlocks (heap : HeapBudget) (blocks : List (BitVec 64)) :
    HeapBudget :=
  blocks.foldl HeapBudget.freeBlockLocal heap

/-! ## Allocation -/

section Allocation

variable (b : BlockBuild) (sizes : SegmentSizes) (pages : HeapPages)
variable (answers : PageAnswers) (heap : HeapBudget)

/-- The usable sizes of the pages that `pa_find_page` can return; the padding
can have made the size wrap. -/
def findSizes (size : BitVec 64) (hugeAlignment : ℕ) : List (BitVec 64) :=
  if size.toNat < b.paddingSize then []
  else
    (findPageShape b sizes size.toNat hugeAlignment).toList.map
        (fun shape => BitVec.ofNat 64 (shape.blockSize - b.paddingSize)) ++
      if size.toNat ≤ mediumObjSizeMax ∧ hugeAlignment = 0 then
        pages.queue (bin size.toNat)
      else []

/-- `use_cache` of `_pa_malloc_generic`. -/
def useCache (size hugeAlignment : ℕ) (zero : Bool) : Bool :=
  hugeAlignment = 0 ∧ size ≤ mediumObjSizeMax + b.paddingSize ∧
    (zero = false ∨ size ≤ 2048 + b.paddingSize)

def HeapPages.cached (size hugeAlignment : ℕ) (zero : Bool) :
    Option (BitVec 64) :=
  if useCache b size hugeAlignment zero ∧ bin size < binHuge then
    pages.cacheHead (bin size)
  else none

/-- `_pa_malloc_generic`, on a heap that is initialized. -/
def capMallocGeneric (size : BitVec 64) (zero : Bool) (hugeAlignment : ℕ) :
    Option (BitVec 64) × HeapBudget :=
  if heap.rejects size then (none, heap)
  else
    match pages.cached b size.toNat hugeAlignment zero with
    | some usable => (some usable, heap.finishAlloc usable)
    | none =>
        let heap :=
          if 100 ≤ pages.genericCount + 1 then heap.freeBlocks answers.tasks
          else heap
        match answers.found size hugeAlignment with
        | some usable => (some usable, heap.finishAlloc usable)
        | none =>
            let heap := heap.freeBlocks answers.collected
            match answers.foundAgain size hugeAlignment with
            | some usable => (some usable, heap.finishAlloc usable)
            | none => (none, heap)

/-- The size that `pa_heap_malloc_small_zero` looks for. -/
def smallRequest (size : ℕ) : BitVec 64 :=
  BitVec.ofNat 64
    ((if b.padding ∧ size = 0 then intptrSize else size) + b.paddingSize)

/-- `pa_heap_malloc_small_zero`. -/
def capMallocSmall (size : ℕ) (zero : Bool) :
    Option (BitVec 64) × HeapBudget :=
  if heap.rejects (smallRequest b size) then (none, heap)
  else
    match pages.smallFree (smallRequest b size) with
    | some block => (some block.2, heap.finishAlloc block.2)
    | none => capMallocGeneric b pages answers heap (smallRequest b size) zero 0

/-- `_pa_heap_malloc_zero_ex`. -/
def capMallocZeroEx (size : ℕ) (zero : Bool) (hugeAlignment : ℕ) :
    Option (BitVec 64) × HeapBudget :=
  if size ≤ smallSizeMax then capMallocSmall b pages answers heap size zero
  else
    capMallocGeneric b pages answers heap
      (BitVec.ofNat 64 (size + b.paddingSize)) zero hugeAlignment

/-- `pa_heap_malloc_zero_aligned_at_overalloc`. -/
def capMallocAlignedOveralloc (size alignment offset : ℕ) (zero : Bool) :
    Option (BitVec 64) × HeapBudget :=
  if blockAlignmentMax < alignment then
    if offset ≠ 0 then (none, heap)
    else
      capMallocZeroEx b pages answers heap (oversize size alignment) false
        alignment
  else
    capMallocZeroEx b pages answers heap (oversize size alignment) zero 0

/-- `pa_heap_malloc_zero_aligned_at_generic`; a block of a size that is
naturally aligned is aligned. -/
def capMallocAlignedGeneric (size alignment offset : ℕ) (zero : Bool) :
    Option (BitVec 64) × HeapBudget :=
  if maxAllocSize - b.paddingSize < size then (none, heap)
  else if offset = 0 ∧ mallocIsNaturallyAligned b sizes size alignment then
    capMallocZeroEx b pages answers heap size zero 0
  else
    capMallocAlignedOveralloc b pages answers heap size alignment offset zero

/-- The free block that an aligned allocation takes from a small page. -/
def alignedFree (size alignment offset : ℕ) : Option (BitVec 64) :=
  if size ≤ smallSizeMax ∧ alignment ≤ size then
    match pages.smallFree (BitVec.ofNat 64 (size + b.paddingSize)) with
    | some block =>
        if (block.1 + offset) % alignment = 0 then some block.2 else none
    | none => none
  else none

/-- `pa_heap_malloc_zero_aligned_at`. -/
def capMallocAlignedAt (size alignment offset : ℕ) (zero : Bool) :
    Option (BitVec 64) × HeapBudget :=
  if alignment = 0 ∨ ¬isPowerOfTwo alignment then (none, heap)
  else
    match alignedFree b pages size alignment offset with
    | some usable => (some usable, heap.finishAlloc usable)
    | none =>
        capMallocAlignedGeneric b sizes pages answers heap size alignment
          offset zero

/-- A block that is reallocated: the pointer, its usable size from there on,
the usable size and the slices of its page, whether a free span follows that
is long enough, whether that span is committed, and whether the page belongs to
this heap. -/
structure OldBlock where
  ptr : ℕ
  size : ℕ
  usable : BitVec 64
  sliceCount : ℕ
  extendable : Bool
  committed : Bool
  ofHeap : Bool

/-- `_pa_heap_realloc_zero` tries to extend the page. -/
def OldBlock.Extends (old : OldBlock) (newsize : ℕ) : Prop :=
  old.size < newsize ∧ newsize ≤ largeObjSizeMax ∧ 1 < old.sliceCount ∧
    old.sliceCount < sizeSlices newsize ∧ old.extendable = true

instance (old : OldBlock) (newsize : ℕ) : Decidable (old.Extends newsize) :=
  inferInstanceAs (Decidable (_ ∧ _))

/-- `pa_free` of the block by the thread of the heap. -/
def OldBlock.free (old : OldBlock) (heap : HeapBudget) : HeapBudget :=
  if old.ofHeap then heap.freeBlockLocal old.usable else heap

def OldBlock.moved (old : OldBlock)
    (result : Option (BitVec 64) × HeapBudget) :
    Option (BitVec 64) × HeapBudget :=
  match result with
  | (some usable, heap) => (some usable, old.free heap)
  | (none, heap) => (none, heap)

/-- `_pa_heap_realloc_zero`; the null pointer has no old block, and `commits`
says whether the OS commits the memory of an extension. -/
def capRealloc (commits : Bool) (old : Option OldBlock) (newsize : ℕ) :
    Option (BitVec 64) × HeapBudget :=
  match old with
  | none => capMallocZeroEx b pages answers heap newsize false 0
  | some old =>
      if ReallocFits old.size newsize then (some old.usable, heap)
      else if old.Extends newsize ∧ (old.committed ∨ commits) then
        (some old.usable, heap)
      else
        old.moved (capMallocZeroEx b pages answers heap newsize false 0)

/-- `pa_heap_realloc_zero_aligned_at`. -/
def capReallocAlignedAt (commits : Bool) (old : Option OldBlock)
    (newsize alignment offset : ℕ) (zero : Bool) :
    Option (BitVec 64) × HeapBudget :=
  if alignment ≤ intptrSize then
    capRealloc b pages answers heap commits old newsize
  else
    match old with
    | none =>
        capMallocAlignedAt b sizes pages answers heap newsize alignment offset
          zero
    | some old =>
        if ReallocAlignedFits old.ptr old.size newsize alignment offset then
          (some old.usable, heap)
        else
          old.moved (capMallocAlignedAt b sizes pages answers heap newsize
            alignment offset false)

end Allocation

/-- The entries of the allocator.  A guarded allocation is a generic one of a
larger size. -/
inductive CapRequest where
  | malloc (size : ℕ) (zero : Bool)
  | mallocGeneric (size : BitVec 64) (zero : Bool) (hugeAlignment : ℕ)
  | mallocAlignedAt (size alignment offset : ℕ) (zero : Bool)
  | realloc (old : Option OldBlock) (newsize : ℕ)
  | reallocAlignedAt (old : Option OldBlock) (newsize alignment offset : ℕ)
      (zero : Bool)

section Requests

variable (b : BlockBuild) (sizes : SegmentSizes) (pages : HeapPages)

/-- A search returns a page for the size, and none when the OS refuses. -/
def PageAnswers.Of (answers : PageAnswers) : Prop :=
  ∀ size hugeAlignment usable,
    answers.found size hugeAlignment = some usable ∨
        answers.foundAgain size hugeAlignment = some usable →
      usable ∈ findSizes b sizes pages size hugeAlignment

def CapRequest.run (answers : PageAnswers) (commits : Bool)
    (heap : HeapBudget) : CapRequest → Option (BitVec 64) × HeapBudget
  | .malloc size zero => capMallocZeroEx b pages answers heap size zero 0
  | .mallocGeneric size zero hugeAlignment =>
      capMallocGeneric b pages answers heap size zero hugeAlignment
  | .mallocAlignedAt size alignment offset zero =>
      capMallocAlignedAt b sizes pages answers heap size alignment offset zero
  | .realloc old newsize =>
      capRealloc b pages answers heap commits old newsize
  | .reallocAlignedAt old newsize alignment offset zero =>
      capReallocAlignedAt b sizes pages answers heap commits old newsize
        alignment offset zero

/-- A request that succeeds stays below the cap, and none succeeds once it is
reached. -/
def Capped (heap : HeapBudget) (result : Option (BitVec 64) × HeapBudget) :
    Prop :=
  (result.1 ≠ none → result.2.usedBytes ≤ result.2.maxSize) ∧
    (heap.maxSize ≤ heap.usedBytes → result.1 = none)

/-- A request keeps the cap, whatever is freed and found on its way. -/
def CapRequest.KeepsCap (heap : HeapBudget) (request : CapRequest) : Prop :=
  heap.maxSize ≠ 0 →
    ∀ answers commits, PageAnswers.Of b sizes pages answers →
      Capped heap (request.run b sizes pages answers commits heap)

end Requests

/-! ## The condition on the heap before a request -/

/-- The way of a request to its memory: none, a free block that is taken
without a check, or a check and then a block of the small page, of the thread
cache or of a page that is searched. -/
inductive CapWay where
  | refused
  | unchecked (usable : BitVec 64)
  | checked (small : Bool) (size : BitVec 64) (zero : Bool)
      (hugeAlignment : ℕ)

section Condition

variable (b : BlockBuild) (sizes : SegmentSizes) (pages : HeapPages)
variable (heap : HeapBudget)

def mallocWay (size : ℕ) (zero : Bool) (hugeAlignment : ℕ) : CapWay :=
  if size ≤ smallSizeMax then .checked true (smallRequest b size) zero 0
  else .checked false (BitVec.ofNat 64 (size + b.paddingSize)) zero
    hugeAlignment

def alignedWay (size alignment offset : ℕ) (zero : Bool) : CapWay :=
  if alignment = 0 ∨ ¬isPowerOfTwo alignment then .refused
  else
    match alignedFree b pages size alignment offset with
    | some usable => .unchecked usable
    | none =>
        if maxAllocSize - b.paddingSize < size then .refused
        else if offset = 0 ∧ mallocIsNaturallyAligned b sizes size alignment
        then mallocWay b size zero 0
        else if blockAlignmentMax < alignment then
          if offset ≠ 0 then .refused
          else mallocWay b (oversize size alignment) false alignment
        else mallocWay b (oversize size alignment) zero 0

def HeapPages.ready (small : Bool) (size : BitVec 64) (zero : Bool)
    (hugeAlignment : ℕ) : Option (BitVec 64) :=
  match (if small then pages.smallFree size else none) with
  | some block => some block.2
  | none => pages.cached b size.toNat hugeAlignment zero

/-- The cap is not reached, and a block fits below it when `freed` bytes are
given back for it. -/
def HeapBudget.Fits (freed usable : BitVec 64) : Prop :=
  heap.usedBytes < heap.maxSize ∧
    (heap.usedBytes + usable).toNat - freed.toNat ≤ heap.maxSize.toNat

/-- The same for a block that is searched.  The tasks before the search can
have freed any number of bytes, and the sum does not wrap then. -/
def HeapBudget.FitsSearched (freed usable : BitVec 64) : Prop :=
  heap.usedBytes < heap.maxSize ∧
    min (heap.usedBytes.toNat + usable.toNat) (2 ^ 64 - 1) - freed.toNat ≤
      heap.maxSize.toNat

/-- The block at hand, or every block of the size class, fits below the cap. -/
def CapWay.Met (freed : BitVec 64) : CapWay → Prop
  | .refused => True
  | .unchecked usable => heap.Fits freed usable
  | .checked small size zero hugeAlignment =>
      heap.rejects size = true ∨
        match pages.ready b small size zero hugeAlignment with
        | some usable => heap.Fits freed usable
        | none =>
            ∀ usable ∈ findSizes b sizes pages size hugeAlignment,
              heap.FitsSearched freed usable

/-- The bytes that the free of a block takes off the counter. -/
def OldBlock.freed (old : OldBlock) : BitVec 64 :=
  if old.ofHeap then old.usable else 0

/-- The cap is not reached where a reallocation stays in place. -/
def ReallocMet (old : Option OldBlock) (newsize : ℕ) : Prop :=
  match old with
  | none => (mallocWay b newsize false 0).Met b sizes pages heap 0
  | some old =>
      if ReallocFits old.size newsize then heap.usedBytes < heap.maxSize
      else
        (old.Extends newsize → heap.usedBytes < heap.maxSize) ∧
          (¬(old.Extends newsize ∧ old.committed = true) →
            (mallocWay b newsize false 0).Met b sizes pages heap old.freed)

def CapRequest.Met : CapRequest → Prop
  | .malloc size zero => (mallocWay b size zero 0).Met b sizes pages heap 0
  | .mallocGeneric size zero hugeAlignment =>
      (CapWay.checked false size zero hugeAlignment).Met b sizes pages heap 0
  | .mallocAlignedAt size alignment offset zero =>
      (alignedWay b sizes pages size alignment offset zero).Met b sizes pages
        heap 0
  | .realloc old newsize => ReallocMet b sizes pages heap old newsize
  | .reallocAlignedAt old newsize alignment offset zero =>
      if alignment ≤ intptrSize then
        ReallocMet b sizes pages heap old newsize
      else
        match old with
        | none =>
            (alignedWay b sizes pages newsize alignment offset zero).Met b
              sizes pages heap 0
        | some old =>
            if ReallocAlignedFits old.ptr old.size newsize alignment offset
            then heap.usedBytes < heap.maxSize
            else
              (alignedWay b sizes pages newsize alignment offset false).Met b
                sizes pages heap old.freed

end Condition

/-! ## The counter -/

section Counter

variable {heap : HeapBudget}

@[simp] theorem HeapBudget.freeBlockLocal_maxSize (usable : BitVec 64) :
    (heap.freeBlockLocal usable).maxSize = heap.maxSize :=
  rfl

@[simp] theorem HeapBudget.finishAlloc_maxSize (usable : BitVec 64) :
    (heap.finishAlloc usable).maxSize = heap.maxSize :=
  rfl

theorem HeapBudget.freeBlockLocal_usedBytes (heap : HeapBudget)
    (usable : BitVec 64) :
    (heap.freeBlockLocal usable).usedBytes.toNat =
      heap.usedBytes.toNat - usable.toNat := by
  unfold HeapBudget.freeBlockLocal
  dsimp only
  split
  · rename_i hle
    rw [BitVec.toNat_sub_of_le hle]
  · rename_i hnot
    rw [BitVec.le_def] at hnot
    exact (Nat.sub_eq_zero_of_le (not_le.mp hnot).le).symm

theorem HeapBudget.freeBlocks_le (heap : HeapBudget)
    (blocks : List (BitVec 64)) :
    (heap.freeBlocks blocks).maxSize = heap.maxSize ∧
      (heap.freeBlocks blocks).usedBytes.toNat ≤ heap.usedBytes.toNat := by
  induction blocks generalizing heap with
  | nil => exact ⟨rfl, le_rfl⟩
  | cons block blocks ih =>
      have hrest := ih (heap.freeBlockLocal block)
      have hblock := heap.freeBlockLocal_usedBytes block
      refine ⟨hrest.1, hrest.2.trans ?_⟩
      omega

def lowered (freed : BitVec 64) (result : Option (BitVec 64) × HeapBudget) :
    Option (BitVec 64) × HeapBudget :=
  match result with
  | (some usable, heap) => (some usable, heap.freeBlockLocal freed)
  | (none, heap) => (none, heap)

@[simp] theorem HeapBudget.freeBlockLocal_zero :
    heap.freeBlockLocal 0#64 = heap := by
  obtain ⟨maxSize, usedBytes⟩ := heap
  simp [HeapBudget.freeBlockLocal]

theorem lowered_zero (result : Option (BitVec 64) × HeapBudget) :
    lowered 0 result = result := by
  obtain ⟨usable | usable, heap⟩ := result
  · rfl
  · simp [lowered]

theorem OldBlock.moved_eq (old : OldBlock)
    (result : Option (BitVec 64) × HeapBudget) :
    old.moved result = lowered old.freed result := by
  obtain ⟨usable | usable, heap⟩ := result
  · rfl
  · unfold OldBlock.moved lowered OldBlock.free OldBlock.freed
    cases old.ofHeap with
    | true => rfl
    | false => simp

theorem capped_none (heap' : HeapBudget) : Capped heap (none, heap') := by
  simp [Capped]

theorem capped_some (usable : BitVec 64) (heap' : HeapBudget) :
    Capped heap (some usable, heap') ↔
      heap.usedBytes < heap.maxSize ∧ heap'.usedBytes ≤ heap'.maxSize := by
  simp [Capped, BitVec.not_le, and_comm]

theorem inPlace_capped (usable : BitVec 64) :
    Capped heap (some usable, heap) ↔ heap.usedBytes < heap.maxSize := by
  rw [capped_some]
  exact and_iff_left_of_imp BitVec.le_of_lt

theorem capped_lowered (freed usable : BitVec 64) (heap' : HeapBudget) :
    Capped heap (lowered freed (some usable, heap'.finishAlloc usable)) ↔
      heap.usedBytes < heap.maxSize ∧
        (heap'.usedBytes + usable).toNat - freed.toNat ≤
          heap'.maxSize.toNat := by
  refine (capped_some usable _).trans (and_congr_right fun _ => ?_)
  rw [BitVec.le_def, HeapBudget.freeBlockLocal_usedBytes]
  rfl

/-- The counter is largest when the tasks free nothing, unless the sum would
wrap then: it is as large as it can be when they free just what is needed. -/
theorem fitsSearched_iff (freed usable : BitVec 64) :
    heap.FitsSearched freed usable ↔
      ∀ blocks, Capped heap (lowered freed
        (some usable, (heap.freeBlocks blocks).finishAlloc usable)) := by
  constructor
  · rintro ⟨hlt, hfits⟩ blocks
    have hblocks := heap.freeBlocks_le blocks
    rw [capped_lowered, hblocks.1, BitVec.toNat_add]
    refine ⟨hlt, ?_⟩
    omega
  · intro hcapped
    let excess := heap.usedBytes.toNat + usable.toNat - (2 ^ 64 - 1)
    have hexcess : (BitVec.ofNat 64 excess).toNat = excess := by
      rw [BitVec.toNat_ofNat]
      exact Nat.mod_eq_of_lt (by omega)
    have hused :=
      heap.freeBlockLocal_usedBytes (BitVec.ofNat 64 excess)
    have hblock := hcapped [BitVec.ofNat 64 excess]
    rw [capped_lowered] at hblock
    refine ⟨hblock.1, ?_⟩
    have hfits := hblock.2
    rw [BitVec.toNat_add, (heap.freeBlocks_le _).1] at hfits
    change ((heap.freeBlockLocal _).usedBytes.toNat + usable.toNat) % 2 ^ 64 -
      freed.toNat ≤ heap.maxSize.toNat at hfits
    rw [hused, hexcess] at hfits
    omega

end Counter

/-! ## A heap keeps its cap -/

section Keeps

variable {b : BlockBuild} {sizes : SegmentSizes} {pages : HeapPages}
variable {heap : HeapBudget}

/-- The answers of a search that frees `blocks` and then finds `usable`. -/
def PageAnswers.finding (blocks : List (BitVec 64)) (size : BitVec 64)
    (hugeAlignment : ℕ) (usable : Option (BitVec 64)) : PageAnswers where
  tasks := []
  found _ _ := none
  collected := blocks
  foundAgain size' hugeAlignment' :=
    if size' = size ∧ hugeAlignment' = hugeAlignment then usable else none

theorem PageAnswers.finding_of {size : BitVec 64} {hugeAlignment : ℕ}
    {found : Option (BitVec 64)} (blocks : List (BitVec 64))
    (hfound : ∀ usable, found = some usable →
      usable ∈ findSizes b sizes pages size hugeAlignment) :
    (PageAnswers.finding blocks size hugeAlignment found).Of b sizes
      pages := by
  rintro size' hugeAlignment' usable (hfirst | hagain)
  · cases hfirst
  · unfold PageAnswers.finding at hagain
    dsimp only at hagain
    split at hagain
    · rename_i hsame
      rw [hsame.1, hsame.2]
      exact hfound usable hagain
    · cases hagain

theorem forall_answers_iff {p : Prop} :
    (∀ answers, PageAnswers.Of b sizes pages answers → p) ↔ p := by
  constructor
  · intro hall
    refine hall (PageAnswers.finding [] 0 0 none)
      (PageAnswers.finding_of [] fun usable h => ?_)
    cases h
  · intro hp _ _
    exact hp

section Generic

variable {size : BitVec 64} {zero : Bool} {hugeAlignment : ℕ}

/-- A search returns a block of the size class, after what was freed. -/
theorem capMallocGeneric_cases {answers : PageAnswers}
    (hanswers : answers.Of b sizes pages) (hpass : heap.rejects size = false)
    (hcached : pages.cached b size.toNat hugeAlignment zero = none) :
    (∃ heap', capMallocGeneric b pages answers heap size zero
      hugeAlignment = (none, heap')) ∨
    ∃ usable ∈ findSizes b sizes pages size hugeAlignment, ∃ blocks,
      capMallocGeneric b pages answers heap size zero hugeAlignment =
        (some usable, (heap.freeBlocks blocks).finishAlloc usable) := by
  have htasks : ∃ blocks, heap.freeBlocks blocks =
      if 100 ≤ pages.genericCount + 1 then heap.freeBlocks answers.tasks
      else heap := by
    split
    · exact ⟨answers.tasks, rfl⟩
    · exact ⟨[], rfl⟩
  obtain ⟨blocks, htasks⟩ := htasks
  unfold capMallocGeneric
  rw [hpass, hcached, ← htasks]
  dsimp only
  cases hfound : answers.found size hugeAlignment with
  | some usable =>
      right
      exact ⟨usable, hanswers _ _ _ (Or.inl hfound), blocks, rfl⟩
  | none =>
      cases hagain : answers.foundAgain size hugeAlignment with
      | some usable =>
          right
          refine ⟨usable, hanswers _ _ _ (Or.inr hagain),
            blocks ++ answers.collected, ?_⟩
          simp [HeapBudget.freeBlocks]
      | none =>
          left
          exact ⟨_, rfl⟩

theorem capMallocGeneric_finding {usable : BitVec 64}
    (blocks : List (BitVec 64)) (hpass : heap.rejects size = false)
    (hcached : pages.cached b size.toNat hugeAlignment zero = none) :
    capMallocGeneric b pages
        (PageAnswers.finding blocks size hugeAlignment (some usable)) heap size
        zero hugeAlignment =
      (some usable, (heap.freeBlocks blocks).finishAlloc usable) := by
  simp [capMallocGeneric, PageAnswers.finding, hpass, hcached,
    HeapBudget.freeBlocks]

end Generic

variable (b sizes pages heap)

theorem capMallocGeneric_capped (size : BitVec 64) (zero : Bool)
    (hugeAlignment : ℕ) (freed : BitVec 64) :
    (∀ answers, PageAnswers.Of b sizes pages answers →
      Capped heap (lowered freed (capMallocGeneric b pages answers heap size
        zero hugeAlignment))) ↔
      (CapWay.checked false size zero hugeAlignment).Met b sizes pages heap
        freed := by
  simp only [CapWay.Met, HeapPages.ready, Bool.false_eq_true, if_false]
  cases hrejects : heap.rejects size with
  | true =>
      refine iff_of_true (fun answers _ => ?_) (Or.inl rfl)
      simp only [capMallocGeneric, hrejects, if_true]
      exact capped_none heap
  | false =>
      simp only [Bool.false_eq_true, false_or]
      cases hcached : pages.cached b size.toNat hugeAlignment zero with
      | some usable =>
          simp only [capMallocGeneric, hrejects, hcached, Bool.false_eq_true,
            if_false]
          exact forall_answers_iff.trans (capped_lowered freed usable heap)
      | none =>
          constructor
          · intro hall usable husable
            refine (fitsSearched_iff freed usable).mpr fun blocks => ?_
            rw [← capMallocGeneric_finding blocks hrejects hcached]
            refine hall _ (PageAnswers.finding_of blocks fun usable' h => ?_)
            cases h
            exact husable
          · intro hmet answers hanswers
            rcases capMallocGeneric_cases hanswers hrejects hcached with
              ⟨heap', hnone⟩ | ⟨usable, husable, blocks, hsome⟩
            · rw [hnone]
              exact capped_none heap'
            · rw [hsome]
              exact (fitsSearched_iff freed usable).mp (hmet usable husable)
                blocks

theorem capMallocSmall_capped (size : ℕ) (zero : Bool) (freed : BitVec 64) :
    (∀ answers, PageAnswers.Of b sizes pages answers →
      Capped heap (lowered freed
        (capMallocSmall b pages answers heap size zero))) ↔
      (CapWay.checked true (smallRequest b size) zero 0).Met b sizes pages
        heap freed := by
  cases hrejects : heap.rejects (smallRequest b size) with
  | true =>
      refine iff_of_true (fun answers _ => ?_) (Or.inl hrejects)
      simp only [capMallocSmall, hrejects, if_true]
      exact capped_none heap
  | false =>
      cases hfree : pages.smallFree (smallRequest b size) with
      | some block =>
          simp only [capMallocSmall, CapWay.Met, HeapPages.ready, hrejects,
            hfree, Bool.false_eq_true, if_false, if_true, false_or]
          exact forall_answers_iff.trans (capped_lowered freed block.2 heap)
      | none =>
          -- the generic allocation checks the same size again
          have hgeneric := capMallocGeneric_capped b sizes pages heap
            (smallRequest b size) zero 0 freed
          simpa [capMallocSmall, CapWay.Met, HeapPages.ready, hrejects, hfree]
            using hgeneric

theorem mallocWay_capped (size : ℕ) (zero : Bool) (hugeAlignment : ℕ)
    (freed : BitVec 64) :
    (∀ answers, PageAnswers.Of b sizes pages answers →
      Capped heap (lowered freed
        (capMallocZeroEx b pages answers heap size zero hugeAlignment))) ↔
      (mallocWay b size zero hugeAlignment).Met b sizes pages heap freed := by
  unfold capMallocZeroEx mallocWay
  by_cases hsmall : size ≤ smallSizeMax
  · simp only [if_pos hsmall]
    exact capMallocSmall_capped b sizes pages heap size zero freed
  · simp only [if_neg hsmall]
    exact capMallocGeneric_capped b sizes pages heap _ zero hugeAlignment freed

theorem refusedWay_capped (freed : BitVec 64) :
    (∀ answers, PageAnswers.Of b sizes pages answers →
      Capped heap (lowered freed (none, heap))) ↔
      CapWay.refused.Met b sizes pages heap freed :=
  iff_of_true (fun _ _ => capped_none heap) trivial

theorem alignedWay_capped (size alignment offset : ℕ) (zero : Bool)
    (freed : BitVec 64) :
    (∀ answers, PageAnswers.Of b sizes pages answers →
      Capped heap (lowered freed (capMallocAlignedAt b sizes pages answers heap
        size alignment offset zero))) ↔
      (alignedWay b sizes pages size alignment offset zero).Met b sizes pages
        heap freed := by
  unfold capMallocAlignedAt alignedWay capMallocAlignedGeneric
    capMallocAlignedOveralloc
  by_cases hinvalid : alignment = 0 ∨ ¬isPowerOfTwo alignment
  · simp only [if_pos hinvalid]
    exact refusedWay_capped b sizes pages heap freed
  simp only [if_neg hinvalid]
  cases alignedFree b pages size alignment offset with
  | some usable =>
      exact forall_answers_iff.trans (capped_lowered freed usable heap)
  | none =>
      dsimp only
      by_cases hlarge : maxAllocSize - b.paddingSize < size
      · simp only [if_pos hlarge]
        exact refusedWay_capped b sizes pages heap freed
      simp only [if_neg hlarge]
      by_cases hnatural :
          offset = 0 ∧ mallocIsNaturallyAligned b sizes size alignment
      · simp only [if_pos hnatural]
        exact mallocWay_capped b sizes pages heap size zero 0 freed
      simp only [if_neg hnatural]
      by_cases hhuge : blockAlignmentMax < alignment
      · simp only [if_pos hhuge]
        by_cases hoffset : offset ≠ 0
        · simp only [if_pos hoffset]
          exact refusedWay_capped b sizes pages heap freed
        · simp only [if_neg hoffset]
          exact mallocWay_capped b sizes pages heap (oversize size alignment)
            false alignment freed
      · simp only [if_neg hhuge]
        exact mallocWay_capped b sizes pages heap (oversize size alignment)
          zero 0 freed

theorem capRealloc_capped (old : Option OldBlock) (newsize : ℕ) :
    (∀ answers commits, PageAnswers.Of b sizes pages answers →
      Capped heap (capRealloc b pages answers heap commits old newsize)) ↔
      ReallocMet b sizes pages heap old newsize := by
  cases old with
  | none =>
      have hway := mallocWay_capped b sizes pages heap newsize false 0 0
      simp only [lowered_zero] at hway
      simpa only [capRealloc, ReallocMet, forall_const] using hway
  | some old =>
      have hway := mallocWay_capped b sizes pages heap newsize false 0
        old.freed
      unfold capRealloc ReallocMet
      dsimp only
      by_cases hfits : ReallocFits old.size newsize
      · simp only [if_pos hfits, inPlace_capped, forall_const]
        exact forall_answers_iff
      simp only [if_neg hfits, old.moved_eq]
      rw [← hway]
      constructor
      · intro hall
        constructor
        · intro hextends
          have hplace := fun answers => hall answers true
          simp only [hextends, or_true, and_self, if_true,
            inPlace_capped] at hplace
          exact forall_answers_iff.mp hplace
        · intro hnot answers hanswers
          have hcopied := hall answers false hanswers
          rw [if_neg (by simpa using hnot)] at hcopied
          exact hcopied
      · rintro ⟨hplace, hcopied⟩ answers commits hanswers
        split
        · rename_i hextends
          rw [inPlace_capped]
          exact hplace hextends.1
        · rename_i hextends
          refine hcopied (fun h => ?_) answers hanswers
          exact hextends (h.imp_right Or.inl)

theorem capReallocAlignedAt_capped (old : Option OldBlock)
    (newsize alignment offset : ℕ) (zero : Bool) :
    (∀ answers commits, PageAnswers.Of b sizes pages answers →
      Capped heap (capReallocAlignedAt b sizes pages answers heap commits old
        newsize alignment offset zero)) ↔
      (CapRequest.reallocAlignedAt old newsize alignment offset zero).Met b
        sizes pages heap := by
  unfold capReallocAlignedAt CapRequest.Met
  dsimp only
  by_cases hword : alignment ≤ intptrSize
  · simp only [if_pos hword]
    exact capRealloc_capped b sizes pages heap old newsize
  simp only [if_neg hword, forall_const]
  cases old with
  | none =>
      have hway := alignedWay_capped b sizes pages heap newsize alignment
        offset zero 0
      simpa only [lowered_zero] using hway
  | some old =>
      dsimp only
      by_cases hfits :
          ReallocAlignedFits old.ptr old.size newsize alignment offset
      · simp only [if_pos hfits, inPlace_capped]
        exact forall_answers_iff
      · simp only [if_neg hfits, old.moved_eq]
        exact alignedWay_capped b sizes pages heap newsize alignment offset
          false old.freed

end Keeps

def HeapPages.fresh : HeapPages where
  smallFree _ := none
  cacheHead _ := none
  queue _ := []
  genericCount := 0

end Palloc
