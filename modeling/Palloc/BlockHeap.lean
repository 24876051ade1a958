import Palloc.PageSlices

/-!
# Objects in the blocks of a heap

The state is the memory, the pages, the objects of the program and the blocks
that were freed by another thread and wait on the `thread_delayed_free` list
of a heap.  A step is one operation of the program on one object, one step of
the page layer, or anything that the other users of the memory do outside of
the blocks that are in use.

Which page and which free block an allocation gets is up to the page layer;
it is any block that is not in use, of a page that serves the request.  A
`realloc` that copies ends before its `pa_free`, which is a step of its own.

With `PA_DEBUG > 0` the allocator refuses an address that is not a multiple of
the word size: it has no usable bytes, and a free of it does nothing.
-/

namespace Palloc

open ByteMemory

/-! ## State -/

/-- An object of the program: the page and the block that it is in, its
address, and the size that was last asked for. -/
structure HeapObject where
  page : ℕ
  block : ℕ
  ptr : ℕ
  asked : ℕ
  deriving Repr, DecidableEq

structure BlockHeap where
  mem : Mem
  pages : ℕ → Option BlockPage
  live : List HeapObject
  /-- Blocks on the `thread_delayed_free` list of a heap. -/
  delayed : List (ℕ × ℕ)

def BlockHeap.start (mem : Mem) : BlockHeap where
  mem := mem
  pages := fun _ => none
  live := []
  delayed := []

def HeapObject.slot (o : HeapObject) : ℕ × ℕ := (o.page, o.block)

namespace BlockHeap

def slots (st : BlockHeap) : List (ℕ × ℕ) :=
  st.live.map HeapObject.slot ++ st.delayed

/-- The slices from `lo` up to `hi` are in no page other than `id`. -/
def Unused (st : BlockHeap) (id lo hi : ℕ) : Prop :=
  ∀ id' page, id' ≠ id → st.pages id' = some page →
    hi ≤ page.sliceStart ∨ page.sliceEnd ≤ lo

structure CanAlloc (st : BlockHeap) (id : ℕ) (page : BlockPage)
    (block size : ℕ) : Prop where
  hpage : st.pages id = some page
  hblock : ∃ i < page.reserved, block = page.blockAt i
  unused : (id, block) ∉ st.slots
  fits : size ≤ page.blockSize
  hbin : page.isHuge = false → size ≤ mediumObjSizeMax →
    bin page.blockSize = bin size
  /-- A large page, which may be extended, is handed out once only. -/
  whole : page.blockSizeShift ≠ 0 → page.blockSize = 2 ^ page.blockSizeShift

/-! ## Allocation -/

/-- The size of a request for `asked` bytes with the padding. -/
def requestSize (b : BlockBuild) (asked : ℕ) : ℕ :=
  (if b.padding ∧ asked = 0 then intptrSize else asked) + b.paddingSize

/-- `pa_malloc` and the other functions without alignment. -/
def malloc (b : BlockBuild) (st : BlockHeap) (id : ℕ) (page : BlockPage)
    (block asked : ℕ) (zero : Bool) : BlockHeap :=
  { st with
    mem := finishAlloc b st.mem page block (requestSize b asked) zero
    live := ⟨id, block, block, asked⟩ :: st.live }

def blockAlignmentMax : ℕ := segmentSize / 2

/-- The size that `pa_heap_malloc_zero_aligned_at_overalloc` asks for. -/
def oversize (size alignment : ℕ) : ℕ :=
  if blockAlignmentMax < alignment then
    if size ≤ smallSizeMax then smallSizeMax + 1 else size
  else (if size < maxAlignSize then maxAlignSize else size) + alignment - 1

/-- The distance from the block to the aligned address. -/
def alignAdjust (block alignment offset : ℕ) : ℕ :=
  let poffset := (block + offset) &&& (alignment - 1)
  if poffset = 0 then 0 else alignment - poffset

/-- The page layer can serve an over-aligned request: a very large alignment
is for the block itself, which is a huge page that reaches far enough. -/
def ReachesAligned (b : BlockBuild) (page : BlockPage)
    (block size alignment offset : ℕ) : Prop :=
  blockAlignmentMax < alignment → offset = 0 ∧ page.isHuge = true ∧
    alignAdjust block alignment offset + oversize size alignment ≤
      usableBlockSize b page

/-- `pa_heap_malloc_zero_aligned_at_overalloc`. -/
def mallocAligned (b : BlockBuild) (st : BlockHeap) (id : ℕ)
    (page : BlockPage) (block size alignment offset : ℕ) (zero : Bool) :
    BlockHeap :=
  let large := blockAlignmentMax < alignment
  let mem := finishAlloc b st.mem page block
    (requestSize b (oversize size alignment)) (zero && !decide large)
  let adjust := alignAdjust block alignment offset
  let alignedPtr := block + adjust
  let page' :=
    if adjust = 0 then page else { page with hasAligned := true }
  let mem :=
    if adjust = 0 then mem
    else paddingShrink b mem page block (adjust + size)
  let mem :=
    if large ∧ zero then
      fill mem alignedPtr (usableSize b mem page' alignedPtr) 0
    else mem
  { st with
    mem := mem
    pages := Function.update st.pages id (some page')
    live := ⟨id, block, alignedPtr, size⟩ :: st.live }

/-! ## Reallocation -/

/-- `realloc` returns the same address: at most a quarter is wasted. -/
def ReallocFits (size newsize : ℕ) : Prop :=
  newsize ≤ size ∧ 0 < newsize ∧ size - size >>> 2 ≤ newsize

/-- `pa_heap_realloc_zero_aligned_at` returns the same address: at most half
is wasted, and the address is aligned. -/
def ReallocAlignedFits (p size newsize alignment offset : ℕ) : Prop :=
  newsize ≤ size ∧ size - size / 2 ≤ newsize ∧ (p + offset) % alignment = 0

def sizeSlices (size : ℕ) : ℕ :=
  (size + segmentSliceSize - 1) / segmentSliceSize

/-- The slices that `realloc` asks `_pa_segment_try_extend_span` for. -/
def needSlices (page : BlockPage) (newsize : ℕ) : ℕ :=
  sizeSlices newsize - page.sliceCount

/-- `realloc` extends the page in place, when a free span of `next` slices
follows the page and `commit` tells whether its slices can be committed. -/
def ReallocExtends (page : BlockPage) (size newsize next : ℕ)
    (commit : Bool) : Prop :=
  size < newsize ∧ newsize ≤ largeObjSizeMax ∧ 1 < page.sliceCount ∧
    0 < needSlices page newsize ∧ needSlices page newsize ≤ next ∧
    commit = true

instance (size newsize : ℕ) : Decidable (ReallocFits size newsize) :=
  inferInstanceAs (Decidable (_ ∧ _))

instance (p size newsize alignment offset : ℕ) :
    Decidable (ReallocAlignedFits p size newsize alignment offset) :=
  inferInstanceAs (Decidable (_ ∧ _))

instance (page : BlockPage) (size newsize next : ℕ) (commit : Bool) :
    Decidable (ReallocExtends page size newsize next commit) :=
  inferInstanceAs (Decidable (_ ∧ _))

/-- The page after `_pa_segment_try_extend_span`. -/
def extendPage (page : BlockPage) (need : ℕ) : BlockPage :=
  { page with
    sliceCount := page.sliceCount + need
    blockSize := (page.sliceCount + need) * segmentSliceSize }

section ExtendPage

variable (page : BlockPage) (need : ℕ)

@[simp] theorem extendPage_sliceStart :
    (extendPage page need).sliceStart = page.sliceStart := by
  cases page
  rfl

@[simp] theorem extendPage_pageStart :
    (extendPage page need).pageStart = page.pageStart := by
  cases page
  rfl

@[simp] theorem extendPage_isHuge :
    (extendPage page need).isHuge = page.isHuge := by
  cases page
  rfl

@[simp] theorem extendPage_hasAligned :
    (extendPage page need).hasAligned = page.hasAligned := by
  cases page
  rfl

@[simp] theorem extendPage_reserved :
    (extendPage page need).reserved = page.reserved := by
  cases page
  rfl

@[simp] theorem extendPage_blockSizeShift :
    (extendPage page need).blockSizeShift = page.blockSizeShift := by
  cases page
  rfl

theorem extendPage_sliceCount :
    (extendPage page need).sliceCount = page.sliceCount + need := by
  cases page
  rfl

theorem extendPage_blockSize :
    (extendPage page need).blockSize =
      (page.sliceCount + need) * segmentSliceSize := by
  cases page
  rfl

end ExtendPage

/-- The object keeps its address and is asked for `newsize` bytes. -/
def reask (st : BlockHeap) (o : HeapObject) (newsize : ℕ) : BlockHeap :=
  { st with live := { o with asked := newsize } :: st.live.erase o }

/-- The in-place extension of `_pa_heap_realloc_zero`. -/
def reallocExtend (b : BlockBuild) (st : BlockHeap) (o : HeapObject)
    (page : BlockPage) (newsize : ℕ) (zero : Bool) : BlockHeap :=
  let size := usableSize b st.mem page o.ptr
  { st.reask o newsize with
    mem :=
      if zero then fill st.mem (o.ptr + size) (newsize - size) 0 else st.mem
    pages := Function.update st.pages o.page
      (some (extendPage page (needSlices page newsize))) }

/-- What `_pa_heap_realloc_zero` writes to the new block when the usable size
of the old one is `size`. -/
def reallocContent (mem : Mem) (newp p size newsize : ℕ) (zero : Bool) :
    Mem :=
  let mem :=
    if zero && decide (size < newsize) then
      fill mem (newp + size) (newsize - size) 0
    else if newsize = 0 then fill mem newp 1 0
    else mem
  copy mem newp p (min newsize size)

/-- The same for `pa_heap_realloc_zero_aligned_at`. -/
def reallocAlignedContent (mem : Mem) (newp p size newsize : ℕ)
    (zero : Bool) : Mem :=
  let mem :=
    if zero && decide (size < newsize) then
      let start := if intptrSize ≤ size then size - intptrSize else 0
      fill mem (newp + start) (newsize - start) 0
    else mem
  copy mem newp p (min newsize size)

/-! ## Free -/

/-- What `pa_free_block_local` stores in the block; `link` is the encoded
link. -/
def freedLocal (b : BlockBuild) (mem : Mem) (page : BlockPage)
    (block link : ℕ) : Mem :=
  let mem :=
    if b.debug && !page.isHuge then fill mem block page.blockSize debugFreed
    else mem
  store mem block 8 link

/-- What `pa_free_block_mt` does to the content of the block: a huge page is
reset, so that its bytes are then anything. -/
def FreedContent (b : BlockBuild) (page : BlockPage) (block : ℕ)
    (mem mem' : Mem) : Prop :=
  if page.isHuge then
    ChangesOnly (block + 8) (block + max 8 (usableSize b mem page block))
      mem mem'
  else if b.debug then
    mem' = fill mem block (usableSize b mem page block) debugFreed
  else mem' = mem

/-! ## Steps -/

inductive Event where
  | other
  | aligned (alignment offset : ℕ)
  | realloc (o : HeapObject) (newsize next : ℕ) (commit : Bool)
  deriving Repr, DecidableEq

/-- One operation; `check` says that addresses may be refused. -/
inductive Step (b : BlockBuild) (check : Bool) :
    BlockHeap → Event → BlockHeap → Prop
  | pageAlloc {st : BlockHeap} (id addr segment idx sliceCount blockSize : ℕ)
      (isHuge isZeroInit : Bool) (keys : FreeListKeys)
      (hid : st.pages id = none) (hcount : 0 < sliceCount)
      (hpos : 0 < blockSize) (hword : intptrSize ∣ blockSize)
      (hslices : isHuge = false → blockSize ≤ largeObjSizeMax ∧
        sliceCount = pageSlices blockSize)
      (hunused : st.Unused id (segment * segmentSize + idx * segmentSliceSize)
        (segment * segmentSize + idx * segmentSliceSize +
          sliceCount * segmentSliceSize)) :
      Step b check st .other
        { st with
          pages := Function.update st.pages id
            (some (blockPageInit addr segment idx sliceCount blockSize isHuge
              isZeroInit keys)) }
  | pageFree {st : BlockHeap} (id : ℕ) (hid : ∀ block, (id, block) ∉ st.slots) :
      Step b check st .other
        { st with pages := Function.update st.pages id none }
  /-- `_pa_page_retire` resets the flags of a page without objects. -/
  | pageRetire {st : BlockHeap} (id : ℕ) (page : BlockPage)
      (hid : ∀ block, (id, block) ∉ st.slots)
      (hpage : st.pages id = some page) :
      Step b check st .other
        { st with
          pages := Function.update st.pages id
            (some { page with hasAligned := false }) }
  /-- `_pa_page_free_collect`. -/
  | pageCollect {st : BlockHeap} (id : ℕ) (page : BlockPage)
      (hpage : st.pages id = some page) :
      Step b check st .other
        { st with
          pages := Function.update st.pages id
            (some { page with freeIsZero := false }) }
  /-- The allocator and other users write outside of the blocks in use, and
  the allocator to the link of a block on a list. -/
  | interfere {st : BlockHeap} (mem : Mem)
      (hlive : ∀ o ∈ st.live, ∀ page, st.pages o.page = some page →
        SameOn o.block (o.block + page.blockSize) st.mem mem)
      (hdelayed : ∀ d ∈ st.delayed, ∀ page, st.pages d.1 = some page →
        SameOn (d.2 + 8) (d.2 + page.blockSize) st.mem mem) :
      Step b check st .other { st with mem := mem }
  /-- The program writes to an object. -/
  | write {st : BlockHeap} (o : HeapObject) (mem : Mem) (ho : o ∈ st.live)
      (hmem : ChangesOnly o.ptr (o.ptr + o.asked) st.mem mem) :
      Step b check st .other { st with mem := mem }
  | malloc {st : BlockHeap} {id : ℕ} {page : BlockPage} {block : ℕ}
      (asked : ℕ) (zero : Bool)
      (hcan : st.CanAlloc id page block (requestSize b asked)) :
      Step b check st .other (malloc b st id page block asked zero)
  | mallocAligned {st : BlockHeap} {id : ℕ} {page : BlockPage} {block : ℕ}
      (size alignment offset : ℕ) (zero : Bool) (hpos : 0 < alignment)
      (hpow : isPowerOfTwo alignment)
      (hcan : st.CanAlloc id page block
        (requestSize b (oversize size alignment)))
      (hreach : ReachesAligned b page block size alignment offset) :
      Step b check st (.aligned alignment offset)
        (mallocAligned b st id page block size alignment offset zero)
  | reallocInPlace {st : BlockHeap} {page : BlockPage} (o : HeapObject)
      (newsize next : ℕ) (commit : Bool) (ho : o ∈ st.live)
      (hpage : st.pages o.page = some page)
      (hfits : ReallocFits (paUsableSize b check st.mem page o.ptr) newsize) :
      Step b check st (.realloc o newsize next commit) (st.reask o newsize)
  /-- A huge page takes the rest of its segment, so that nothing follows. -/
  | reallocExtend {st : BlockHeap} {page : BlockPage} (o : HeapObject)
      (newsize next : ℕ) (commit zero : Bool) (ho : o ∈ st.live)
      (hpage : st.pages o.page = some page) (hhuge : page.isHuge = false)
      (haccepted : ptrAccepted check o.ptr = true)
      (hextends : ReallocExtends page (paUsableSize b check st.mem page o.ptr)
        newsize next commit)
      (hunused : st.Unused o.page page.sliceEnd
        (page.sliceEnd + next * segmentSliceSize)) :
      Step b check st (.realloc o newsize next commit)
        (reallocExtend b st o page newsize zero)
  /-- The program stops when it looks for the slices behind an address that
  is refused. -/
  | reallocCopy {st : BlockHeap} {page : BlockPage} {id : ℕ}
      {newPage : BlockPage} {block : ℕ} (o : HeapObject)
      (newsize next : ℕ) (commit zero : Bool) (ho : o ∈ st.live)
      (hpage : st.pages o.page = some page)
      (hfits : ¬ReallocFits (paUsableSize b check st.mem page o.ptr) newsize)
      (hextends : if ptrAccepted check o.ptr then
          ¬ReallocExtends page (usableSize b st.mem page o.ptr) newsize next
            commit
        else ¬(0 < newsize ∧ newsize ≤ largeObjSizeMax))
      (hcan : st.CanAlloc id newPage block (requestSize b newsize)) :
      Step b check st (.realloc o newsize next commit)
        { malloc b st id newPage block newsize false with
          mem := reallocContent
            (malloc b st id newPage block newsize false).mem block o.ptr
            (paUsableSize b check st.mem page o.ptr) newsize zero }
  /-- `realloc` of the null pointer. -/
  | reallocNull {st : BlockHeap} {id : ℕ} {page : BlockPage} {block : ℕ}
      (newsize : ℕ) (zero : Bool)
      (hcan : st.CanAlloc id page block (requestSize b newsize)) :
      Step b check st .other
        { malloc b st id page block newsize false with
          mem := reallocContent
            (malloc b st id page block newsize false).mem block 0 0 newsize
            zero }
  | reallocAlignedInPlace {st : BlockHeap} {page : BlockPage}
      (o : HeapObject) (newsize alignment offset : ℕ) (ho : o ∈ st.live)
      (hpage : st.pages o.page = some page)
      (hfits : ReallocAlignedFits o.ptr
        (paUsableSize b check st.mem page o.ptr) newsize alignment offset) :
      Step b check st .other (st.reask o newsize)
  /-- The new block is found without over-allocation. -/
  | reallocAlignedCopy {st : BlockHeap} {page : BlockPage} {id : ℕ}
      {newPage : BlockPage} {block : ℕ} (o : HeapObject)
      (newsize alignment offset : ℕ) (zero : Bool) (ho : o ∈ st.live)
      (hpage : st.pages o.page = some page)
      (hfits : ¬ReallocAlignedFits o.ptr
        (paUsableSize b check st.mem page o.ptr) newsize alignment offset)
      (hcan : st.CanAlloc id newPage block (requestSize b newsize)) :
      Step b check st .other
        { malloc b st id newPage block newsize false with
          mem := reallocAlignedContent
            (malloc b st id newPage block newsize false).mem block o.ptr
            (paUsableSize b check st.mem page o.ptr) newsize zero }
  | reallocOveralignedCopy {st : BlockHeap} {page : BlockPage} {id : ℕ}
      {newPage : BlockPage} {block : ℕ} (o : HeapObject)
      (newsize alignment offset : ℕ) (zero : Bool) (hpos : 0 < alignment)
      (hpow : isPowerOfTwo alignment) (ho : o ∈ st.live)
      (hpage : st.pages o.page = some page)
      (hfits : ¬ReallocAlignedFits o.ptr
        (paUsableSize b check st.mem page o.ptr) newsize alignment offset)
      (hcan : st.CanAlloc id newPage block
        (requestSize b (oversize newsize alignment)))
      (hreach : ReachesAligned b newPage block newsize alignment offset) :
      Step b check st (.aligned alignment offset)
        { mallocAligned b st id newPage block newsize alignment offset
            false with
          mem := reallocAlignedContent
            (mallocAligned b st id newPage block newsize alignment offset
              false).mem
            (block + alignAdjust block alignment offset) o.ptr
            (paUsableSize b check st.mem page o.ptr) newsize zero }
  /-- A free by the owner; a free that first reclaims an abandoned segment
  goes on with the start of the block. -/
  | freeLocal {st : BlockHeap} {page : BlockPage} (o : HeapObject)
      (p link : ℕ) (ho : o ∈ st.live) (hpage : st.pages o.page = some page)
      (haccepted : ptrAccepted check o.ptr = true)
      (hp : p = o.ptr ∨ p = page.ptrUnalign o.ptr) :
      Step b check st .other
        { st with
          mem := freedLocal b st.mem page (page.blockOf p) link
          live := st.live.erase o }
  /-- A free by another thread, to the list of the page or, with
  `useDelayed`, to the list of the heap. -/
  | freeMt {st : BlockHeap} {page : BlockPage} (o : HeapObject) (link : ℕ)
      (useDelayed : Bool) (mem : Mem) (ho : o ∈ st.live)
      (hpage : st.pages o.page = some page)
      (haccepted : ptrAccepted check o.ptr = true)
      (hmem : FreedContent b page (page.ptrUnalign o.ptr)
        (paddingShrink b st.mem page (page.ptrUnalign o.ptr) 8) mem) :
      Step b check st .other
        { st with
          mem := store mem (page.ptrUnalign o.ptr) 8 link
          live := st.live.erase o
          delayed :=
            if useDelayed then (o.page, page.ptrUnalign o.ptr) :: st.delayed
            else st.delayed }
  | freeRefused {st : BlockHeap} (o : HeapObject) (ho : o ∈ st.live)
      (hrefused : ptrAccepted check o.ptr = false) : Step b check st .other st
  /-- `_pa_free_delayed_block`. -/
  | freeDelayed {st : BlockHeap} {page : BlockPage} (d : ℕ × ℕ) (link : ℕ)
      (hd : d ∈ st.delayed) (hpage : st.pages d.1 = some page) :
      Step b check st .other
        { st with
          mem := freedLocal b st.mem page d.2 link
          delayed := st.delayed.erase d }

/-- The step is a `realloc` that extends its page in place. -/
def Extends (b : BlockBuild) (check : Bool) (st : BlockHeap) : Event → Prop
  | .realloc o newsize next commit => ∃ page, st.pages o.page = some page ∧
      ReallocExtends page (paUsableSize b check st.mem page o.ptr) newsize
        next commit
  | _ => False

/-- The page of the object holds one block, and the new size fits behind the
offset of the object in the slices that it takes. -/
def SingleBlockFits (st : BlockHeap) (o : HeapObject) (newsize : ℕ) : Prop :=
  ∃ page, st.pages o.page = some page ∧ page.reserved = 1 ∧
    o.ptr + newsize ≤
      page.sliceStart + sizeSlices newsize * segmentSliceSize

end BlockHeap

end Palloc
