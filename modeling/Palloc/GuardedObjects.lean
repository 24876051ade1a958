import Palloc.AlignedAllocation

/-!
# Guarded objects

With `PA_GUARDED` an allocation may get a block that ends in an OS page
without access, and an address as close as possible in front of that page.
The page is found again from the address of the block and the block size of
its page: when the object is allocated, when its usable size is asked for, and
when it is freed.

A step is an operation on one object or a step of the page layer.  A `realloc`
that copies ends before its `pa_free`, which is a step of its own.
-/

namespace Palloc

open ByteMemory BlockHeap MachineWord

/-! ## State -/

/-- A `PA_GUARDED` build has no padding; `precise` is the option
`guarded_precise`. -/
structure GuardBuild where
  build : BlockBuild
  precise : Bool
  osPageShift : ℕ
  noPadding : build.padding = false
  four_le : 4 ≤ osPageShift
  le_sixty : osPageShift ≤ 60

namespace GuardBuild

/-- `_pa_os_page_size`. -/
def osPage (g : GuardBuild) : ℕ := 2 ^ g.osPageShift

/-- `pa_checked_ptr_segment` refuses addresses inside of a word. -/
def check (g : GuardBuild) : Bool := g.build.debug && !g.precise

end GuardBuild

/-- The heap, the OS pages without access by their number, and for each block
the OS page that was protected when it was handed out last. -/
structure GuardedHeap where
  heap : BlockHeap
  noAccess : ℕ → Bool
  guards : ℕ × ℕ → Option ℕ

def GuardedHeap.start (mem : Mem) : GuardedHeap where
  heap := .start mem
  noAccess := fun _ => false
  guards := fun _ => none

variable (g : GuardBuild)

/-- `pa_os_protectx`: the whole OS pages of the range. -/
def osProtectx (noAccess : ℕ → Bool) (addr size : ℕ) (protect : Bool) :
    ℕ → Bool :=
  fun k =>
    if (addr + g.osPage - 1) / g.osPage ≤ k ∧ k < (addr + size) / g.osPage then
      protect
    else noAccess k

/-! ## The tag -/

/-- `PA_BLOCK_TAG_GUARDED`. -/
def blockTagGuarded : ℕ := 2 ^ 64 - 1

/-- `pa_block_ptr_is_guarded`. -/
def blockPtrIsGuarded (mem : Mem) (block p : ℕ) : Bool :=
  decide (block + 8 ≤ p) && load mem block 8 == blockTagGuarded

/-- `pa_page_usable_aligned_size_of`. -/
def pageUsableAlignedSizeOf (mem : Mem) (page : BlockPage) (p : ℕ) : ℕ :=
  let block := page.ptrUnalign p
  let size := pageUsableSizeOf g.build mem page block
  let adjust := p - block
  let alignedSize := size - adjust
  if blockPtrIsGuarded mem block p then alignedSize - g.osPage
  else alignedSize

/-- `_pa_usable_size`. -/
def guardedUsableSize (mem : Mem) (page : BlockPage) (p : ℕ) : ℕ :=
  if page.hasAligned then pageUsableAlignedSizeOf g mem page p
  else pageUsableSizeOf g.build mem page p

/-! ## Free -/

/-- `pa_block_unguard`. -/
def blockUnguard (noAccess : ℕ → Bool) (page : BlockPage) (block : ℕ) :
    ℕ → Bool :=
  osProtectx g noAccess (block + page.blockSize - g.osPage) g.osPage false

/-- `pa_block_check_unguard`. -/
def blockCheckUnguard (st : GuardedHeap) (page : BlockPage) (block p : ℕ) :
    ℕ → Bool :=
  if blockPtrIsGuarded st.heap.mem block p then
    blockUnguard g st.noAccess page block
  else st.noAccess

/-- `pa_free_block_local`, which does not fill the block in this build. -/
def guardedFreedLocal (mem : Mem) (page : BlockPage) (block link : ℕ) : Mem :=
  freedLocal { g.build with debug := false } mem page block link

/-- How `pa_free` gives a block back: by the owner of the page, by a thread
that first reclaims the abandoned segment, or to the list of the page or of
the heap. -/
inductive GuardedFree where
  | owner (link : ℕ)
  | reclaimed (link : ℕ)
  | other (link : ℕ) (useDelayed : Bool) (reset : Mem)

/-- `pa_free`; without aligned blocks in the page the block starts at the
address, which then is not guarded. -/
def guardedPaFree (st : GuardedHeap) (o : HeapObject) (kind : GuardedFree) :
    GuardedHeap :=
  match st.heap.pages o.page with
  | none => st
  | some page =>
      if ptrAccepted g.check o.ptr then
        match kind with
        | .owner link =>
            let block := page.blockOf o.ptr
            { st with
              heap := { st.heap with
                mem := guardedFreedLocal g st.heap.mem page block link
                live := st.heap.live.erase o }
              noAccess := blockCheckUnguard g st page block o.ptr }
        | .reclaimed link =>
            let block := page.ptrUnalign o.ptr
            { st with
              heap := { st.heap with
                mem := guardedFreedLocal g st.heap.mem page block link
                live := st.heap.live.erase o }
              noAccess := blockCheckUnguard g st page block o.ptr }
        | .other link useDelayed reset =>
            let block := page.ptrUnalign o.ptr
            { st with
              heap := { st.heap with
                mem := store
                  (freedMt g.build st.heap.mem page block reset) block 8 link
                live := st.heap.live.erase o
                delayed :=
                  if useDelayed then (o.page, block) :: st.heap.delayed
                  else st.heap.delayed }
              noAccess := blockCheckUnguard g st page block o.ptr }
      else st

/-! ## Allocation -/

/-- `pa_heap_malloc_small_zero` asks for a word instead of nothing. -/
def guardedSize (size : ℕ) : ℕ := if size = 0 then intptrSize else size

/-- `obj_size` of `_pa_heap_malloc_guarded`. -/
def guardedObjSize (size : ℕ) : ℕ :=
  if g.precise then size else wordAlignUp size maxAlignSize

/-- `req_size` of `_pa_heap_malloc_guarded`. -/
def guardedReqSize (objSize : ℕ) : ℕ :=
  let bsize :=
    wordAlignUp ((wordAlignUp objSize maxAlignSize + 8) % wordSize)
      maxAlignSize
  wordAlignUp ((bsize + g.osPage) % wordSize) g.osPage

def guardedOffset (blockSize objSize : ℕ) : ℕ :=
  let offset := (blockSize + 2 * wordSize - g.osPage - objSize) % wordSize
  if blockAlignmentMax < offset then blockAlignmentMax else offset

/-- `pa_block_ptr_set_guarded` for a block that was just taken from its page:
`protects` tells that the segment allows to decommit and that the OS protects
the page, and `link` is the link of a block that is too small after all. -/
def blockPtrSetGuarded (st : GuardedHeap) (id : ℕ) (page : BlockPage)
    (block objSize size : ℕ) (protects : Bool) (link : ℕ) :
    Option HeapObject × GuardedHeap :=
  let mem := store st.heap.mem block 8 blockTagGuarded
  let pages := Function.update st.heap.pages id
    (some { page with hasAligned := true })
  if page.blockSize < (objSize + g.osPage + 8) % wordSize then
    (none, { st with
      heap := { st.heap with
        mem := guardedFreedLocal g mem page block link
        pages := pages } })
  else
    let guardPage := block + page.blockSize - g.osPage
    let guarded := guardPage % g.osPage = 0 ∧ protects = true
    let p := block + guardedOffset g page.blockSize objSize
    let o : HeapObject := ⟨id, block, p, size⟩
    (some o,
      { heap := { st.heap with
          mem := mem, pages := pages, live := o :: st.heap.live }
        noAccess :=
          if guarded then
            osProtectx g st.noAccess guardPage g.osPage true
          else st.noAccess
        guards := Function.update st.guards (id, block)
          (if guarded then some (guardPage / g.osPage) else none) })

/-- `_pa_heap_malloc_guarded` in `block` of the page `id`. -/
def heapMallocGuarded (st : GuardedHeap) (id : ℕ) (page : BlockPage)
    (block size : ℕ) (zero protects : Bool) (link : ℕ) :
    Option HeapObject × GuardedHeap :=
  let objSize := guardedObjSize g size
  let mem := finishAlloc g.build st.heap.mem page block
    (guardedReqSize g objSize) zero
  blockPtrSetGuarded g { st with heap := { st.heap with mem := mem } } id page
    block objSize size protects link

def heapMallocUnguarded (st : GuardedHeap) (id : ℕ) (page : BlockPage)
    (block size : ℕ) (zero : Bool) : GuardedHeap :=
  { st with
    heap := malloc g.build st.heap id page block size zero
    guards := Function.update st.guards (id, block) none }

inductive GuardedAlloc (st : GuardedHeap) (size : ℕ) :
    Bool → Option HeapObject → GuardedHeap → Prop
  | failed (guarded : Bool) : GuardedAlloc st size guarded none st
  | unguarded {id : ℕ} {page : BlockPage} {block : ℕ} (zero : Bool)
      (hcan : st.heap.CanAlloc id page block
        (BlockHeap.requestSize g.build (guardedSize size))) :
      GuardedAlloc st size false
        (some ⟨id, block, block, guardedSize size⟩)
        (heapMallocUnguarded g st id page block (guardedSize size) zero)
  | guarded {id : ℕ} {page : BlockPage} {block : ℕ} (zero protects : Bool)
      (link : ℕ) (hword : page.blockSize < wordSize)
      (hcan : st.heap.CanAlloc id page block
        (guardedReqSize g (guardedObjSize g (guardedSize size)))) :
      GuardedAlloc st size true
        (heapMallocGuarded g st id page block (guardedSize size) zero protects
          link).1
        (heapMallocGuarded g st id page block (guardedSize size) zero protects
          link).2

/-! ## Steps -/

inductive GuardedEvent where
  | other
  | malloc (guarded : Bool) (size : ℕ)
  | realloc (o : HeapObject) (guarded : Bool) (newsize next : ℕ)
      (commit : Bool)

/-- The in-place extension of `_pa_heap_realloc_zero`. -/
def guardedReallocExtend (st : GuardedHeap) (o : HeapObject)
    (page : BlockPage) (newsize : ℕ) (zero : Bool) : GuardedHeap :=
  let size := guardedUsableSize g st.heap.mem page o.ptr
  { st with
    heap := { st.heap.reask o newsize with
      mem :=
        if zero then fill st.heap.mem (o.ptr + size) (newsize - size) 0
        else st.heap.mem
      pages := Function.update st.heap.pages o.page
        (some (extendPage page (needSlices page newsize))) } }

inductive GuardedStep : GuardedHeap → GuardedEvent → GuardedHeap → Prop
  | background {st : GuardedHeap} {heap : BlockHeap}
      (hback : BackgroundStep st.heap heap) :
      GuardedStep st .other { st with heap := heap }
  /-- The program writes to an object. -/
  | write {st : GuardedHeap} (o : HeapObject) (mem : Mem)
      (ho : o ∈ st.heap.live)
      (hmem : ChangesOnly o.ptr (o.ptr + o.asked) st.heap.mem mem) :
      GuardedStep st .other { st with heap := { st.heap with mem := mem } }
  | malloc {st st' : GuardedHeap} {guarded : Bool} {size : ℕ}
      {result : Option HeapObject}
      (halloc : GuardedAlloc g st size guarded result st') :
      GuardedStep st (.malloc guarded size) st'
  | free {st : GuardedHeap} (o : HeapObject) (kind : GuardedFree)
      (ho : o ∈ st.heap.live) :
      GuardedStep st .other (guardedPaFree g st o kind)
  | reallocInPlace {st : GuardedHeap} {page : BlockPage} (o : HeapObject)
      (guarded : Bool) (newsize next : ℕ) (commit : Bool)
      (ho : o ∈ st.heap.live) (hpage : st.heap.pages o.page = some page)
      (hfits : ReallocFits (guardedUsableSize g st.heap.mem page o.ptr)
        newsize) :
      GuardedStep st (.realloc o guarded newsize next commit)
        { st with heap := st.heap.reask o newsize }
  | reallocExtend {st : GuardedHeap} {page : BlockPage} (o : HeapObject)
      (guarded : Bool) (newsize next : ℕ) (commit zero : Bool)
      (ho : o ∈ st.heap.live) (hpage : st.heap.pages o.page = some page)
      (hextends : ReallocExtends page
        (guardedUsableSize g st.heap.mem page o.ptr) newsize next commit)
      (hunused : st.heap.Unused o.page page.sliceEnd
        (page.sliceEnd + next * segmentSliceSize)) :
      GuardedStep st (.realloc o guarded newsize next commit)
        (guardedReallocExtend g st o page newsize zero)
  | reallocFails {st st' : GuardedHeap} {page : BlockPage} (o : HeapObject)
      (guarded : Bool) (newsize next : ℕ) (commit : Bool)
      (ho : o ∈ st.heap.live) (hpage : st.heap.pages o.page = some page)
      (hfits : ¬ReallocFits (guardedUsableSize g st.heap.mem page o.ptr)
        newsize)
      (hextends : ¬ReallocExtends page
        (guardedUsableSize g st.heap.mem page o.ptr) newsize next commit)
      (halloc : GuardedAlloc g st newsize guarded none st') :
      GuardedStep st (.realloc o guarded newsize next commit) st'
  | reallocCopy {st st' : GuardedHeap} {page : BlockPage}
      {new : HeapObject} (o : HeapObject) (guarded : Bool)
      (newsize next : ℕ) (commit zero : Bool)
      (ho : o ∈ st.heap.live) (hpage : st.heap.pages o.page = some page)
      (hfits : ¬ReallocFits (guardedUsableSize g st.heap.mem page o.ptr)
        newsize)
      (hextends : ¬ReallocExtends page
        (guardedUsableSize g st.heap.mem page o.ptr) newsize next commit)
      (halloc : GuardedAlloc g st newsize guarded (some new) st') :
      GuardedStep st (.realloc o guarded newsize next commit)
        { st' with heap := { st'.heap with
            mem := reallocContent st'.heap.mem new.ptr o.ptr
              (guardedUsableSize g st.heap.mem page o.ptr) newsize zero } }

/-- No rounding of `_pa_heap_malloc_guarded` wraps around below this size. -/
def guardedSizeEnd : ℕ := 2 ^ 63

/-- The step asks for no guarded object of `guardedSizeEnd` bytes or more, and
does not extend a page in place. -/
def GuardedEvent.Unbroken (st : GuardedHeap) : GuardedEvent → Prop
  | .other => True
  | .malloc guarded size => guarded = true → size < guardedSizeEnd
  | .realloc o guarded newsize next commit =>
      (guarded = true → newsize < guardedSizeEnd) ∧
        ∀ page, st.heap.pages o.page = some page →
          ¬ReallocExtends page (guardedUsableSize g st.heap.mem page o.ptr)
            newsize next commit

inductive GuardedRun : GuardedHeap → Prop
  | start (mem : Mem) : GuardedRun (.start mem)
  | step {st st' : GuardedHeap} {e : GuardedEvent} (hrun : GuardedRun st)
      (hstep : GuardedStep g st e st') (hevent : e.Unbroken g st) :
      GuardedRun st'

/-! ## What guard pages are for -/

structure GuardsPaired (st : GuardedHeap) : Prop where
  /-- An object lies in its block, which is found again. -/
  inside : ∀ o ∈ st.heap.live, ∀ page, st.heap.pages o.page = some page →
    o.block ≤ o.ptr ∧ o.ptr + o.asked ≤ o.block + page.blockSize ∧
      page.ptrUnalign o.ptr = o.block
  /-- No byte of an object, and no byte that the usable size counts, lies in
  a protected page. -/
  outside : ∀ o ∈ st.heap.live, ∀ page,
    st.heap.pages o.page = some page → ∀ k, st.noAccess k = true →
      o.ptr + max o.asked (guardedUsableSize g st.heap.mem page o.ptr) ≤
          k * g.osPage ∨ (k + 1) * g.osPage ≤ o.ptr
  /-- A protected page lies in the block of the live object that it was
  protected for. -/
  paired : ∀ k, st.noAccess k = true → ∃ o ∈ st.heap.live, ∃ page,
    st.heap.pages o.page = some page ∧ st.guards o.slot = some k ∧
      o.block ≤ k * g.osPage ∧
      (k + 1) * g.osPage ≤ o.block + page.blockSize
  /-- Every way to free an object unprotects the page that was protected for
  it, and no other. -/
  freed : ∀ o ∈ st.heap.live, ∀ kind k,
    (guardedPaFree g st o kind).noAccess k =
      (st.noAccess k && decide (st.guards o.slot ≠ some k))

end Palloc
