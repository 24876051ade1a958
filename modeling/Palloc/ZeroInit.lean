import Palloc.PaddingInvariant
import Mathlib.Order.Interval.Finset.Nat

/-!
# The flags for memory that is zero

The operating system may report that memory is zero.  The report goes through
the dirty bits of an arena to the `free_is_zero` flag of a segment, from there
or from a fresh commit to the `is_zero_init` flag of a page, and to its
`free_is_zero` flag, which lets a zero-initialised allocation skip the
clearing of the block.

The state has the bytes of memory, the arenas, the segments and the pages with
their lists of blocks.  Arena blocks and segments are known by the number of
the segment-sized piece of the address space that they start at.  A step is
one operation of the allocator, or of the program on a block that it owns.
-/

namespace Palloc

open ByteMemory

/-! ## State -/

/-- The fields of an arena that a block allocation reads.  The blocks are the
`blockCount` pieces from `first` on. -/
structure ZeroArena where
  first : ℕ
  blockCount : ℕ
  initiallyZero : Bool
  inuse : Finset ℕ
  dirty : Finset ℕ
  /-- `blocks_committed`; an arena without it is always committed. -/
  committed : Option (Finset ℕ)

/-- A segment; `memid` has the arena and its first block and the number of
blocks, for a segment in an arena. -/
structure ZeroSegment where
  memid : Option (ℕ × ℕ × ℕ)
  slices : ℕ
  infoSlices : ℕ
  freeIsZero : Bool
  commitMask : Finset ℕ
  purgeMask : Finset ℕ

/-- A page with its lists of blocks; `live` has the blocks that the program
owns. -/
structure ZeroPage extends BlockPage where
  isZeroInit : Bool
  capacity : ℕ
  free : List ℕ
  localFree : List ℕ
  threadFree : List ℕ
  live : List ℕ

structure ZeroHeap where
  mem : Mem
  arenas : ℕ → Option ZeroArena
  segments : ℕ → Option ZeroSegment
  pages : ℕ → Option ZeroPage

def ZeroHeap.start (mem : Mem) : ZeroHeap where
  mem := mem
  arenas := fun _ => none
  segments := fun _ => none
  pages := fun _ => none

/-! ## Address ranges -/

/-- The first address of the piece `n` of the address space. -/
def pieceStart (n : ℕ) : ℕ := n * segmentSize

def ZeroSegment.segmentEnd (seg : ZeroSegment) (n : ℕ) : ℕ :=
  pieceStart n + seg.slices * segmentSliceSize

/-- The slice `s` of the segment at `n`. -/
def sliceAt (n s : ℕ) : ℕ := pieceStart n + s * segmentSliceSize

def ZeroPage.blocks (page : ZeroPage) : List ℕ :=
  page.free ++ page.localFree ++ page.threadFree ++ page.live

/-- The slice `s` of the segment at `n` is in a page. -/
def PageSlice (pages : ℕ → Option ZeroPage) (n s : ℕ) : Prop :=
  ∃ id page, pages id = some page ∧ page.segment = n ∧ page.idx ≤ s ∧
    s < page.idx + page.sliceCount

structure ZeroHeap.Unmapped (st : ZeroHeap) (n m : ℕ) : Prop where
  segment : ∀ k seg, st.segments k = some seg →
    pieceStart m ≤ pieceStart k ∨ seg.segmentEnd k ≤ pieceStart n
  arena : ∀ id arena, st.arenas id = some arena →
    m ≤ arena.first ∨ arena.first + arena.blockCount ≤ n

/-! ## Arenas -/

/-- What `pa_arena_try_alloc_at` leaves in the memory id. -/
structure ArenaGrant where
  initiallyZero : Bool
  initiallyCommitted : Bool

/-- `pa_arena_try_alloc_at` for the blocks `mask`, which were claimed;
`osCommit` is the result of the commit, if it is made: whether it succeeds
and whether it reports zero memory. -/
def ZeroArena.alloc (arena : ZeroArena) (mask : Finset ℕ) (commit : Bool)
    (osCommit : Option Bool) : ZeroArena × ArenaGrant :=
  let zero := arena.initiallyZero && decide (Disjoint arena.dirty mask)
  let dirty :=
    if arena.initiallyZero then arena.dirty ∪ mask else arena.dirty
  let arena := { arena with inuse := arena.inuse ∪ mask, dirty := dirty }
  match arena.committed with
  | none => (arena, ⟨zero, true⟩)
  | some committed =>
      if commit then
        let arena := { arena with committed := some (committed ∪ mask) }
        if mask ⊆ committed then (arena, ⟨zero, true⟩)
        else
          match osCommit with
          | none => (arena, ⟨zero, false⟩)
          | some commitZero => (arena, ⟨zero || commitZero, true⟩)
      else if mask ⊆ committed then (arena, ⟨zero, true⟩)
      else
        ({ arena with committed := some (committed \ mask) }, ⟨zero, false⟩)

/-! ## Segments -/

/-- `pa_segment_os_alloc` and `pa_segment_alloc`: the flag comes with the
memory, and at least the info slices are committed. -/
def segmentInit (memid : Option (ℕ × ℕ × ℕ)) (slices infoSlices : ℕ)
    (grant : ArenaGrant) : ZeroSegment where
  memid := memid
  slices := slices
  infoSlices := infoSlices
  freeIsZero := grant.initiallyZero
  commitMask :=
    if grant.initiallyCommitted then Finset.range slicesPerSegment
    else Finset.range infoSlices
  purgeMask := ∅

/-- A successful `pa_segment_ensure_committed` for `count` slices from `idx`
on, with its `out_committed_is_zero`; `osZero` is the report of the operating
system, if it is asked. -/
def ZeroSegment.ensureCommitted (seg : ZeroSegment) (idx count : ℕ)
    (osZero : Bool) : ZeroSegment × Bool :=
  let mask := Finset.Ico idx (idx + count)
  if Finset.range slicesPerSegment ⊆ seg.commitMask ∧ seg.purgeMask = ∅ then
    (seg, false)
  else
    let purgeMask := seg.purgeMask \ mask
    if mask ⊆ seg.commitMask then
      ({ seg with purgeMask := purgeMask }, false)
    else
      ({ seg with
          commitMask := seg.commitMask ∪ mask
          purgeMask := purgeMask }, osZero)

/-- `pa_segment_schedule_purge` with a delay, for the slices of `mask`. -/
def ZeroSegment.schedulePurge (seg : ZeroSegment) (mask : Finset ℕ) :
    ZeroSegment :=
  { seg with purgeMask := seg.purgeMask ∪ (seg.commitMask ∩ mask) }

/-- `pa_segment_purge` of the slices of `mask`. -/
def ZeroSegment.purged (seg : ZeroSegment) (mask : Finset ℕ)
    (decommitted : Bool) : ZeroSegment :=
  { seg with
    commitMask := if decommitted then seg.commitMask \ mask else seg.commitMask
    purgeMask := seg.purgeMask \ mask }

/-! ## Pages -/

/-- `pa_segment_span_allocate` and `pa_page_init`, before the first blocks are
carved. -/
def zeroPageInit (addr segment idx sliceCount blockSize : ℕ) (isHuge : Bool)
    (keys : FreeListKeys) (freeIsZero committedIsZero : Bool) : ZeroPage :=
  let isZeroInit := freeIsZero || committedIsZero
  { toBlockPage := blockPageInit addr segment idx sliceCount blockSize isHuge
      isZeroInit keys
    isZeroInit := isZeroInit
    capacity := 0
    free := []
    localFree := []
    threadFree := []
    live := [] }

namespace ZeroPage

/-- `pa_page_extend_free` by `extend` blocks, in the order of the list. -/
def extend (page : ZeroPage) (new : List ℕ) (extend : ℕ) : ZeroPage :=
  { page with
    free := new ++ page.free
    capacity := page.capacity + extend }

/-- `_pa_page_thread_free_collect`. -/
def threadFreeCollect (page : ZeroPage) : ZeroPage :=
  { page with
    localFree := page.threadFree ++ page.localFree
    threadFree := [] }

/-- `_pa_page_free_collect`. -/
def freeCollect (page : ZeroPage) (force : Bool) : ZeroPage :=
  let page :=
    if force ∨ page.threadFree ≠ [] then page.threadFreeCollect else page
  if page.localFree ≠ [] then
    if page.free = [] then
      { page with free := page.localFree, localFree := [], freeIsZero := false }
    else if force then
      { page with
        free := page.localFree ++ page.free
        localFree := []
        freeIsZero := false }
    else page
  else page

end ZeroPage

/-! ## Steps -/

def ChangesIn (ranges : List (ℕ × ℕ)) (mem mem' : Mem) : Prop :=
  ∀ a, (∀ r ∈ ranges, a < r.1 ∨ r.2 ≤ a) → mem' a = mem a

def linkWords (blocks : List ℕ) : List (ℕ × ℕ) :=
  blocks.map fun block => (block, block + 8)

inductive ZeroStep (b : BlockBuild) : ZeroHeap → ZeroHeap → Prop
  /-- `pa_manage_os_memory_ex`. -/
  | manage {st : ZeroHeap} (id : ℕ) (arena : ZeroArena)
      (hid : st.arenas id = none) (hinuse : arena.inuse = ∅)
      (hunmapped : st.Unmapped arena.first (arena.first + arena.blockCount))
      (hzero : arena.initiallyZero = true →
        AllBytes st.mem (pieceStart arena.first)
          (pieceStart (arena.first + arena.blockCount)) 0) :
      ZeroStep b st
        { st with arenas := Function.update st.arenas id (some arena) }
  /-- `pa_segment_alloc` from an arena. -/
  | segmentFromArena {st : ZeroHeap} {arena : ZeroArena} (id i n : ℕ)
      (slices infoSlices : ℕ) (commit : Bool) (osCommit : Option Bool)
      (mem : Mem) (harena : st.arenas id = some arena)
      (hrange : i + n ≤ arena.blockCount)
      (hfree : Disjoint arena.inuse (Finset.Ico i (i + n)))
      (hslices : slices * segmentSliceSize ≤ n * segmentSize)
      (hinfo : 0 < infoSlices ∧ infoSlices ≤ slices)
      (hzero : osCommit = some true →
        AllBytes st.mem (pieceStart (arena.first + i))
          (pieceStart (arena.first + i + n)) 0)
      (hmem : ChangesOnly (pieceStart (arena.first + i))
        (sliceAt (arena.first + i) infoSlices) st.mem mem) :
      ZeroStep b st
        { st with
          mem := mem
          arenas := Function.update st.arenas id (some
            (arena.alloc (Finset.Ico i (i + n)) commit osCommit).1)
          segments := Function.update st.segments (arena.first + i) (some
            (segmentInit (some (id, i, n)) slices infoSlices
              (arena.alloc (Finset.Ico i (i + n)) commit osCommit).2)) }
  /-- `pa_segment_alloc` from the operating system. -/
  | segmentFromOs {st : ZeroHeap} (n pieces slices infoSlices : ℕ)
      (grant : ArenaGrant) (mem : Mem)
      (hunmapped : st.Unmapped n (n + pieces))
      (hslices : slices * segmentSliceSize ≤ pieces * segmentSize)
      (hinfo : 0 < infoSlices ∧ infoSlices ≤ slices)
      (hzero : grant.initiallyZero = true →
        AllBytes st.mem (pieceStart n) (pieceStart (n + pieces)) 0)
      (hmem : ChangesOnly (pieceStart n) (sliceAt n infoSlices) st.mem mem) :
      ZeroStep b st
        { st with
          mem := mem
          segments := Function.update st.segments n
            (some (segmentInit none slices infoSlices grant)) }
  /-- `pa_segment_free`, to the operating system. -/
  | segmentFreeOs {st : ZeroHeap} {seg : ZeroSegment} (n : ℕ)
      (hseg : st.segments n = some seg) (hmemid : seg.memid = none)
      (hpages : ∀ id page, st.pages id = some page → page.segment ≠ n) :
      ZeroStep b st
        { st with segments := Function.update st.segments n none }
  /-- `pa_segment_free`, to the arena. -/
  | segmentFreeArena {st : ZeroHeap} {seg : ZeroSegment} {arena : ZeroArena}
      (n id i count : ℕ) (hseg : st.segments n = some seg)
      (hmemid : seg.memid = some (id, i, count))
      (harena : st.arenas id = some arena)
      (hpages : ∀ id page, st.pages id = some page → page.segment ≠ n) :
      ZeroStep b st
        { st with
          arenas := Function.update st.arenas id (some
            { arena with
              inuse := arena.inuse \ Finset.Ico i (i + count) })
          segments := Function.update st.segments n none }
  /-- A purge of slices of a segment, or of free blocks of an arena: the bytes
  read as before or as zero. -/
  | purge {st : ZeroHeap} {seg : ZeroSegment} (n : ℕ) (mask : Finset ℕ)
      (decommitted : Bool) (mem : Mem) (hseg : st.segments n = some seg)
      (hmem : ∀ a, mem a = st.mem a ∨ mem a = 0) :
      ZeroStep b st
        { st with
          mem := mem
          segments := Function.update st.segments n
            (some (seg.purged mask decommitted)) }
  /-- `pa_arena_purge` of free blocks. -/
  | arenaPurge {st : ZeroHeap} {arena : ZeroArena} (id : ℕ)
      (committed : Option (Finset ℕ)) (mem : Mem)
      (harena : st.arenas id = some arena)
      (hmem : ∀ a, mem a = st.mem a ∨ mem a = 0) :
      ZeroStep b st
        { st with
          mem := mem
          arenas := Function.update st.arenas id
            (some { arena with committed := committed }) }
  /-- The purge is scheduled; this happens also when the commit of a span
  fails. -/
  | schedulePurge {st : ZeroHeap} {seg : ZeroSegment} (n : ℕ)
      (mask : Finset ℕ) (hseg : st.segments n = some seg) :
      ZeroStep b st
        { st with
          segments := Function.update st.segments n
            (some (seg.schedulePurge mask)) }
  /-- The allocator writes to the info slices of a segment. -/
  | info {st : ZeroHeap} {seg : ZeroSegment} (n : ℕ) (mem : Mem)
      (hseg : st.segments n = some seg)
      (hmem : ChangesOnly (pieceStart n) (sliceAt n seg.infoSlices) st.mem
        mem) :
      ZeroStep b st { st with mem := mem }
  /-- `pa_segment_span_allocate` and `pa_page_init`. -/
  | pageAlloc {st : ZeroHeap} {seg : ZeroSegment} (id n : ℕ)
      (addr idx sliceCount blockSize : ℕ) (isHuge : Bool)
      (keys : FreeListKeys) (osZero : Bool) (hid : st.pages id = none)
      (hcount : 0 < sliceCount)
      (hseg : st.segments n = some seg) (hlo : seg.infoSlices ≤ idx)
      (hhi : idx + sliceCount ≤ seg.slices)
      (hfree : ∀ s, idx ≤ s → s < idx + sliceCount → ¬PageSlice st.pages n s)
      (hpos : 0 < blockSize) (hword : intptrSize ∣ blockSize)
      (hlarge : isHuge = false → blockSize ≤ largeObjSizeMax)
      (hzero : osZero = true →
        AllBytes st.mem (sliceAt n idx) (sliceAt n (idx + sliceCount)) 0) :
      ZeroStep b st
        { st with
          segments := Function.update st.segments n
            (some (seg.ensureCommitted idx sliceCount osZero).1)
          pages := Function.update st.pages id (some
            (zeroPageInit addr n idx sliceCount blockSize isHuge keys
              seg.freeIsZero
              (seg.ensureCommitted idx sliceCount osZero).2)) }
  /-- `pa_page_extend_free`. -/
  | pageExtend {st : ZeroHeap} {page : ZeroPage} (id extend : ℕ)
      (new : List ℕ) (mem : Mem) (hpage : st.pages id = some page)
      (hextend : page.capacity + extend ≤ page.reserved)
      (hnew : new.Perm ((List.range extend).map fun k =>
        page.blockAt (page.capacity + k)))
      (hmem : ChangesIn (linkWords new) st.mem mem) :
      ZeroStep b st
        { st with
          mem := mem
          pages := Function.update st.pages id
            (some (page.extend new extend)) }
  /-- `_pa_page_malloc_zero` takes the first free block. -/
  | malloc {st : ZeroHeap} {page : ZeroPage} (id block asked : ℕ)
      (rest : List ℕ) (zero : Bool) (hpage : st.pages id = some page)
      (hfree : page.free = block :: rest) :
      ZeroStep b st
        { st with
          mem := finishAlloc b st.mem page.toBlockPage block
            (BlockHeap.requestSize b asked) zero
          pages := Function.update st.pages id (some
            { page with free := rest, live := block :: page.live }) }
  /-- The program, or the allocator on its behalf, writes to a block that the
  program owns. -/
  | write {st : ZeroHeap} {page : ZeroPage} (id block : ℕ) (mem : Mem)
      (hpage : st.pages id = some page) (hblock : block ∈ page.live)
      (hmem : ChangesOnly block (block + page.blockSize) st.mem mem) :
      ZeroStep b st { st with mem := mem }
  /-- A free by the owner, after which the block has a list link. -/
  | freeLocal {st : ZeroHeap} {page : ZeroPage} (id block link : ℕ)
      (hpage : st.pages id = some page) (hblock : block ∈ page.live) :
      ZeroStep b st
        { st with
          mem := BlockHeap.freedLocal b st.mem page.toBlockPage block link
          pages := Function.update st.pages id (some
            { page with
              localFree := block :: page.localFree
              live := page.live.erase block }) }
  /-- A free by another thread. -/
  | freeMt {st : ZeroHeap} {page : ZeroPage} (id block link : ℕ) (mem : Mem)
      (hpage : st.pages id = some page) (hblock : block ∈ page.live)
      (hmem : ChangesOnly block (block + page.blockSize) st.mem mem) :
      ZeroStep b st
        { st with
          mem := store mem block 8 link
          pages := Function.update st.pages id (some
            { page with
              threadFree := block :: page.threadFree
              live := page.live.erase block }) }
  /-- `_pa_page_free_collect`. -/
  | collect {st : ZeroHeap} {page : ZeroPage} (id : ℕ) (force : Bool)
      (mem : Mem) (hpage : st.pages id = some page)
      (hmem : ChangesIn (linkWords (page.threadFree ++ page.localFree))
        st.mem mem) :
      ZeroStep b st
        { st with
          mem := mem
          pages := Function.update st.pages id
            (some (page.freeCollect force)) }
  /-- `pa_segment_page_clear`. -/
  | pageFree {st : ZeroHeap} {page : ZeroPage} {seg : ZeroSegment} (id : ℕ)
      (mask : Finset ℕ) (hpage : st.pages id = some page)
      (hlive : page.live = []) (hseg : st.segments page.segment = some seg) :
      ZeroStep b st
        { st with
          segments := Function.update st.segments page.segment (some
            { seg.schedulePurge mask with freeIsZero := false })
          pages := Function.update st.pages id none }

end Palloc
