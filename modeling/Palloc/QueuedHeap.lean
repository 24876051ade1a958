import Palloc.PageFreeLists
import Palloc.PageQueueRun
import Palloc.Reallocation

/-!
# Objects, pages and page queues together

The objects of a heap are joined with what its pages are besides: how many of
their blocks are carved, how many slice entries their segment has, and the
queue that each is linked into.  A page is made for the blocks of one queue
and gets the slices that `_pa_segment_page_alloc` asks for.

The steps are those of the objects, of the pages and of the queues.  The
extension of a page by `_pa_heap_realloc_zero` is kept apart.
-/

namespace Palloc

open ByteMemory BlockHeap

/-! ## Pages -/

namespace BlockPage

/-- `pa_page_bin` of a page that is not full. -/
def pageBin (page : BlockPage) : ℕ :=
  if page.isHuge then binHuge else bin page.blockSize

/-- The blocks that `pa_page_extend_free` carves next. -/
def nextExtend (cfg : Config) (page : BlockPage) (capacity : ℕ) : ℕ :=
  extendCount cfg
    { PageFields.zero with
      blockSize := page.blockSize
      reserved := page.reserved
      capacity := capacity }

end BlockPage

/-! ## State -/

structure QueuedHeap where
  heap : BlockHeap
  /-- The carved blocks of each page. -/
  capacity : ℕ → ℕ
  /-- The `slice_entries` of the segment of each page. -/
  sliceEntries : ℕ → ℕ
  queues : PageQueues
  /-- The heaps that are initialised. -/
  alive : Finset ℕ

namespace QueuedHeap

def start (mem : Mem) : QueuedHeap where
  heap := BlockHeap.start mem
  capacity := fun _ => 0
  sliceEntries := fun _ => 0
  queues := noQueues
  alive := ∅

/-- `pa_page_queue_of`. -/
def queueOf (st : QueuedHeap) (id : ℕ) (page : BlockPage) : ℕ × ℕ :=
  (st.queues.xheap id,
    if st.queues.inFull id then binFull else page.pageBin)

def Owned (st : QueuedHeap) (id : ℕ) : Prop := st.queues.Queued st.alive id

/-- `pa_page_set_heap`. -/
def setHeap (queues : PageQueues) (id heap : ℕ) : PageQueues :=
  { queues with xheap := Function.update queues.xheap id heap }

/-- What `pa_page_fresh_alloc` leaves of a page for a heap. -/
def freshPage (cfg : Config) (st : QueuedHeap) (id heap entries : ℕ)
    (page : BlockPage) : QueuedHeap :=
  { st with
    heap :=
      { st.heap with
        pages := Function.update st.heap.pages id (some page) }
    capacity := Function.update st.capacity id (page.nextExtend cfg 0)
    sliceEntries := Function.update st.sliceEntries id entries
    queues := (setHeap st.queues id heap).pageQueuePush heap
      (heap, page.pageBin) id }

structure NextSpan (st : QueuedHeap) (id : ℕ) (page : BlockPage)
    (next : ℕ) : Prop where
  entries : 0 < next → page.idx + page.sliceCount + next ≤ st.sliceEntries id
  unused : st.heap.Unused id page.sliceEnd
    (page.sliceEnd + next * segmentSliceSize)

/-! ## Steps -/

inductive Step (b : BlockBuild) (cfg : Config) :
    QueuedHeap → QueuedHeap → Prop
  /-- An operation on the objects; new ones are in carved blocks. -/
  | objects {st : QueuedHeap} {heap : BlockHeap} {check : Bool} (e : Event)
      (hstep : BlockHeap.Step b check st.heap e heap)
      (hext : ¬Extends b check st.heap e)
      (hpages : ∀ id, heap.pages id = none ↔ st.heap.pages id = none)
      (hcarved : ∀ o ∈ heap.live, o.slot ∉ st.heap.live.map HeapObject.slot →
        ∀ page, heap.pages o.page = some page →
          ∃ i < st.capacity o.page, o.block = page.blockAt i) :
      Step b cfg st { st with heap := heap }
  | pageFresh {st : QueuedHeap} (id heap entries addr segment idx sliceCount
      blockSize : ℕ) (isHuge isZeroInit : Bool) (keys : FreeListKeys)
      (hheap : heap ∈ st.alive) (hid : st.heap.pages id = none)
      (hqueued : ¬st.Owned id) (hpos : 0 < blockSize)
      (hword : intptrSize ∣ blockSize)
      (hunused : st.heap.Unused id
        (segment * segmentSize + idx * segmentSliceSize)
        (segment * segmentSize + idx * segmentSliceSize +
          sliceCount * segmentSliceSize))
      (hslices : isHuge = false → blockSize ≤ largeObjSizeMax ∧
        sliceCount = pageSlices blockSize)
      (hhuge : isHuge = true → entries ≤ idx + sliceCount) :
      Step b cfg st (freshPage cfg st id heap entries
        (blockPageInit addr segment idx sliceCount blockSize isHuge
          isZeroInit keys))
  /-- `pa_page_extend_free`. -/
  | extendFree {st : QueuedHeap} (id : ℕ) (page : BlockPage)
      (hpage : st.heap.pages id = some page) :
      Step b cfg st
        { st with
          capacity := Function.update st.capacity id
            (st.capacity id + page.nextExtend cfg (st.capacity id)) }
  /-- The page of a reclaimed segment. -/
  | pageReclaim {st : QueuedHeap} (id heap : ℕ) (page : BlockPage)
      (hheap : heap ∈ st.alive) (hpage : st.heap.pages id = some page)
      (hqueued : ¬st.Owned id) :
      Step b cfg st
        { st with
          queues := (setHeap st.queues id heap).pageQueuePush heap
            (heap, page.pageBin) id }
  /-- A page leaves its queue, to be abandoned or freed. -/
  | pageRemove {st : QueuedHeap} (id heap bin : ℕ) (hheap : heap ∈ st.alive)
      (hqueue : st.queues.InQueue (heap, bin) id) :
      Step b cfg st
        { st with queues := st.queues.pageQueueRemove (heap, bin) id }
  | pageFree {st : QueuedHeap} (id : ℕ) (hqueued : ¬st.Owned id)
      (hid : ∀ block, (id, block) ∉ st.heap.slots) :
      Step b cfg st
        { st with
          heap :=
            { st.heap with pages := Function.update st.heap.pages id none } }
  | pageToFull {st : QueuedHeap} (id heap : ℕ) (page : BlockPage)
      (hheap : heap ∈ st.alive) (hpage : st.heap.pages id = some page)
      (hqueue : st.queues.InQueue (heap, page.pageBin) id) :
      Step b cfg st
        { st with
          queues := st.queues.pageQueueEnqueueFromEx (heap, binFull)
            (heap, page.pageBin) true id }
  | pageUnfull {st : QueuedHeap} (id heap : ℕ) (page : BlockPage)
      (hheap : heap ∈ st.alive) (hpage : st.heap.pages id = some page)
      (hqueue : st.queues.InQueue (heap, binFull) id) :
      Step b cfg st
        { st with
          queues := st.queues.pageQueueEnqueueFromEx (heap, page.pageBin)
            (heap, binFull) true id }
  | moveToFront {st : QueuedHeap} (id heap bin : ℕ) (hheap : heap ∈ st.alive)
      (hqueue : st.queues.InQueue (heap, bin) id) :
      Step b cfg st
        { st with
          queues := st.queues.pageQueueMoveToFront heap (heap, bin) id }
  | heapInit {st : QueuedHeap} (heap : ℕ) (hheap : heap ∉ st.alive) :
      Step b cfg st
        { st with
          queues := st.queues.initHeap heap
          alive := insert heap st.alive }
  | heapAbsorb {st : QueuedHeap} {queues : PageQueues} (heap fromHeap fuel : ℕ)
      (hheap : heap ∈ st.alive) (hfrom : fromHeap ∈ st.alive)
      (hne : heap ≠ fromHeap)
      (habsorb : st.queues.absorbQueues fuel heap fromHeap (binFull + 1) =
        some queues) :
      Step b cfg st
        { st with queues := queues, alive := st.alive.erase fromHeap }
  /-- The rest of the allocator, with heaps that are given up. -/
  | other {st : QueuedHeap} {queues : PageQueues} {alive : Finset ℕ}
      (hsub : alive ⊆ st.alive) (hsame : SameQueues alive st.queues queues) :
      Step b cfg st { st with queues := queues, alive := alive }

/-- `_pa_heap_realloc_zero` extends the page of an object of the thread. -/
structure Extension (b : BlockBuild) (st : QueuedHeap) (o : HeapObject)
    (newsize : ℕ) (st' : QueuedHeap) : Prop where
  mem : o ∈ st.heap.live
  owned : st.Owned o.page
  realloc : ∃ (layer : PageLayer b) (check zero commit : Bool) (next : ℕ)
    (r : Reallocation),
    (∀ page, st.heap.pages o.page = some page →
      st.NextSpan o.page page next) ∧
    heapReallocZero layer check st.heap (some o) newsize zero next commit =
      some r ∧
    r.extended = true ∧ st' = { st with heap := r.heap }

/-- The states of all runs in which every extension is of a page with one
block, and fits. -/
inductive Reachable (b : BlockBuild) (cfg : Config) : QueuedHeap → Prop
  | start (mem : Mem) : Reachable b cfg (start mem)
  | step {st st' : QueuedHeap} (hrun : Reachable b cfg st)
      (hstep : Step b cfg st st') : Reachable b cfg st'
  | extend {st st' : QueuedHeap} {o : HeapObject} {newsize : ℕ}
      (hrun : Reachable b cfg st) (hextend : Extension b st o newsize st')
      (hfits : st.heap.SingleBlockFits o newsize) : Reachable b cfg st'

end QueuedHeap

end Palloc
