import Palloc.AllocatorModel
import Palloc.LinkedQueue
import Mathlib.Data.Nat.Log

/-!
# Page queues

A heap keeps its pages in one queue for each bin, and one more for full pages.
`pages_free_direct` repeats the first page of the queues of small blocks, once
for each block size in words; a change of a first page has to be written to
all sizes that the queue serves.

The queues of all heaps share the link fields of the pages, so the operations
act on one state with all heaps in it.
-/

namespace Palloc

open LinkedQueue

/-! ## Bins -/

def smallWsizeMax : ℕ := 128
def smallSizeMax : ℕ := smallWsizeMax * intptrSize
def mediumObjWsizeMax : ℕ := mediumObjSizeMax / intptrSize

/-- `_pa_wsize_from_size`. -/
def wsizeFromSize (size : ℕ) : ℕ := (size + intptrSize - 1) / intptrSize

/-- `pa_bin`, for a minimal alignment of two words. -/
def bin (size : ℕ) : ℕ :=
  let wsize := wsizeFromSize size
  if wsize ≤ 8 then
    if wsize ≤ 1 then 1 else (wsize + 1) / 2 * 2
  else if mediumObjWsizeMax < wsize then binHuge
  else
    let wsize := wsize - 1
    let b := Nat.log2 wsize
    (b <<< 2) + ((wsize >>> (b - 2)) &&& 3) - 3

/-- The block sizes of `PA_PAGE_QUEUES_EMPTY`, in words. -/
def pageQueueWords : List ℕ :=
  [1,
    1, 2, 3, 4, 5, 6, 7, 8,
    10, 12, 14, 16, 20, 24, 28, 32,
    40, 48, 56, 64, 80, 96, 112, 128,
    160, 192, 224, 256, 320, 384, 448, 512,
    640, 768, 896, 1024, 1280, 1536, 1792, 2048,
    2560, 3072, 3584, 4096, 5120, 6144, 7168, 8192,
    10240, 12288, 14336, 16384, 20480, 24576, 28672, 32768,
    40960, 49152, 57344, 65536, 81920, 98304, 114688, 131072,
    163840, 196608, 229376, 262144, 327680, 393216, 458752, 524288,
    mediumObjWsizeMax + 1,
    mediumObjWsizeMax + 2]

/-- `block_size` of the queue of a bin. -/
def queueBlockSize (b : ℕ) : ℕ := pageQueueWords.getD b 0 * intptrSize

/-- `pa_page_queue_is_full`. -/
def pageQueueIsFull (b : ℕ) : Bool :=
  queueBlockSize b = mediumObjSizeMax + 2 * intptrSize

/-- The queue before the one of bin `b` whose blocks have another bin; the
argument is the queue to look at. -/
def prevQueue (b : ℕ) : ℕ → ℕ
  | 0 => 0
  | prev + 1 =>
      if b = bin (queueBlockSize (prev + 1)) then prevQueue b prev
      else prev + 1

/-- The first and the last entry of `pages_free_direct` that
`pa_heap_queue_first_update` writes. -/
def directRange (b : ℕ) : ℕ × ℕ :=
  let size := queueBlockSize b
  let idx := wsizeFromSize size
  let start :=
    if idx ≤ 1 then 0
    else
      let prev := prevQueue (bin size) (b - 1)
      let start := 1 + wsizeFromSize (queueBlockSize prev)
      if idx < start then idx else start
  (start, idx)

/-! ## The queues of all heaps -/

/-- An entry of `pages_free_direct`; `empty` is `_pa_page_empty`. -/
inductive DirectPage where
  | null
  | empty
  | page (page : ℕ)
  deriving Repr, DecidableEq

/-- The page that stands for a queue with a given first page. -/
def directOf : Option ℕ → DirectPage
  | none => .empty
  | some page => .page page

/-- The queue fields of the pages and heaps.  A queue is known by its heap and
its bin. -/
structure PageQueues where
  links : Links ℕ
  inFull : ℕ → Bool
  xheap : ℕ → ℕ
  pages : ℕ × ℕ → Ends ℕ
  pagesFreeDirect : ℕ → ℕ → DirectPage
  pageCount : ℕ → ℕ

namespace PageQueues

/-- `pa_heap_queue_first_update`. -/
def queueFirstUpdate (heap : ℕ) (queue : ℕ × ℕ) (st : PageQueues) :
    PageQueues :=
  if smallSizeMax < queueBlockSize queue.2 then st
  else
    let page := directOf (st.pages queue).first
    let range := directRange queue.2
    if st.pagesFreeDirect heap range.2 = page then st
    else
      { st with
        pagesFreeDirect := Function.update st.pagesFreeDirect heap fun sz =>
          if range.1 ≤ sz ∧ sz ≤ range.2 then page
          else st.pagesFreeDirect heap sz }

/-- `pa_page_queue_remove`. -/
def pageQueueRemove (queue : ℕ × ℕ) (page : ℕ) (st : PageQueues) :
    PageQueues :=
  let heap := st.xheap page
  let ends := st.pages queue
  let st :=
    { st with
      links := deleteLinks st.links page
      pages := Function.update st.pages queue
        (deleteEnds st.links ends page) }
  let st :=
    if ends.first = some page then st.queueFirstUpdate heap queue else st
  { st with
    pageCount := Function.update st.pageCount heap (st.pageCount heap - 1)
    inFull := Function.update st.inFull page false }

/-- `pa_page_queue_push`. -/
def pageQueuePush (heap : ℕ) (queue : ℕ × ℕ) (page : ℕ) (st : PageQueues) :
    PageQueues :=
  let ends := st.pages queue
  let st :=
    { st with
      inFull := Function.update st.inFull page (pageQueueIsFull queue.2)
      links := pushLinks st.links ends page
      pages := Function.update st.pages queue (pushEnds ends page) }
  let st := st.queueFirstUpdate heap queue
  { st with
    pageCount := Function.update st.pageCount heap (st.pageCount heap + 1) }

/-- `pa_page_queue_move_to_front`. -/
def pageQueueMoveToFront (heap : ℕ) (queue : ℕ × ℕ) (page : ℕ)
    (st : PageQueues) : PageQueues :=
  if (st.pages queue).first = some page then st
  else (st.pageQueueRemove queue page).pageQueuePush heap queue page

/-- The insertion of `pa_page_queue_enqueue_from_ex`. -/
def enqueueInto (heap : ℕ) (toQueue : ℕ × ℕ) (enqueueAtEnd : Bool) (page : ℕ)
    (st : PageQueues) : PageQueues :=
  let ends := st.pages toQueue
  if enqueueAtEnd then
    let st' :=
      { st with
        links := pushBackLinks st.links ends page
        pages := Function.update st.pages toQueue (pushBackEnds ends page) }
    if ends.last = none then st'.queueFirstUpdate heap toQueue else st'
  else
    match ends.first with
    | some front =>
        { st with
          links := insertSecondLinks st.links front page
          pages := Function.update st.pages toQueue
            (insertSecondEnds st.links ends front page) }
    | none =>
        let st' :=
          { st with
            links := pushLinks st.links ends page
            pages := Function.update st.pages toQueue (pushEnds ends page) }
        st'.queueFirstUpdate heap toQueue

/-- `pa_page_queue_enqueue_from_ex`; `pa_page_queue_enqueue_from` and
`_enqueue_from_full` both enqueue at the end. -/
def pageQueueEnqueueFromEx (toQueue fromQueue : ℕ × ℕ) (enqueueAtEnd : Bool)
    (page : ℕ) (st : PageQueues) : PageQueues :=
  let heap := st.xheap page
  let ends := st.pages fromQueue
  let st :=
    { st with
      links := bypassLinks st.links page
      pages := Function.update st.pages fromQueue
        (deleteEnds st.links ends page) }
  let st :=
    if ends.first = some page then st.queueFirstUpdate heap fromQueue else st
  let st := st.enqueueInto heap toQueue enqueueAtEnd page
  { st with
    inFull := Function.update st.inFull page (pageQueueIsFull toQueue.2) }

/-- The loop of `_pa_page_queue_append` that moves the pages to `heap`, with
their number.  `none` when the fuel runs out. -/
def adoptPages (heap : ℕ) :
    ℕ → Option ℕ → PageQueues → Option (ℕ × PageQueues)
  | _, none, st => some (0, st)
  | 0, some _, _ => none
  | fuel + 1, some page, st =>
      (adoptPages heap fuel (st.links.next page)
        { st with xheap := Function.update st.xheap page heap }).map
          fun result => (result.1 + 1, result.2)

/-- `_pa_page_queue_append`; the delayed-free flag that it also sets belongs to
`pa_page_t::xthread_free`. -/
def pageQueueAppend (fuel heap : ℕ) (pq append : ℕ × ℕ) (st : PageQueues) :
    Option (ℕ × PageQueues) :=
  if (st.pages append).first = none then some (0, st)
  else
    (st.adoptPages heap fuel (st.pages append).first).map fun result =>
      let st := result.2
      if (st.pages pq).last = none then
        let st' :=
          { st with pages := Function.update st.pages pq (st.pages append) }
        (result.1, st'.queueFirstUpdate heap pq)
      else
        (result.1,
          { st with
            links := appendLinks st.links (st.pages pq) (st.pages append)
            pages := Function.update st.pages pq
              ⟨(st.pages pq).first, (st.pages append).last⟩ })

/-- The loop of `pa_heap_absorb` over the first `bins` queues. -/
def absorbQueues (fuel heap fromHeap : ℕ) :
    ℕ → PageQueues → Option PageQueues
  | 0, st => some st
  | bins + 1, st =>
      (st.absorbQueues fuel heap fromHeap bins).bind fun st =>
        (st.pageQueueAppend fuel heap (heap, bins) (fromHeap, bins)).map
          fun result =>
            let count := result.2.pageCount
            let count :=
              Function.update count heap (count heap + result.1)
            { result.2 with
              pageCount :=
                Function.update count fromHeap (count fromHeap - result.1) }

/-- `pa_heap_reset_pages`. -/
def resetPages (heap : ℕ) (st : PageQueues) : PageQueues :=
  { st with
    pages := fun queue =>
      if queue.1 = heap then Ends.empty else st.pages queue
    pagesFreeDirect := Function.update st.pagesFreeDirect heap fun _ => .null
    pageCount := Function.update st.pageCount heap 0 }

/-- A heap as `pa_heap_init` makes it, a copy of `_pa_heap_empty`. -/
def initHeap (heap : ℕ) (st : PageQueues) : PageQueues :=
  { st with
    pages := fun queue =>
      if queue.1 = heap then Ends.empty else st.pages queue
    pagesFreeDirect := Function.update st.pagesFreeDirect heap fun _ => .empty
    pageCount := Function.update st.pageCount heap 0 }

end PageQueues

/-! ## Which sizes a queue serves -/

/-- The bins of blocks of any size, and the one of full pages.  With a minimal
alignment of two words there are no blocks of 3, 5 or 7 words. -/
def ServedBin (b : ℕ) : Prop := b = binFull ∨ ∃ size, bin size = b

theorem bin_cases (size : ℕ) :
    bin size ∈ [1, 2, 4, 6, 8] ∨ 9 ≤ bin size ∧ bin size < binFull := by
  unfold bin
  generalize wsizeFromSize size = wsize
  dsimp only
  split
  · left
    split
    · simp
    · simp only [List.mem_cons, List.not_mem_nil, or_false]
      omega
  split
  · right
    decide
  · rename_i hlow hhigh
    right
    have hle : wsize - 1 < 2 ^ 13 := by
      unfold mediumObjWsizeMax mediumObjSizeMax mediumPageSize
        segmentSliceSize intptrSize at hhigh
      omega
    have hne : wsize - 1 ≠ 0 := by omega
    have hlog : 3 ≤ (wsize - 1).log2 := (Nat.le_log2 hne).mpr (by omega)
    have hlog' : (wsize - 1).log2 < 13 := (Nat.log2_lt hne).mpr hle
    have hbits : ((wsize - 1) >>> ((wsize - 1).log2 - 2)) &&& 3 ≤ 3 :=
      Nat.and_le_right
    rw [Nat.shiftLeft_eq]
    unfold binFull binHuge
    omega

theorem bin_large {size : ℕ} (hlarge : mediumObjSizeMax < size) :
    bin size = binHuge := by
  have hlarge' : 65536 < size := hlarge
  have hwords : mediumObjWsizeMax < wsizeFromSize size := by
    unfold mediumObjWsizeMax wsizeFromSize mediumObjSizeMax mediumPageSize
      segmentSliceSize intptrSize
    omega
  have hnot : ¬wsizeFromSize size ≤ 8 := by
    intro hle
    exact absurd (hwords.trans_le hle) (by decide)
  unfold bin
  dsimp only
  rw [if_neg hnot, if_pos hwords]

theorem ServedBin.cases {b : ℕ} (hb : ServedBin b) :
    b < binFull + 1 ∧ (b ∈ [1, 2, 4, 6, 8] ∨ 9 ≤ b) := by
  rcases hb with rfl | ⟨size, rfl⟩
  · decide
  · rcases bin_cases size with hsmall | ⟨hle, hlt⟩
    · refine ⟨?_, Or.inl hsmall⟩
      simp only [List.mem_cons, List.not_mem_nil, or_false] at hsmall
      unfold binFull binHuge
      omega
    · exact ⟨by omega, Or.inr hle⟩

structure DirectRangeExact (b : ℕ) : Prop where
  last_le : (directRange b).2 ≤ smallWsizeMax
  last_bin : bin ((directRange b).2 * intptrSize) = b
  mem_iff : ∀ i < smallWsizeMax + 1,
    ((directRange b).1 ≤ i ∧ i ≤ (directRange b).2) ↔
      bin (i * intptrSize) = b

instance (b : ℕ) : Decidable (DirectRangeExact b) :=
  decidable_of_iff
    ((directRange b).2 ≤ smallWsizeMax ∧
      bin ((directRange b).2 * intptrSize) = b ∧
      ∀ i < smallWsizeMax + 1,
        ((directRange b).1 ≤ i ∧ i ≤ (directRange b).2) ↔
          bin (i * intptrSize) = b)
    ⟨fun h => ⟨h.1, h.2.1, h.2.2⟩, fun h => ⟨h.1, h.2, h.3⟩⟩

theorem directRange_exact {b : ℕ} (hb : ServedBin b)
    (hsmall : queueBlockSize b ≤ smallSizeMax) : DirectRangeExact b := by
  have hall : ∀ b < binFull + 1, (b ∈ [1, 2, 4, 6, 8] ∨ 9 ≤ b) →
      queueBlockSize b ≤ smallSizeMax → DirectRangeExact b := by
    decide +kernel
  have hcases := hb.cases
  exact hall b hcases.1 hcases.2 hsmall

theorem bin_small_ne {b i : ℕ} (hb : ServedBin b)
    (hlarge : smallSizeMax < queueBlockSize b) (hi : i ≤ smallWsizeMax) :
    bin (i * intptrSize) ≠ b := by
  have hall : ∀ b < binFull + 1, smallSizeMax < queueBlockSize b →
      ∀ i < smallWsizeMax + 1, bin (i * intptrSize) ≠ b := by
    decide +kernel
  exact hall b hb.cases.1 hlarge i (Nat.lt_succ_of_le hi)

end Palloc
