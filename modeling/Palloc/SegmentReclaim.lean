import Palloc.IndexWalk
import Palloc.PageFreeLists
import Palloc.PageQueue
import Palloc.SegmentSpans
import Mathlib.Data.Nat.Pairing

/-!
# Abandoned segments

A thread that ends gives up its segments with the pages that still hold
blocks.  Other threads look at such a segment from time to time, free what
has become empty, and may take the segment over with its pages.

The functions walk over the slices of a segment while they free and merge
spans.  The page queues keep link fields of their own; a page is known there
by a number.
-/

namespace Palloc

open IndexWalk LinkedQueue

/-! ## State -/

def SlicePtr.page (slice : SlicePtr) : ℕ := Nat.pair slice.segment slice.idx

/-- The fields of `pa_segments_tld_t` that the code reads. -/
structure SegmentsTld where
  count : ℤ
  currentSize : ℤ
  reclaimCount : ℤ
  deriving Repr, DecidableEq

/-- `pa_segments_track_size`. -/
def SegmentsTld.trackSize (tld : SegmentsTld) (size : ℤ) : SegmentsTld :=
  { tld with
    count := tld.count + if 0 ≤ size then 1 else -1
    currentSize := tld.currentSize + size }

/-- The segments of all threads, the page queues of their heaps, and the
segments that are marked as abandoned.  `released` are the segments that went
back to their arena or to the operating system, the last one first. -/
structure SegmentWorld where
  st : State
  queues : PageQueues
  tlds : ℕ → SegmentsTld
  marked : ℕ → Bool
  released : List ℕ

namespace SegmentWorld

def setTld (w : SegmentWorld) (tid : ℕ) (tld : SegmentsTld) : SegmentWorld :=
  { w with tlds := Function.update w.tlds tid tld }

/-- `_pa_arena_segment_mark_abandoned`. -/
def markAbandoned (w : SegmentWorld) (segment : ℕ) : SegmentWorld :=
  { w with marked := Function.update w.marked segment true }

end SegmentWorld

/-! ## Freeing a segment -/

/-- The body of the loop of `pa_segment_free`. -/
def segmentFreeSpan (tid segment idx : ℕ) (st : State) :
    Option (ℕ × State) :=
  let slice : SlicePtr := ⟨segment, idx⟩
  let st :=
    if (st.slices slice).blockSize = 0 ∧
        (st.segments segment).kind ≠ .huge then
      segmentSpanRemoveFromQueue st tid slice
    else st
  some (idx + (st.slices slice).sliceCount, st)

/-- The thread local part of `pa_segment_os_free`. -/
def segmentOsFree (w : SegmentWorld) (tid segment : ℕ) : SegmentWorld :=
  let info := w.st.segments segment
  let tld := (w.tlds tid).trackSize (-(segmentByteSize info : ℤ))
  let tld :=
    if info.wasReclaimed then
      { tld with reclaimCount := tld.reclaimCount - 1 }
    else tld
  { w.setTld tid tld with
    st := w.st.setSegment segment
      { info with threadId := 0, wasReclaimed := false }
    released := segment :: w.released }

/-- `pa_segment_free`. -/
def segmentFree (w : SegmentWorld) (tid segment : ℕ) : Option SegmentWorld :=
  let info := w.st.segments segment
  if info.dontFree then some w
  else
    match walk info.sliceEntries (segmentFreeSpan tid segment)
        (info.sliceEntries + 1) 0 w.st with
    | none => none
    | some st => some (segmentOsFree { w with st := st } tid segment)

/-! ## Abandoning a segment -/

/-- The body of the loop of `pa_segment_abandon`. -/
def segmentAbandonSpan (tid segment idx : ℕ) (st : State) :
    Option (ℕ × State) :=
  let slice : SlicePtr := ⟨segment, idx⟩
  let st :=
    if (st.slices slice).blockSize = 0 then
      (segmentSpanRemoveFromQueue st tid slice).setBlockSize slice 0
    else st
  some (idx + (st.slices slice).sliceCount, st)

/-- `pa_segment_abandon`; `purgeOption` is the option
`abandoned_page_purge`. -/
def segmentAbandon (cfg : Config) (purgeOption : Bool) (w : SegmentWorld)
    (tid segment : ℕ) : Option SegmentWorld :=
  match walk (w.st.segments segment).sliceEntries
      (segmentAbandonSpan tid segment)
      ((w.st.segments segment).sliceEntries + 1) 0 w.st with
  | none => none
  | some st =>
      let info := st.segments segment
      let force := decide (info.memid.memkind ≠ .arena) || purgeOption
      let st := st.setCommit segment
        (segmentTryPurge cfg info info.commit st.os segment force)
      let tld := (w.tlds tid).trackSize (-(segmentByteSize info : ℤ))
      let tld :=
        if info.wasReclaimed then
          { tld with reclaimCount := tld.reclaimCount - 1 }
        else tld
      let st := st.setSegment segment
        { st.segments segment with
          threadId := 0
          abandonedVisits := 1
          wasReclaimed := false }
      some ({ w.setTld tid tld with st := st }.markAbandoned segment)

/-- `_pa_segment_page_abandon`. -/
def segmentPageAbandon (cfg : Config) (purgeOption : Bool)
    (w : SegmentWorld) (tid : ℕ) (page : SlicePtr) : Option SegmentWorld :=
  let info := w.st.segments page.segment
  let info := { info with abandoned := info.abandoned + 1 }
  let w := { w with st := w.st.setSegment page.segment info }
  if info.used = info.abandoned then
    segmentAbandon cfg purgeOption w tid page.segment
  else some w

/-! ## Visiting an abandoned segment -/

/-- `pa_page_has_any_available`. -/
def pageHasAnyAvailable (page : PageFields) : Bool :=
  decide (page.used < page.reserved) || page.xthreadFree.block.isSome

/-- `pa_slices_start_iterate`: the slice after the info span. -/
def slicesStartIterate (st : State) (segment : ℕ) : ℕ :=
  (st.slices ⟨segment, 0⟩).sliceCount

/-- A page of an abandoned segment is taken out of its count. -/
def State.unabandonPage (st : State) (segment : ℕ) : State :=
  let info := st.segments segment
  st.setSegment segment { info with abandoned := info.abandoned - 1 }

/-- The body of the loop of `pa_segment_check_free`; with the state goes
`has_page`. -/
def checkFreeSpan (cfg : Config) (tid segment slicesNeeded blockSize : ℕ)
    (idx : ℕ) (acc : State × Bool) : Option (ℕ × State × Bool) :=
  let (st, hasPage) := acc
  let slice : SlicePtr := ⟨segment, idx⟩
  if 0 < (st.slices slice).blockSize then
    match pageFreeCollect (st.slices slice) false with
    | none => none
    | some page =>
        let st := st.setSlice slice page
        if page.used = 0 then
          let (first, st) :=
            segmentPageClear cfg (st.unabandonPage segment) tid slice
          let count := (st.slices first).sliceCount
          some (first.idx + count, st, hasPage || decide (slicesNeeded ≤ count))
        else
          some (idx + page.sliceCount, st,
            hasPage || (page.blockSize == blockSize &&
              pageHasAnyAvailable page))
  else
    let count := (st.slices slice).sliceCount
    some (idx + count, st, hasPage || decide (slicesNeeded ≤ count))

/-- `pa_segment_check_free`. -/
def segmentCheckFree (cfg : Config) (st : State) (tid segment : ℕ)
    (slicesNeeded blockSize : ℕ) : Option (State × Bool) :=
  let stop := (st.segments segment).sliceEntries
  walk stop (checkFreeSpan cfg tid segment slicesNeeded blockSize) (stop + 1)
    (slicesStartIterate st segment) (st, false)

/-! ## Reclaiming a segment -/

/-- What a reclaim reads from the heaps of the thread: their tags, and the
heaps of the thread in the order of `tld->heaps`. -/
structure ReclaimHeaps where
  tag : ℕ → ℕ
  heaps : List ℕ

/-- `_pa_heap_by_tag`. -/
def heapByTag (hp : ReclaimHeaps) (heap tag : ℕ) : Option ℕ :=
  if hp.tag heap = tag then some heap
  else hp.heaps.find? fun curr => hp.tag curr = tag

def reclaimTarget (hp : ReclaimHeaps) (heap tag : ℕ) : ℕ :=
  (heapByTag hp heap tag).getD heap

/-- `pa_page_set_heap` and `_pa_page_use_delayed_free`, once no thread is
between the two steps of a delayed free of the page. -/
def PageFields.reclaimed (page : PageFields) (hp : ReclaimHeaps)
    (heap : ℕ) : PageFields :=
  { page with
    xheap := some heap
    heapTag := hp.tag heap
    xthreadFree := { page.xthreadFree with delayed := .useDelayedFree } }

/-- `_pa_page_reclaim`. -/
def pageReclaim (queues : PageQueues) (heap page blockSize : ℕ) :
    PageQueues :=
  { queues with
    xheap := Function.update queues.xheap page heap }.pageQueuePush heap
      (heap, bin blockSize) page

/-- The body of the loop of `pa_segment_reclaim`; with the state goes
`right_page_reclaimed`. -/
def reclaimSpan (cfg : Config) (hp : ReclaimHeaps)
    (tid heap segment blockSize : ℕ) (idx : ℕ)
    (acc : (State × PageQueues) × Bool) :
    Option (ℕ × (State × PageQueues) × Bool) :=
  let ((st, queues), right) := acc
  let slice : SlicePtr := ⟨segment, idx⟩
  if 0 < (st.slices slice).blockSize then
    let st := st.unabandonPage segment
    let target := reclaimTarget hp heap (st.slices slice).heapTag
    match pageFreeCollect ((st.slices slice).reclaimed hp target) false with
    | none => none
    | some page =>
        let st := st.setSlice slice page
        if page.used = 0 then
          let (first, st) := segmentPageClear cfg st tid slice
          some (first.idx + (st.slices first).sliceCount, (st, queues), right)
        else
          some (idx + page.sliceCount,
            (st, pageReclaim queues target slice.page page.blockSize),
            right || (blockSize == page.blockSize &&
              pageHasAnyAvailable page && heap == target))
  else
    let (first, st) := segmentSpanFreeCoalesce cfg st tid slice
    some (first.idx + (st.slices first).sliceCount, (st, queues), right)

/-- `pa_segment_reclaim`: whether the segment is still there, whether a page
with blocks of `blockSize` bytes was taken over, and the state. -/
def segmentReclaim (cfg : Config) (hp : ReclaimHeaps) (w : SegmentWorld)
    (tid heap segment blockSize : ℕ) : Option (Bool × Bool × SegmentWorld) :=
  let info := w.st.segments segment
  let tld := w.tlds tid
  let tld := { tld with reclaimCount := tld.reclaimCount + 1 }
  let tld := tld.trackSize (segmentByteSize info)
  let st := w.st.setSegment segment
    { info with threadId := tid, abandonedVisits := 0, wasReclaimed := true }
  match walk info.sliceEntries
      (reclaimSpan cfg hp tid heap segment blockSize) (info.sliceEntries + 1)
      (slicesStartIterate st segment) ((st, w.queues), false) with
  | none => none
  | some ((st, queues), right) =>
      let w := { w.setTld tid tld with st := st, queues := queues }
      if (st.segments segment).used = 0 then
        (segmentFree w tid segment).map fun w => (false, right, w)
      else some (true, right, w)

end Palloc
