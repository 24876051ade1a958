import Palloc.SegmentCommit

/-!
# Spans of slices

A span is a maximal range of slices with one head: the slices of a page, or a
free range that is linked in the span queue of its size.  This file embeds
the functions of `segment.c` that take spans from the queues, split them,
turn them into pages, free and coalesce them, and extend a page in place.

Offsets between slice entries are counted in entries.  The thread local
`spans` array is chosen by the thread `tid` that runs the function.
-/

namespace Palloc

open LinkedQueue

/-! ## Bins and queues -/

/-- `pa_slice_bin8`. -/
def sliceBin (sliceCount : ℕ) : ℕ :=
  if sliceCount ≤ 1 then sliceCount
  else
    let n := sliceCount - 1
    let s := Nat.log2 n
    if s ≤ 2 then n + 1 else ((s <<< 2) ||| ((n >>> (s - 2)) &&& 3)) - 4

example : sliceBin slicesPerSegment ≤ segmentBinMax := by decide

def PageFields.withSpan (page : PageFields)
    (sliceCount sliceOffset blockSize : ℕ) : PageFields :=
  { page with
    sliceCount := sliceCount
    sliceOffset := sliceOffset
    blockSize := blockSize }

@[simp] theorem PageFields.withSpan_sliceCount (page : PageFields)
    (n m b : ℕ) : (page.withSpan n m b).sliceCount = n := rfl

@[simp] theorem PageFields.withSpan_sliceOffset (page : PageFields)
    (n m b : ℕ) : (page.withSpan n m b).sliceOffset = m := rfl

@[simp] theorem PageFields.withSpan_blockSize (page : PageFields)
    (n m b : ℕ) : (page.withSpan n m b).blockSize = b := rfl

/-- Set `block_size` of an entry. -/
def State.setBlockSize (st : State) (slice : SlicePtr) (blockSize : ℕ) :
    State :=
  let page := st.slices slice
  st.setSlice slice
    (page.withSpan page.sliceCount page.sliceOffset blockSize)

/-- `pa_span_queue_push`. -/
def spanQueuePush (st : State) (tid bin : ℕ) (slice : SlicePtr) : State :=
  let ends := st.spans tid bin
  State.setBlockSize
    { st with
      links := pushLinks st.links ends slice
      spans := Function.update st.spans tid
        (Function.update (st.spans tid) bin (pushEnds ends slice)) }
    slice 0

/-- `pa_span_queue_delete`. -/
def spanQueueDelete (st : State) (tid bin : ℕ) (slice : SlicePtr) : State :=
  let ends := st.spans tid bin
  State.setBlockSize
    { st with
      links := deleteLinks st.links slice
      spans := Function.update st.spans tid
        (Function.update (st.spans tid) bin
          (deleteEnds st.links ends slice)) }
    slice 1

/-- `pa_segment_span_remove_from_queue`. -/
def segmentSpanRemoveFromQueue (st : State) (tid : ℕ) (slice : SlicePtr) :
    State :=
  spanQueueDelete st tid (sliceBin (st.slices slice).sliceCount) slice

/-! ## Freeing spans -/

def State.setFreeSpan (st : State) (segment idx count : ℕ) : State :=
  let head : SlicePtr := ⟨segment, idx⟩
  let stop := (st.segments segment).sliceEntries
  let last : SlicePtr :=
    ⟨segment, if stop < idx + count - 1 then stop else idx + count - 1⟩
  let page := st.slices head
  let st := st.setSlice head (page.withSpan count 0 page.blockSize)
  if 1 < count then
    st.setSlice last ((st.slices last).withSpan 0 (count - 1) 0)
  else st

/-- The commit fields of a segment after a call that changes only these. -/
def State.setCommit (st : State) (segment : ℕ)
    (result : CommitState × Os) : State :=
  { st.setSegment segment ((st.segments segment).withCommit result.1) with
    os := result.2 }

/-- `pa_segment_span_free`. -/
def segmentSpanFree (cfg : Config) (st : State) (tid segment idx : ℕ)
    (sliceCount : ℕ) (allowPurge : Bool) : State :=
  let info := st.segments segment
  let sq :=
    if info.kind = .huge ∨ info.threadId = 0 then none
    else some (sliceBin sliceCount)
  let count := if sliceCount = 0 then 1 else sliceCount
  let slice : SlicePtr := ⟨segment, idx⟩
  let st := st.setFreeSpan segment idx count
  let st :=
    if allowPurge then
      st.setCommit segment
        (segmentSchedulePurge cfg info st.os segment slice.start
          (count * segmentSliceSize))
    else st
  match sq with
  | some bin => spanQueuePush st tid bin slice
  | none => st.setBlockSize slice 0

/-- `pa_slice_first`. -/
def State.sliceFirst (st : State) (slice : SlicePtr) : SlicePtr :=
  ⟨slice.segment, slice.idx - (st.slices slice).sliceOffset⟩

/-- The first part of `pa_segment_span_free_coalesce`: take a free span that
follows the `count` slices from `slice` on, and return the total count. -/
def coalesceNext (st : State) (tid : ℕ) (slice : SlicePtr) (count : ℕ) :
    ℕ × State :=
  let info := st.segments slice.segment
  let next : SlicePtr := ⟨slice.segment, slice.idx + count⟩
  if next.idx < info.sliceEntries ∧ (st.slices next).blockSize = 0 then
    (count + (st.slices next).sliceCount,
      if info.threadId = 0 then st
      else segmentSpanRemoveFromQueue st tid next)
  else (count, st)

/-- The second part: take a free span before `slice`. -/
def coalescePrev (st : State) (tid : ℕ) (slice : SlicePtr) (count : ℕ) :
    SlicePtr × ℕ × State :=
  let info := st.segments slice.segment
  if slice.idx = 0 then (slice, count, st)
  else
    let prev := st.sliceFirst ⟨slice.segment, slice.idx - 1⟩
    if (st.slices prev).blockSize = 0 then
      let page := st.slices slice
      let total := count + (st.slices prev).sliceCount
      let st := st.setSlice slice
        (page.withSpan 0 (slice.idx - prev.idx) page.blockSize)
      (prev, total,
        if info.threadId = 0 then st
        else segmentSpanRemoveFromQueue st tid prev)
    else (slice, count, st)

/-- `pa_segment_span_free_coalesce`. -/
def segmentSpanFreeCoalesce (cfg : Config) (st : State) (tid : ℕ)
    (slice : SlicePtr) : SlicePtr × State :=
  if (st.segments slice.segment).kind = .huge then
    (slice, st.setBlockSize slice 0)
  else
    let (count, st) :=
      coalesceNext st tid slice (st.slices slice).sliceCount
    let (slice, count, st) := coalescePrev st tid slice count
    (slice,
      segmentSpanFree cfg st tid slice.segment slice.idx count true)

/-! ## Turning spans into pages -/

/-- Write the back offsets `offset, offset + 1, ...` to `count` entries from
index `first` on. -/
def setBackOffsets (slices : SlicePtr → PageFields)
    (segment first offset : ℕ) : ℕ → SlicePtr → PageFields
  | 0 => slices
  | count + 1 =>
      let slices := setBackOffsets slices segment first offset count
      let slice : SlicePtr := ⟨segment, first + count⟩
      Function.update slices slice
        ((slices slice).withSpan 0 (offset + count) 1)

/-- The entries of a page of `count` slices, as `pa_segment_span_allocate`
writes them. -/
def State.setUsedSpan (st : State) (segment idx count : ℕ)
    (isZeroInit : Bool) : State :=
  let info := st.segments segment
  let head : SlicePtr := ⟨segment, idx⟩
  let st := st.setSlice head
    ((st.slices head).withSpan count 0 (count * segmentSliceSize))
  let extra :=
    if maxSliceOffsetCount < count - 1 then maxSliceOffsetCount
    else count - 1
  let extra :=
    if info.sliceEntries ≤ idx + extra then info.sliceEntries - idx - 1
    else extra
  let st :=
    { st with slices := setBackOffsets st.slices segment (idx + 1) 1 extra }
  let last := idx + count - 1
  let last := if info.sliceEntries < last then info.sliceEntries else last
  let st :=
    if idx < last then
      let slice : SlicePtr := ⟨segment, last⟩
      st.setSlice slice ((st.slices slice).withSpan 0 (last - idx) 1)
    else st
  st.setSlice head
    { st.slices head with
      isCommitted := true
      isZeroInit := isZeroInit
      isHuge := info.kind = .huge }

/-- `pa_segment_span_allocate`: whether the span became a page. -/
def segmentSpanAllocate (cfg : Config) (st : State)
    (segment idx sliceCount : ℕ) : Bool × State :=
  let info := st.segments segment
  let slice := st.slices ⟨segment, idx⟩
  let result := segmentEnsureCommitted cfg info st.os segment
    (segmentPageStartFromSlice segment idx slice.sliceCount 0).1
    (sliceCount * segmentSliceSize)
  let st := st.setCommit segment (result.commit, result.os)
  if result.ok then
    let st := st.setUsedSpan segment idx sliceCount
      (info.freeIsZero || result.isZero)
    let info := st.segments segment
    (true, st.setSegment segment (info.withUsed (info.used + 1)))
  else (false, st)

/-- `pa_segment_slice_split`. -/
def segmentSliceSplit (cfg : Config) (st : State) (tid : ℕ)
    (slice : SlicePtr) (sliceCount : ℕ) : State :=
  let total := (st.slices slice).sliceCount
  if total ≤ sliceCount then st
  else
    let st := segmentSpanFree cfg st tid slice.segment
      (slice.idx + sliceCount) (total - sliceCount) false
    let page := st.slices slice
    st.setSlice slice
      (page.withSpan sliceCount page.sliceOffset page.blockSize)

/-- `_pa_arena_memid_is_suitable`; arena id 0 is no arena. -/
def arenaMemidIsSuitable (memid : Memid) (reqArenaId : ℕ) : Prop :=
  if memid.memkind = .arena then
    (memid.isExclusive = false ∧ reqArenaId = 0) ∨ memid.arenaId = reqArenaId
  else reqArenaId = 0

instance (memid : Memid) (reqArenaId : ℕ) :
    Decidable (arenaMemidIsSuitable memid reqArenaId) := by
  unfold arenaMemidIsSuitable
  infer_instance

/-- The inner loop of `pa_segments_page_find_and_allocate`: the first span of
a queue that is large enough and in suitable memory.  The outer `none` means
that the queue has more than `fuel` spans. -/
def findInQueue (st : State) (sliceCount reqArenaId : ℕ) :
    (fuel : ℕ) → Option SlicePtr → Option (Option SlicePtr)
  | _, none => some none
  | 0, some _ => none
  | fuel + 1, some slice =>
      if sliceCount ≤ (st.slices slice).sliceCount ∧
          arenaMemidIsSuitable (st.segments slice.segment).memid reqArenaId
      then some (some slice)
      else findInQueue st sliceCount reqArenaId fuel (st.links.next slice)

/-- The outer loop, over `bins` bins from `bin` on. -/
def findSpan (st : State) (tid sliceCount reqArenaId fuel : ℕ) :
    (bins : ℕ) → (bin : ℕ) → Option (Option (ℕ × SlicePtr))
  | 0, _ => some none
  | bins + 1, bin =>
      match findInQueue st sliceCount reqArenaId fuel
          (st.spans tid bin).first with
      | none => none
      | some (some slice) => some (some (bin, slice))
      | some none => findSpan st tid sliceCount reqArenaId fuel bins (bin + 1)

/-- The part of `pa_segments_page_find_and_allocate` after a span is found:
its page, or nothing when the commit fails. -/
def allocateFound (cfg : Config) (st : State) (tid bin : ℕ)
    (slice : SlicePtr) (sliceCount : ℕ) : Option SlicePtr × State :=
  let st := spanQueueDelete st tid bin slice
  let st :=
    if sliceCount < (st.slices slice).sliceCount then
      segmentSliceSplit cfg st tid slice sliceCount
    else st
  let (ok, st) := segmentSpanAllocate cfg st slice.segment slice.idx
    (st.slices slice).sliceCount
  if ok then (some slice, st)
  else (none, (segmentSpanFreeCoalesce cfg st tid slice).2)

/-- `pa_segments_page_find_and_allocate`. -/
def segmentsPageFindAndAllocate (cfg : Config) (fuel : ℕ) (st : State)
    (tid sliceCount reqArenaId : ℕ) : Option (Option SlicePtr × State) :=
  let bin := sliceBin sliceCount
  let sliceCount := if sliceCount = 0 then 1 else sliceCount
  match findSpan st tid sliceCount reqArenaId fuel
      (segmentBinMax + 1 - bin) bin with
  | none => none
  | some none => some (none, st)
  | some (some (bin, slice)) =>
      some (allocateFound cfg st tid bin slice sliceCount)

/-! ## Freeing and extending pages -/

/-- The page data that `pa_segment_page_clear` leaves: everything from
`capacity` on is zero, except `block_size` and the heap tag. -/
def PageFields.clear (page : PageFields) : PageFields :=
  { PageFields.zero with
    sliceCount := page.sliceCount
    sliceOffset := page.sliceOffset
    isCommitted := page.isCommitted
    isHuge := page.isHuge
    retireExpire := page.retireExpire
    blockSize := 1
    heapTag := page.heapTag
    links := page.links }

/-- `pa_segment_page_clear`. -/
def segmentPageClear (cfg : Config) (st : State) (tid : ℕ)
    (slice : SlicePtr) : SlicePtr × State :=
  let st :=
    { st.setSlice slice (st.slices slice).clear with
      links := (st.links.setNext (some slice) none).setPrev (some slice)
        none }
  let (first, st) := segmentSpanFreeCoalesce cfg st tid slice
  let info := st.segments slice.segment
  (first, st.setSegment slice.segment
    { info with used := info.used - 1, freeIsZero := false })

/-- The first changes of `_pa_segment_try_extend_span`: take the free span
`next` and give back the slices that are not needed. -/
def extendTaken (cfg : Config) (st : State) (tid : ℕ) (next : SlicePtr)
    (needSlices : ℕ) : State :=
  let st := segmentSpanRemoveFromQueue st tid next
  let tail := (st.slices next).sliceCount - needSlices
  if 0 < tail then
    segmentSpanFree cfg st tid next.segment (next.idx + needSlices) tail
      false
  else st

def State.setExtended (st : State) (page : SlicePtr)
    (current needSlices : ℕ) : State :=
  let info := st.segments page.segment
  let st :=
    { st with
      slices := setBackOffsets st.slices page.segment (page.idx + current)
        current needSlices }
  let last := page.idx + current + needSlices - 1
  let st :=
    if last ≤ info.sliceEntries then
      let slice : SlicePtr := ⟨page.segment, last⟩
      let entry := st.slices slice
      st.setSlice slice
        (entry.withSpan entry.sliceCount (current + needSlices - 1)
          entry.blockSize)
    else st
  let entry := st.slices page
  st.setSlice page
    (entry.withSpan (current + needSlices) entry.sliceOffset
      ((current + needSlices) * segmentSliceSize))

/-- `_pa_segment_try_extend_span`: whether the page was extended. -/
def segmentTryExtendSpan (cfg : Config) (st : State) (tid : ℕ)
    (page : SlicePtr) (needSlices : ℕ) : Bool × State :=
  let segment := page.segment
  let info := st.segments segment
  let current := (st.slices page).sliceCount
  let next : SlicePtr := ⟨segment, page.idx + current⟩
  if info.sliceEntries < page.idx + current + needSlices then (false, st)
  else if (st.slices next).blockSize ≠ 0 then (false, st)
  else if (st.slices next).sliceCount = 0 ∨
      (st.slices next).sliceCount < needSlices then (false, st)
  else
    let st := extendTaken cfg st tid next needSlices
    let result := segmentEnsureCommitted cfg (st.segments segment) st.os
      segment next.start (needSlices * segmentSliceSize)
    let st := st.setCommit segment (result.commit, result.os)
    if result.ok then (true, st.setExtended page current needSlices)
    else (false, st)

end Palloc
