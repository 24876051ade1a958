import Palloc.SegmentReclaim

/-!
# Visiting abandoned segments

The pages of a thread that ends are freed or given up, one after the other.
Other threads take the mark off an abandoned segment, look at it, and either
keep it, free it or mark it again.

A cursor hands out the segments; here it is the list of the segments that it
will come to.  A segment whose mark is gone by then is passed over.
-/

namespace Palloc

/-! ## Giving pages up -/

/-- The first part of `_pa_page_abandon` and `_pa_page_free`: the page leaves
its queue and its heap. -/
def SegmentWorld.leaveHeap (w : SegmentWorld) (queue : ℕ × ℕ)
    (slice : SlicePtr) : SegmentWorld :=
  { w with
    queues := w.queues.pageQueueRemove queue slice.page
    st := w.st.setSlice slice
      { w.st.slices slice with xheap := none } }

/-- `_pa_page_abandon`. -/
def pageAbandon (cfg : Config) (purgeOption : Bool) (w : SegmentWorld)
    (tid : ℕ) (queue : ℕ × ℕ) (slice : SlicePtr) : Option SegmentWorld :=
  segmentPageAbandon cfg purgeOption (w.leaveHeap queue slice) tid slice

/-- `pa_segment_try_purge` on a segment of the world. -/
def SegmentWorld.tryPurge (w : SegmentWorld) (cfg : Config) (segment : ℕ)
    (force : Bool) : SegmentWorld :=
  let info := w.st.segments segment
  { w with
    st := w.st.setCommit segment
      (segmentTryPurge cfg info info.commit w.st.os segment force) }

/-- `_pa_segment_page_free`. -/
def segmentPageFree (cfg : Config) (purgeOption : Bool) (w : SegmentWorld)
    (tid : ℕ) (slice : SlicePtr) : Option SegmentWorld :=
  let w := { w with st := (segmentPageClear cfg w.st tid slice).2 }
  let info := w.st.segments slice.segment
  if info.used = 0 then segmentFree w tid slice.segment
  else if info.used = info.abandoned then
    segmentAbandon cfg purgeOption w tid slice.segment
  else some (w.tryPurge cfg slice.segment false)

/-- `_pa_page_free`. -/
def SegmentWorld.pageFree (w : SegmentWorld) (cfg : Config)
    (purgeOption : Bool) (tid : ℕ) (queue : ℕ × ℕ) (slice : SlicePtr) :
    Option SegmentWorld :=
  let w :=
    { w with
      st := w.st.setSlice slice
        { w.st.slices slice with hasAligned := false } }
  segmentPageFree cfg purgeOption (w.leaveHeap queue slice) tid slice

/-! ## One visit -/

structure VisitHeaps extends ReclaimHeaps where
  arenaId : ℕ → ℕ

/-- `_pa_heap_memid_is_suitable`. -/
def heapMemidIsSuitable (hp : VisitHeaps) (heap : ℕ) (memid : Memid) :
    Bool :=
  decide (arenaMemidIsSuitable memid (hp.arenaId heap))

/-- `_pa_arena_segment_clear_abandoned`. -/
def SegmentWorld.clearAbandoned (w : SegmentWorld) (segment : ℕ) :
    SegmentWorld :=
  { w with marked := Function.update w.marked segment false }

/-- What the loop of `pa_segment_try_reclaim` does next: it stops with a
result, or it goes on, and the visit counts as a try or not. -/
inductive VisitResult where
  | stop (result : Option ℕ) (reclaimed : Bool)
  | next (counts : Bool)
  deriving DecidableEq

/-- The body of the loop of `pa_segment_try_reclaim`. -/
def tryReclaimVisit (cfg : Config) (hp : VisitHeaps) (w : SegmentWorld)
    (tid heap neededSlices blockSize segment : ℕ) :
    Option (VisitResult × SegmentWorld) :=
  let info := w.st.segments segment
  let st := w.st.setSegment segment
    { info with abandonedVisits := info.abandonedVisits + 1 }
  let suitable := heapMemidIsSuitable hp heap info.memid
  match segmentCheckFree cfg st tid segment neededSlices blockSize with
  | none => none
  | some (st, hasPage) =>
      let w := { w with st := st }
      let info := st.segments segment
      if info.used = 0 then
        (segmentReclaim cfg hp.toReclaimHeaps w tid heap segment 0).map
          fun result => (.next true, result.2.2)
      else if hasPage && suitable then
        (segmentReclaim cfg hp.toReclaimHeaps w tid heap segment
          blockSize).map fun result =>
            (.stop (if result.1 then some segment else none) result.2.1,
              result.2.2)
      else if decide (3 < info.abandonedVisits) && suitable then
        (segmentReclaim cfg hp.toReclaimHeaps w tid heap segment 0).map
          fun result => (.next true, result.2.2)
      else
        some (.next false, (w.tryPurge cfg segment false).markAbandoned
          segment)

/-- The body of the loop of `_pa_abandoned_collect`. -/
def collectVisit (cfg : Config) (hp : VisitHeaps) (force : Bool)
    (w : SegmentWorld) (tid heap segment : ℕ) : Option SegmentWorld :=
  match segmentCheckFree cfg w.st tid segment 0 0 with
  | none => none
  | some (st, _) =>
      let w := { w with st := st }
      if (st.segments segment).used = 0 then
        (segmentReclaim cfg hp.toReclaimHeaps w tid heap segment 0).map
          fun result => result.2.2
      else some ((w.tryPurge cfg segment force).markAbandoned segment)

/-- `_pa_segment_attempt_reclaim`; `target` is the option
`target_segments_per_thread`, and `sameSubproc` tells that the segment is of
the sub-process of the thread. -/
def segmentAttemptReclaim (cfg : Config) (hp : VisitHeaps) (target : ℤ)
    (sameSubproc : Bool) (w : SegmentWorld) (tid heap segment : ℕ) :
    Option (Bool × SegmentWorld) :=
  let info := w.st.segments segment
  let tld := w.tlds tid
  if info.threadId ≠ 0 then some (false, w)
  else if ¬ sameSubproc then some (false, w)
  else if ¬ heapMemidIsSuitable hp heap info.memid then some (false, w)
  else if 0 < target ∧ target ≤ tld.count then some (false, w)
  else if info.memid.memkind = .arena ∧ tld.count < tld.reclaimCount * 2 then
    some (false, w)
  else if w.marked segment then
    (segmentReclaim cfg hp.toReclaimHeaps (w.clearAbandoned segment) tid heap
      segment 0).map fun result => (result.1, result.2.2)
  else some (false, w)

/-! ## The loops -/

/-- `segment_count_is_within_target`. -/
def SegmentsTld.withinTarget (tld : SegmentsTld) (target : ℤ) : Bool :=
  decide (target = 0 ∨ tld.count < target)

/-- The loop of `pa_segment_try_reclaim`: the segment and `reclaimed`. -/
def segmentTryReclaim (cfg : Config) (hp : VisitHeaps) (target : ℤ)
    (tid heap neededSlices blockSize : ℕ) :
    (cursor : List ℕ) → (maxTries : ℤ) → SegmentWorld →
      Option ((Option ℕ × Bool) × SegmentWorld)
  | [], _, w => some ((none, false), w)
  | segment :: cursor, maxTries, w =>
      if (w.tlds tid).withinTarget target && decide (0 < maxTries) then
        if w.marked segment then
          match tryReclaimVisit cfg hp (w.clearAbandoned segment) tid heap
              neededSlices blockSize segment with
          | none => none
          | some (.stop result reclaimed, w) => some ((result, reclaimed), w)
          | some (.next counts, w) =>
              segmentTryReclaim cfg hp target tid heap neededSlices blockSize
                cursor (if counts then maxTries - 1 else maxTries) w
        else
          segmentTryReclaim cfg hp target tid heap neededSlices blockSize
            cursor maxTries w
      else some ((none, false), w)

/-- The loop of `_pa_abandoned_collect`. -/
def abandonedCollect (cfg : Config) (hp : VisitHeaps) (force : Bool)
    (tid heap : ℕ) :
    (cursor : List ℕ) → (maxTries : ℤ) → SegmentWorld → Option SegmentWorld
  | [], _, w => some w
  | segment :: cursor, maxTries, w =>
      if 0 < maxTries then
        if w.marked segment then
          match collectVisit cfg hp force (w.clearAbandoned segment) tid heap
              segment with
          | none => none
          | some w =>
              abandonedCollect cfg hp force tid heap cursor (maxTries - 1) w
        else abandonedCollect cfg hp force tid heap cursor maxTries w
      else some w

/-- `_pa_abandoned_reclaim_all`. -/
def abandonedReclaimAll (cfg : Config) (hp : VisitHeaps) (tid heap : ℕ) :
    (cursor : List ℕ) → SegmentWorld → Option SegmentWorld
  | [], w => some w
  | segment :: cursor, w =>
      if w.marked segment then
        match segmentReclaim cfg hp.toReclaimHeaps (w.clearAbandoned segment)
            tid heap segment 0 with
        | none => none
        | some result => abandonedReclaimAll cfg hp tid heap cursor result.2.2
      else abandonedReclaimAll cfg hp tid heap cursor w

end Palloc
