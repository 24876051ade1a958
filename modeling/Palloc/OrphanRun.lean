import Palloc.ThreadAllocation
import Mathlib.Logic.Relation

/-!
# Threads with abandoned segments

The threads allocate segments and pages, work on their pages, free blocks of
the pages of others, give up and free pages, and visit abandoned segments, in
any order.  A visit first takes the mark off its segment, so that no other
thread comes to it; the others go on while it lasts, and may free blocks of
the segment.
-/

namespace Palloc

open LinkedQueue IntervalTiling Relation

/-- The segments and queues of all threads, with the live blocks of the page
that starts at a slice of a segment, and the thread that visits a segment. -/
structure ThreadsState where
  world : SegmentWorld
  live : ℕ → ℕ → List Addr
  visits : ℕ → Option ℕ

namespace ThreadsState

def visited (st : ThreadsState) : Set ℕ := {s | st.visits s ≠ none}

def setPage (st : ThreadsState) (slice : SlicePtr) (page : PageFields)
    (live : List Addr) : ThreadsState :=
  { st with
    world := { st.world with st := st.world.st.setSlice slice page }
    live := Function.update st.live slice.segment
      (Function.update (st.live slice.segment) slice.idx live) }

def setQueues (st : ThreadsState) (queues : PageQueues) : ThreadsState :=
  { st with world := { st.world with queues := queues } }

def beginVisit (st : ThreadsState) (tid segment : ℕ) : ThreadsState :=
  { st with
    world := st.world.clearAbandoned segment
    visits := Function.update st.visits segment (some tid) }

def endVisit (st : ThreadsState) (segment : ℕ) (w : SegmentWorld) :
    ThreadsState :=
  { st with
    world := w
    visits := Function.update st.visits segment none }

def Lawful (st : ThreadsState) (heapTid : ℕ → ℕ) (alive : Finset ℕ) : Prop :=
  st.world.Lawful st.visited st.live heapTid alive

end ThreadsState

/-- One step of one of the threads; `heapTid` gives the thread of a heap, and
`alive` holds the initialised heaps.  The memory of a new segment is that of
no other one, and the slice entry of a new page is as `pa_page_init` asserts. -/
inductive ThreadsStep (cfg : Config) (purgeOption : Bool) (heapTid : ℕ → ℕ)
    (alive : Finset ℕ) : ThreadsState → ThreadsState → Prop where
  | segmentAlloc {st : ThreadsState} {b : BlockBuild} {sizes : SegmentSizes}
      {tid segment : ℕ} {memid : Memid} (htid : tid ≠ 0)
      (hsizes : sizes.Usual)
      (hthread : (st.world.st.segments segment).threadId = 0)
      (hmarked : st.world.marked segment = false)
      (hvisit : st.visits segment = none) :
      ThreadsStep cfg purgeOption heapTid alive st
        { st with
          world := st.world.segmentAlloc cfg b sizes tid segment memid }
  | pageFreshAlloc {st : ThreadsState} {r : BitVec 64}
      {fuel tid heap heapTag reqArenaId blockSize : ℕ}
      {result : Option SlicePtr} {w : SegmentWorld} (htid : tid ≠ 0)
      (hheap : heap ∈ alive) (hheapTid : heapTid heap = tid)
      (hpos : 0 < blockSize)
      (hfresh : ∀ slice w, st.world.segmentPageAlloc cfg fuel tid reqArenaId
        blockSize = some (some slice, w) → FreshPage (w.st.slices slice))
      (hresult : st.world.pageFreshAlloc cfg r fuel tid heap heapTag
        reqArenaId blockSize = some (result, w)) :
      ThreadsStep cfg purgeOption heapTid alive st { st with world := w }
  | ownPage {st : ThreadsState} {slice : SlicePtr} {page : PageFields}
      {live : List Addr}
      (hthread : (st.world.st.segments slice.segment).threadId ≠ 0)
      (hhead : UsedHead st.world.st slice) (hidx : slice.idx ≠ 0)
      (hstep : PageStep cfg (st.world.st.slices slice)
        (st.live slice.segment slice.idx) page live) :
      ThreadsStep cfg purgeOption heapTid alive st
        (st.setPage slice page live)
  | remoteFree {st : ThreadsState} {slice : SlicePtr} {block : Addr}
      (hblock : block ∈ st.live slice.segment slice.idx)
      (hdelayed : (st.world.st.slices slice).xthreadFree.delayed ≠
        .useDelayedFree) :
      ThreadsStep cfg purgeOption heapTid alive st
        (st.setPage slice (freeBlockThread (st.world.st.slices slice) block)
          ((st.live slice.segment slice.idx).erase block))
  | moveToFront {st : ThreadsState} {heap bin page : ℕ} (hheap : heap ∈ alive)
      (hpage : st.world.queues.InQueue (heap, bin) page) :
      ThreadsStep cfg purgeOption heapTid alive st
        (st.setQueues
          (st.world.queues.pageQueueMoveToFront heap (heap, bin) page))
  | enqueueFrom {st : ThreadsState} {heap b c page : ℕ} {enqueueAtEnd : Bool}
      (hheap : heap ∈ alive) (hb : ServedBin b)
      (hpage : st.world.queues.InQueue (heap, c) page) :
      ThreadsStep cfg purgeOption heapTid alive st
        (st.setQueues (st.world.queues.pageQueueEnqueueFromEx (heap, b)
          (heap, c) enqueueAtEnd page))
  | purge {st : ThreadsState} {segment : ℕ} {force : Bool}
      (hthread : (st.world.st.segments segment).threadId ≠ 0) :
      ThreadsStep cfg purgeOption heapTid alive st
        { st with world := st.world.tryPurge cfg segment force }
  | pageAbandon {st : ThreadsState} {queue : ℕ × ℕ} {slice : SlicePtr}
      {w : SegmentWorld} (hheap : queue.1 ∈ alive)
      (hpage : st.world.queues.InQueue queue slice.page)
      (hresult : pageAbandon cfg purgeOption st.world (heapTid queue.1) queue
        slice = some w) :
      ThreadsStep cfg purgeOption heapTid alive st { st with world := w }
  | pageFree {st : ThreadsState} {queue : ℕ × ℕ} {slice : SlicePtr}
      {w : SegmentWorld} (hheap : queue.1 ∈ alive)
      (hpage : st.world.queues.InQueue queue slice.page)
      (hunused : (st.world.st.slices slice).used = 0)
      (hresult : st.world.pageFree cfg purgeOption (heapTid queue.1) queue
        slice = some w) :
      ThreadsStep cfg purgeOption heapTid alive st { st with world := w }
  | beginVisit {st : ThreadsState} {tid segment : ℕ}
      (hmarked : st.world.marked segment = true) :
      ThreadsStep cfg purgeOption heapTid alive st (st.beginVisit tid segment)
  | tryReclaim {st : ThreadsState} {hp : VisitHeaps}
      {tid heap neededSlices blockSize segment : ℕ} {result : VisitResult}
      {w : SegmentWorld}
      (hheaps : ThreadHeaps heapTid alive tid hp.toReclaimHeaps heap)
      (hvisit : st.visits segment = some tid)
      (hresult : tryReclaimVisit cfg hp st.world tid heap neededSlices
        blockSize segment = some (result, w)) :
      ThreadsStep cfg purgeOption heapTid alive st (st.endVisit segment w)
  | collect {st : ThreadsState} {hp : VisitHeaps} {tid heap segment : ℕ}
      {force : Bool} {w : SegmentWorld}
      (hheaps : ThreadHeaps heapTid alive tid hp.toReclaimHeaps heap)
      (hvisit : st.visits segment = some tid)
      (hresult : collectVisit cfg hp force st.world tid heap segment =
        some w) :
      ThreadsStep cfg purgeOption heapTid alive st (st.endVisit segment w)
  | attemptReclaim {st : ThreadsState} {hp : VisitHeaps}
      {tid heap segment : ℕ} {target : ℤ} {sameSubproc result : Bool}
      {w : SegmentWorld}
      (hheaps : ThreadHeaps heapTid alive tid hp.toReclaimHeaps heap)
      (hresult : segmentAttemptReclaim cfg hp target sameSubproc st.world tid
        heap segment = some (result, w)) :
      ThreadsStep cfg purgeOption heapTid alive st { st with world := w }
  | reclaim {st : ThreadsState} {hp : ReclaimHeaps}
      {tid heap segment blockSize : ℕ} {kept right : Bool} {w : SegmentWorld}
      (hheaps : ThreadHeaps heapTid alive tid hp heap)
      (hvisit : st.visits segment = some tid)
      (hresult : segmentReclaim cfg hp st.world tid heap segment blockSize =
        some (kept, right, w)) :
      ThreadsStep cfg purgeOption heapTid alive st (st.endVisit segment w)

section Steps

variable {w w' : SegmentWorld} {visited orphans' : Set ℕ}
  {live : ℕ → ℕ → List Addr} {heapTid : ℕ → ℕ} {alive : Finset ℕ}
  {tiles : ℕ → List (Tile SpanKind)} {lists : ℕ → ℕ → List SlicePtr}
  {qlists : ℕ × ℕ → List ℕ} {queue : ℕ × ℕ} {slice : SlicePtr} {segment : ℕ}

theorem ThreadsState.visited_begin (st : ThreadsState) (tid segment : ℕ) :
    (st.beginVisit tid segment).visited = insert segment st.visited := by
  ext s
  by_cases hs : s = segment
  · subst hs
    simp [visited, beginVisit]
  · simp [visited, beginVisit, hs]

theorem ThreadsState.visited_end (st : ThreadsState) (segment : ℕ)
    (w : SegmentWorld) :
    (st.endVisit segment w).visited = st.visited \ {segment} := by
  ext s
  by_cases hs : s = segment
  · subst hs
    simp [visited, endVisit]
  · simp [visited, endVisit, hs]

theorem ThreadsState.Lawful.endVisit {st : ThreadsState}
    (h : w.Lawful (st.visited \ {segment}) st.live heapTid alive) :
    (st.endVisit segment w).Lawful heapTid alive := by
  unfold ThreadsState.Lawful
  rw [ThreadsState.visited_end]
  exact h

/-- A segment that is given up is visited by no thread: before it was one of a
thread. -/
theorem AfterLeaving.lawful
    (hvisited : ∀ s ∈ visited, w.marked s = false)
    (hsegment : segment ∉ visited)
    (hafter : AfterLeaving w w' segment ({s | w.marked s = true} ∪ visited)
      orphans')
    (h : OrphanLaw w' orphans' live heapTid alive tiles lists qlists) :
    w'.Lawful visited live heapTid alive := by
  have horphans : {s | w'.marked s = true} ∪ visited = orphans' := by
    rcases hafter with ⟨hsame, rfl⟩ | ⟨hsame, rfl⟩
    · rw [hsame]
    · ext s
      by_cases hs : s = segment
      · simp [hsame, hs]
      · simp [hsame, hs]
  refine ⟨?_, tiles, lists, qlists, ?_⟩
  · intro s hs
    rcases hafter with ⟨hsame, -⟩ | ⟨hsame, -⟩
    · rw [hsame]
      exact hvisited s hs
    · have hne : s ≠ segment := by
        rintro rfl
        exact hsegment hs
      rw [hsame, Function.update_of_ne hne]
      exact hvisited s hs
  · rw [horphans]
    exact h

theorem OrphanLaw.queued_not_visited
    (h : OrphanLaw w ({s | w.marked s = true} ∪ visited) live heapTid alive
      tiles lists qlists) (hpage : slice.page ∈ qlists queue) :
    slice.segment ∉ visited :=
  fun hvisited => (h.queued queue slice hpage).thread_ne
    (h.orphan_threadId (.inr hvisited))

namespace SegmentWorld.Lawful

theorem pageAbandon (h : w.Lawful visited live heapTid alive)
    (hheap : queue.1 ∈ alive) (hpage : w.queues.InQueue queue slice.page)
    (cfg : Config) (purgeOption : Bool) :
    ∃ w', Palloc.pageAbandon cfg purgeOption w (heapTid queue.1) queue slice =
        some w' ∧ w'.Lawful visited live heapTid alive := by
  obtain ⟨hvisited, tiles, lists, qlists, hlaw⟩ := h
  have hmem := (hlaw.queues.inQueue_iff hheap).mp hpage
  obtain ⟨w', orphans', lists', qlists', hresult, hafter, hnew⟩ :=
    hlaw.pageAbandon hmem cfg purgeOption
  exact ⟨w', hresult,
    hafter.lawful hvisited (hlaw.queued_not_visited hmem) hnew⟩

theorem pageFree (h : w.Lawful visited live heapTid alive)
    (hheap : queue.1 ∈ alive) (hpage : w.queues.InQueue queue slice.page)
    (hunused : (w.st.slices slice).used = 0) (cfg : Config)
    (purgeOption : Bool) :
    ∃ w', w.pageFree cfg purgeOption (heapTid queue.1) queue slice =
        some w' ∧ w'.Lawful visited live heapTid alive := by
  obtain ⟨hvisited, tiles, lists, qlists, hlaw⟩ := h
  have hmem := (hlaw.queues.inQueue_iff hheap).mp hpage
  obtain ⟨w', orphans', tiles', lists', qlists', hresult, hafter, hnew⟩ :=
    hlaw.pageFree hmem hunused cfg purgeOption
  exact ⟨w', hresult,
    hafter.lawful hvisited (hlaw.queued_not_visited hmem) hnew⟩

/-- A step that changes no mark. -/
theorem sameMarks (h : w.Lawful visited live heapTid alive)
    (w' : SegmentWorld) (hmarked : w'.marked = w.marked)
    (live' : ℕ → ℕ → List Addr)
    (hstep : ∀ {tiles lists qlists},
      OrphanLaw w ({s | w.marked s = true} ∪ visited) live heapTid alive tiles
        lists qlists →
      ∃ tiles' lists' qlists',
        OrphanLaw w' ({s | w.marked s = true} ∪ visited) live' heapTid alive
          tiles' lists' qlists') :
    w'.Lawful visited live' heapTid alive := by
  obtain ⟨hvisited, tiles, lists, qlists, hlaw⟩ := h
  obtain ⟨tiles', lists', qlists', hnew⟩ := hstep hlaw
  unfold SegmentWorld.Lawful
  rw [hmarked]
  exact ⟨hvisited, tiles', lists', qlists', hnew⟩

end SegmentWorld.Lawful

/-- Only the page queues change, within what the law says of them. -/
theorem ThreadsState.Lawful.setQueues {st : ThreadsState}
    (h : st.Lawful heapTid alive) (queues : PageQueues)
    (hstep : ∀ {tiles lists qlists},
      OrphanLaw st.world ({s | st.world.marked s = true} ∪ st.visited)
        st.live heapTid alive tiles lists qlists →
      ∃ qlists', OrphanLaw { st.world with queues := queues }
        ({s | st.world.marked s = true} ∪ st.visited) st.live heapTid alive
        tiles lists qlists') : (st.setQueues queues).Lawful heapTid alive := by
  refine SegmentWorld.Lawful.sameMarks h (st.setQueues queues).world rfl _
    fun hlaw => ?_
  obtain ⟨qlists', hnew⟩ := hstep hlaw
  exact ⟨_, _, qlists', hnew⟩

theorem ThreadsStep.lawful {cfg : Config} {purgeOption : Bool}
    {st st' : ThreadsState} (h : st.Lawful heapTid alive)
    (hstep : ThreadsStep cfg purgeOption heapTid alive st st') :
    st'.Lawful heapTid alive := by
  have hworld : st.world.Lawful st.visited st.live heapTid alive := h
  have hmem : ∀ {segment tid}, st.visits segment = some tid →
      segment ∈ st.visited := by
    intro segment tid hvisit hnone
    rw [hvisit] at hnone
    cases hnone
  cases hstep with
  | segmentAlloc htid hsizes hthread hmarked hvisit =>
      refine hworld.sameMarks _ (by rw [SegmentWorld.segmentAlloc_marked])
        _ fun hlaw => ?_
      obtain ⟨tiles', lists', hnew⟩ := hlaw.segmentAlloc htid (by
        rintro (hne | hs | hs)
        · exact hne hthread
        · rw [Set.mem_ofPred_eq, hmarked] at hs
          cases hs
        · exact hs hvisit) hsizes cfg _ _
      exact ⟨tiles', lists', _, hnew⟩
  | pageFreshAlloc htid hheap hheapTid hpos hfresh hresult =>
      exact hworld.sameMarks _ (SegmentWorld.pageFreshAlloc_marked hresult)
        _ fun hlaw =>
          hlaw.pageFreshAlloc htid hheap hheapTid hpos hfresh hresult
  | ownPage hthread hhead hidx hstep =>
      refine hworld.sameMarks (st.setPage _ _ _).world rfl
        (st.setPage _ _ _).live fun hlaw => ?_
      exact ⟨_, _, _, hlaw.pageStep (.inl hthread)
        (hlaw.pageAt_of_usedHead hthread hhead hidx) hstep⟩
  | remoteFree hblock hdelayed =>
      refine hworld.sameMarks (st.setPage _ _ _).world rfl
        (st.setPage _ _ _).live fun hlaw => ?_
      obtain ⟨huse, hat⟩ := hlaw.live _ _ (List.ne_nil_of_mem hblock)
      have hstep : PageStep cfg _ _ _ _ := .freeThread hblock hdelayed
      exact ⟨_, _, _, hlaw.pageStep huse hat hstep⟩
  | moveToFront hheap hpage =>
      refine h.setQueues _ fun hlaw => ?_
      have hin := (hlaw.queues.inQueue_iff hheap).mp hpage
      exact hlaw.moveToFront hheap hin
  | enqueueFrom hheap hb hpage =>
      refine h.setQueues _ fun hlaw => ?_
      have hin := (hlaw.queues.inQueue_iff hheap).mp hpage
      exact hlaw.enqueueFromEx hheap hb hin _
  | purge hthread =>
      exact hworld.sameMarks (st.world.tryPurge cfg _ _) rfl _ fun hlaw =>
        ⟨_, _, _, hlaw.tryPurge cfg _ _⟩
  | pageAbandon hheap hpage hresult =>
      obtain ⟨w', hdone, hlaw⟩ :=
        hworld.pageAbandon hheap hpage cfg purgeOption
      rw [hdone] at hresult
      cases hresult
      exact hlaw
  | pageFree hheap hpage hunused hresult =>
      obtain ⟨w', hdone, hlaw⟩ :=
        hworld.pageFree hheap hpage hunused cfg purgeOption
      rw [hdone] at hresult
      cases hresult
      exact hlaw
  | beginVisit hmarked =>
      unfold ThreadsState.Lawful
      rw [ThreadsState.visited_begin]
      exact (hworld.takeMark hmarked).2
  | tryReclaim hheaps hvisit hresult =>
      obtain ⟨result, w', hdone, -, hlaw⟩ :=
        hworld.tryReclaimVisit (hmem hvisit) cfg hheaps _ _
      rw [hdone] at hresult
      cases hresult
      exact .endVisit hlaw
  | collect hheaps hvisit hresult =>
      obtain ⟨w', hdone, hlaw⟩ :=
        hworld.collectVisit (hmem hvisit) cfg hheaps _
      rw [hdone] at hresult
      cases hresult
      exact .endVisit hlaw
  | attemptReclaim hheaps hresult =>
      obtain ⟨result, w', hdone, hlaw⟩ :=
        hworld.attemptReclaim cfg hheaps _ _ _
      rw [hdone] at hresult
      cases hresult
      exact hlaw
  | reclaim hheaps hvisit hresult =>
      obtain ⟨kept, right, w', hdone, -, hlaw⟩ :=
        hworld.reclaim (hmem hvisit) cfg hheaps _
      rw [hdone] at hresult
      cases hresult
      exact .endVisit hlaw

theorem ThreadsStep.run_lawful {cfg : Config} {purgeOption : Bool}
    {start st : ThreadsState} (hstart : start.Lawful heapTid alive)
    (hrun : ReflTransGen (ThreadsStep cfg purgeOption heapTid alive) start
      st) : st.Lawful heapTid alive := by
  induction hrun with
  | refl => exact hstart
  | tail _ hstep ih => exact hstep.lawful ih

end Steps

/-! ## A segment that was left behind -/

def markedOrphan : ThreadsState where
  world := { orphanWorld with marked := fun s => decide (s = 1) }
  live := fun s => if s = 1 then orphanLive else fun _ => []
  visits := fun _ => none

def orphanVisitHeaps : VisitHeaps where
  heaps := [5]
  tag := fun _ => 0
  arenaId := fun _ => 0

theorem orphanVisitHeaps_thread :
    ThreadHeaps (fun _ => 2) {5} 2 orphanVisitHeaps.toReclaimHeaps 5 :=
  ⟨by decide, by simp, rfl, by simp [orphanVisitHeaps]⟩

theorem orphan_spans {tid : ℕ} (htid : tid ≠ 0)
    (tiles : ℕ → List (Tile SpanKind)) :
    SpanInvariant orphanState .idle tid ∅ tiles fun _ => [] := by
  have hlayout : SpanLayout orphanState tid ∅ tiles fun _ => [] := by
    refine ⟨htid, by simp, by simp, by simp, by simp, by simp, by simp,
      ⟨fun _ => .nil _, by simp⟩, by simp⟩
  refine ⟨hlayout, by simp, by simp, ?_, ?_⟩
  · intro slice hslice
    cases hslice
  · intro slice hslice
    cases hslice

theorem markedOrphan_lawful :
    markedOrphan.Lawful (fun _ => 2) {5} := by
  refine ⟨fun s hs => absurd rfl hs,
    fun s => if s = 1 then orphanTiles else [], fun _ _ => [],
    fun _ => [], ?_⟩
  have horphans : {s | markedOrphan.world.marked s = true} ∪
      markedOrphan.visited = {1} := by
    ext s
    simp [markedOrphan, ThreadsState.visited]
  rw [horphans]
  have hnone : ∀ s, (markedOrphan.world.st.segments s).threadId = 0 :=
    fun _ => rfl
  have hqueues : QueueLaw markedOrphan.world.queues {5} (aliveQueues {5})
      fun _ => [] := orphan_reclaimable.queues
  have hin : ∀ s, markedOrphan.world.InUse {1} s → s = 1 := by
    rintro s (hne | hs)
    · exact absurd (hnone s) hne
    · exact hs
  refine ⟨?_, ?_, fun _ _ => rfl, ?_, ?_, hqueues, by simp,
    fun s hs => absurd (hnone s) hs⟩
  · intro tid htid
    have howned : markedOrphan.world.ownedBy tid = ∅ := by
      ext s
      simp [SegmentWorld.ownedBy, hnone, htid.symm]
    rw [howned]
    exact orphan_spans htid _
  · rintro s rfl
    exact orphan_abandoned
  · intro s hs
    obtain rfl := hin s hs
    exact orphan_pages
  · intro s start hlive
    by_cases hs : s = 1
    · subst hs
      have hlive' : orphanLive start ≠ [] := hlive
      obtain rfl : start = 1 := by
        by_contra hstart
        exact hlive' (if_neg hstart)
      exact ⟨.inr rfl, one_ne_zero, ⟨1, 8, .used⟩,
        List.mem_cons_of_mem _ List.mem_cons_self, rfl, rfl⟩
    · exact absurd (congrFun (if_neg hs) start) hlive

/-! ## Runs -/

section Results

variable {cfg : Config} {purgeOption : Bool} {heapTid : ℕ → ℕ}
  {alive : Finset ℕ} {start st : ThreadsState}

/-- In every state that the threads reach, the spans of each thread tile its
segments and its span queues hold exactly the free ones; a segment that is
marked, or of which a visiting thread has taken the mark, is of no thread and
in no queue; every page with live blocks is still there, in a segment of a
thread or in an abandoned one, and has each of them once; the page queues hold
pages of the threads of their heaps, and a segment counts exactly the pages
that no queue holds as abandoned. -/
theorem threads_run_lawful (hstart : start.Lawful heapTid alive)
    (hrun : ReflTransGen (ThreadsStep cfg purgeOption heapTid alive) start
      st) :
    (∀ s, st.visits s ≠ none → st.world.marked s = false) ∧
    ∃ (tiles : ℕ → List (Tile SpanKind)) (lists : ℕ → ℕ → List SlicePtr)
      (qlists : ℕ × ℕ → List ℕ),
      (∀ tid, tid ≠ 0 → SpanInvariant st.world.st .idle tid
        {s | (st.world.st.segments s).threadId = tid} tiles (lists tid)) ∧
      (∀ s, st.world.marked s = true ∨ st.visits s ≠ none →
        AbandonedSegment st.world.st s (tiles s) ∧
          ∀ idx queue, (⟨s, idx⟩ : SlicePtr).page ∉ qlists queue) ∧
      (∀ s start, st.live s start ≠ [] →
        ((st.world.st.segments s).threadId ≠ 0 ∨
          st.world.marked s = true ∨ st.visits s ≠ none) ∧
        (∃ tile ∈ tiles s, tile.kind = .used ∧ tile.start = start) ∧
        ∃ free localFree thread,
          PagePartition (st.world.st.slices ⟨s, start⟩) (st.live s start)
            free localFree thread) ∧
      QueueLaw st.world.queues alive (aliveQueues alive) qlists ∧
      (∀ queue (slice : SlicePtr), slice.page ∈ qlists queue →
        (st.world.st.segments slice.segment).threadId = heapTid queue.1 ∧
          (st.world.st.slices slice).xheap = some queue.1) ∧
      ∀ s, (st.world.st.segments s).threadId ≠ 0 →
        ∃ gone : List ℕ, gone.Nodup ∧
          gone.length = (st.world.st.segments s).abandoned ∧
          ∀ start, start ∈ gone ↔
            (start ≠ 0 ∧ ∃ tile ∈ tiles s, tile.kind = .used ∧
              tile.start = start) ∧
            ∀ queue, (⟨s, start⟩ : SlicePtr).page ∉ qlists queue := by
  obtain ⟨hvisited, tiles, lists, qlists, hlaw⟩ :=
    ThreadsStep.run_lawful hstart hrun
  refine ⟨hvisited, tiles, lists, qlists, hlaw.threads, ?_, ?_, hlaw.queues,
    ?_, hlaw.givenUp⟩
  · exact fun s hs => ⟨hlaw.abandoned s hs, hlaw.orphan_unqueued hs⟩
  · intro s idx hlive
    obtain ⟨huse, hidx, tile, htile, hused, rfl⟩ := hlaw.live s idx hlive
    exact ⟨huse, ⟨tile, htile, hused, rfl⟩,
      hlaw.pages s huse tile htile hused hidx⟩
  · intro queue slice hpage
    have hqueued := hlaw.queued queue slice hpage
    exact ⟨hqueued.thread, hqueued.xheap⟩

theorem threads_run_orphan : ∃ st,
    ReflTransGen (ThreadsStep {} false (fun _ => 2) {5}) markedOrphan st ∧
    st.live = markedOrphan.live ∧ st.world.marked 1 = false ∧
    (st.world.st.segments 1).threadId ≠ 0 := by
  have hmarked : markedOrphan.world.marked 1 = true := rfl
  have hlawful : markedOrphan.world.Lawful markedOrphan.visited
      markedOrphan.live (fun _ => 2) {5} := markedOrphan_lawful
  obtain ⟨kept, right, w, hresult, hmarks, -⟩ :=
    (hlawful.takeMark hmarked).2.reclaim (Set.mem_insert _ _) {}
      orphanVisitHeaps_thread 0
  let taken := markedOrphan.beginVisit 2 1
  have hrun : ReflTransGen (ThreadsStep {} false (fun _ => 2) {5})
      markedOrphan (taken.endVisit 1 w) :=
    .tail (.single (.beginVisit hmarked))
      (.reclaim orphanVisitHeaps_thread
        (by simp [ThreadsState.beginVisit]) hresult)
  have hgone : w.marked 1 = false := by
    rw [hmarks]
    simp [SegmentWorld.clearAbandoned]
  have hfree : (taken.endVisit 1 w).visits 1 = none := by
    simp [ThreadsState.endVisit]
  obtain ⟨-, tiles, lists, qlists, -, -, hlive, -⟩ :=
    threads_run_lawful markedOrphan_lawful hrun
  obtain ⟨huse, -⟩ := hlive 1 1 (List.cons_ne_nil _ _)
  refine ⟨_, hrun, rfl, hgone, huse.resolve_right ?_⟩
  rintro (hmark | hvisit)
  · exact Bool.false_ne_true (hgone.symm.trans hmark)
  · exact hvisit hfree

/-- In every state that the threads reach, the loops over abandoned segments
end, and the threads can go on from there.  The segment that
`pa_segment_try_reclaim` returns is of the calling thread, and after
`_pa_abandoned_reclaim_all` none of the segments it came to is marked. -/
theorem threads_run_loops (hstart : start.Lawful heapTid alive)
    (hrun : ReflTransGen (ThreadsStep cfg purgeOption heapTid alive) start st)
    {hp : VisitHeaps} {tid heap : ℕ}
    (hheaps : ThreadHeaps heapTid alive tid hp.toReclaimHeaps heap)
    (target maxTries : ℤ) (force : Bool) (neededSlices blockSize : ℕ)
    (cursor : List ℕ) :
    (∃ result reclaimed w, segmentTryReclaim cfg hp target tid heap
        neededSlices blockSize cursor maxTries st.world =
          some ((result, reclaimed), w) ∧
      (∀ s, result = some s →
        s ∈ cursor ∧ (w.st.segments s).threadId = tid) ∧
      ({ st with world := w } : ThreadsState).Lawful heapTid alive) ∧
    (∃ w, abandonedCollect cfg hp force tid heap cursor maxTries st.world =
        some w ∧
      ({ st with world := w } : ThreadsState).Lawful heapTid alive) ∧
    ∃ w, abandonedReclaimAll cfg hp tid heap cursor st.world = some w ∧
      (∀ s, w.marked s = true ↔ st.world.marked s = true ∧ s ∉ cursor) ∧
      ({ st with world := w } : ThreadsState).Lawful heapTid alive := by
  have hlaw : st.world.Lawful st.visited st.live heapTid alive :=
    ThreadsStep.run_lawful hstart hrun
  exact ⟨hlaw.segmentTryReclaim cfg hheaps target neededSlices blockSize
      cursor maxTries,
    hlaw.abandonedCollect cfg hheaps force cursor maxTries,
    hlaw.abandonedReclaimAll cfg hheaps cursor⟩

theorem threads_run_loops_orphan : ∃ w,
    abandonedReclaimAll {} orphanVisitHeaps 2 5 [1] markedOrphan.world =
      some w ∧ w.marked 1 = false := by
  have hrun : ReflTransGen (ThreadsStep {} false (fun _ => 2) {5})
      markedOrphan markedOrphan := .refl
  obtain ⟨-, -, w, hresult, hmarks, -⟩ := threads_run_loops
    markedOrphan_lawful hrun orphanVisitHeaps_thread 0 8 true 1 1024 [1]
  refine ⟨w, hresult, ?_⟩
  rw [← Bool.not_eq_true, hmarks]
  simp

end Results

end Palloc
