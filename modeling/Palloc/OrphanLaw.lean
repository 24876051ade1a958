import Palloc.AbandonedVisit
import Palloc.InteriorPointer
import Palloc.SegmentReclaimRun

/-!
# Segments that change hands

Every segment in use either belongs to one thread or is abandoned and marked.
`OrphanLaw` says this of all threads at once, with the pages of the segments,
their live blocks and the page queues.  While a thread visits a segment the
mark is gone, so the law names the abandoned segments apart from the marks.
-/

namespace Palloc

open IndexWalk LinkedQueue IntervalTiling

/-! ## What a thread leaves alone -/

section Frame

variable {st st' : State} {tid t segment other : ℕ} {own owned : Set ℕ}
  {tiles : ℕ → List (Tile SpanKind)} {lists : ℕ → List SlicePtr}
  {ts : List (Tile SpanKind)}

theorem SpanEntry.frame (hwrites : WritesOnly st st' tid segment own)
    (hother : other ≠ segment) {tile : Tile SpanKind}
    (h : SpanEntry st other tile) (hcount : 0 < tile.count) :
    SpanEntry st' other tile := by
  apply h.congr hcount
  intro i _ _
  rw [hwrites.slices ⟨other, i⟩ hother]
  exact .refl _

theorem SpanInvariant.frame
    (h : SpanInvariant st .idle t owned tiles lists)
    (hwrites : WritesOnly st st' tid segment own) (ht : t ≠ tid)
    (hsegment : segment ∉ owned) (hapart : ∀ s ∈ owned, s ∉ own) :
    SpanInvariant st' .idle t owned tiles lists := by
  have hne : ∀ s ∈ owned, s ≠ segment := by
    rintro s hs rfl
    exact hsegment hs
  have hsegments : ∀ s ∈ owned, st'.segments s = st.segments s :=
    fun s hs => hwrites.segments s (hne s hs)
  refine ⟨⟨h.layout.thread_ne, ?_, ?_, ?_, ?_, h.layout.info, h.layout.apart,
    ?_, h.layout.mem_queue⟩, ?_, h.detached, ?_, ?_⟩
  · intro s hs
    rw [hsegments s hs]
    exact h.layout.kind s hs
  · intro s hs
    rw [hsegments s hs]
    exact h.layout.threadId s hs
  · intro s hs
    rw [hsegments s hs]
    exact h.layout.tiled s hs
  · intro s hs tile htile
    exact (h.layout.entry s hs tile htile).frame hwrites (hne s hs)
      (h.layout.count_pos hs htile)
  · rw [hwrites.spans t ht]
    apply h.layout.queues.congr
    intro bin slice hslice
    have hs := ((h.layout.mem_queue bin slice).mp hslice).1
    exact hwrites.links slice (hapart _ hs)
  · intro s hs
    rw [hsegments s hs]
    exact h.used s hs
  · intro slice hslice
    cases hslice
  · intro slice hslice
    cases hslice

/-- Data of the pages and the segments that the structure does not need. -/
theorem SpanInvariant.congrSpans
    (h : SpanInvariant st .idle t owned tiles lists)
    (hslices : ∀ slice, SameSpan (st.slices slice) (st'.slices slice))
    (hheader : ∀ s ∈ owned, SameHeader (st.segments s) (st'.segments s))
    (hlinks : st'.links = st.links) (hspans : st'.spans = st.spans)
    (hused : ∀ s ∈ owned, (st'.segments s).used = (st.segments s).used) :
    SpanInvariant st' .idle t owned tiles lists := by
  refine ⟨h.layout.congr hslices hheader hlinks (by rw [hspans]), ?_,
    h.detached, ?_, ?_⟩
  · intro s hs
    rw [hused s hs]
    exact h.used s hs
  · intro slice hslice
    cases hslice
  · intro slice hslice
    cases hslice

theorem AbandonedSegment.frame (h : AbandonedSegment st other ts)
    (hwrites : WritesOnly st st' tid segment own) (hother : other ≠ segment)
    (hown : other ∉ own) : AbandonedSegment st' other ts := by
  have hself := hwrites.segments other hother
  have hentry : ∀ tile ∈ ts, SpanEntry st' other tile :=
    fun tile htile => (h.entry tile htile).frame hwrites hother
      (h.tiled.bounds htile).2.1
  refine ⟨?_, ?_, ?_, h.kinds, hentry, h.info, h.apart, ?_, ?_, ?_⟩
  · rw [hself]
    exact h.kind
  · rw [hself]
    exact h.threadId
  · rw [hself]
    exact h.tiled
  · intro tile htile hfree
    have hold := h.parked tile htile hfree
    obtain ⟨hnext, hprev⟩ := hwrites.links ⟨other, tile.start⟩ hown
    exact ⟨(hentry tile htile).free hfree, hnext.trans hold.next,
      hprev.trans hold.prev⟩
  · rw [hself]
    exact h.used
  · rw [hself]
    exact h.abandoned

theorem WritesOnly.of_slice {slice : SlicePtr}
    (hother : ∀ other, other ≠ slice → st'.slices other = st.slices other)
    (hsegments : ∀ s, s ≠ slice.segment → st'.segments s = st.segments s)
    (hlinks : st'.links = st.links) (hspans : st'.spans = st.spans) :
    WritesOnly st st' tid slice.segment own := by
  refine ⟨?_, hsegments, ?_, ?_⟩
  · intro other hne
    apply hother
    rintro rfl
    exact hne rfl
  · intro other _
    rw [hlinks]
    exact ⟨rfl, rfl⟩
  · intro t _
    rw [hspans]

theorem HoldsPages.frame {live : ℕ → List Addr}
    (h : HoldsPages st other live ts)
    (hwrites : WritesOnly st st' tid segment own) (hother : other ≠ segment) :
    HoldsPages st' other live ts := by
  intro tile htile hused hfirst
  rw [hwrites.slices ⟨other, tile.start⟩ hother]
  exact h tile htile hused hfirst

end Frame

/-! ## The heap of a page -/

theorem PagePartition.setXheap {page : PageFields}
    {live free localFree thread : List Addr}
    (h : PagePartition page live free localFree thread) (xheap : Option ℕ) :
    PagePartition { page with xheap := xheap } live free localFree thread where
  free_chain := h.free_chain
  local_chain := h.local_chain
  thread_chain := h.thread_chain
  blocks := h.blocks
  used_eq := h.used_eq
  capacity_le := h.capacity_le
  reserved_lt := h.reserved_lt
  blockSize_pos := h.blockSize_pos

theorem pageExtendFree_xheap {cfg : Config} {r : BitVec 64}
    {page page' : PageFields} (h : pageExtendFree cfg r page = some page') :
    page'.xheap = page.xheap := by
  unfold pageExtendFree at h
  split at h
  · cases h
    rfl
  split at h
  · cases h
    rfl
  dsimp only at h
  split at h
  · cases h
  · rename_i p hextended
    cases h
    split at hextended
    · unfold pageFreeListExtend at hextended
      dsimp only at hextended
      split at hextended
      · cases hextended
      · cases hextended
        rfl
    · unfold pageFreeListExtendSecure at hextended
      dsimp only at hextended
      split at hextended
      · cases hextended
      · cases hextended
        rfl

theorem PageStep.xheap {cfg : Config} {page page' : PageFields}
    {live live' : List Addr} (hstep : PageStep cfg page live page' live') :
    page'.xheap = page.xheap := by
  cases hstep with
  | malloc hmalloc =>
      unfold pageMallocZero at hmalloc
      split at hmalloc
      · cases hmalloc
      · cases hmalloc
        unfold pageFinishAlloc
        split <;> rfl
  | write _ _ => rfl
  | freeLocal _ hfree =>
      unfold freeBlockLocal at hfree
      dsimp only at hfree
      split at hfree
      · have hsame := pageFreeCollect_xheap hfree
        exact hsame
      · cases hfree
        rfl
  | freeThread _ _ => rfl
  | setDelayed _ => rfl
  | threadFreeCollect => exact pageThreadFreeCollect_xheap page
  | freeCollect hcollect => exact pageFreeCollect_xheap hcollect
  | extendFree hextend => exact pageExtendFree_xheap hextend

/-! ## The law -/

namespace SegmentWorld

def ownedBy (w : SegmentWorld) (tid : ℕ) : Set ℕ :=
  {s | (w.st.segments s).threadId = tid}

def InUse (w : SegmentWorld) (orphans : Set ℕ) (segment : ℕ) : Prop :=
  (w.st.segments segment).threadId ≠ 0 ∨ segment ∈ orphans

section OwnedBy

variable {w w' : SegmentWorld} {tid segment : ℕ}

theorem ownedBy_same
    (hothers : ∀ s, s ≠ segment → w'.st.segments s = w.st.segments s)
    (hthread : (w'.st.segments segment).threadId = tid ↔
      (w.st.segments segment).threadId = tid) :
    w'.ownedBy tid = w.ownedBy tid := by
  ext s
  by_cases hs : s = segment
  · subst hs
    exact hthread
  · simp [ownedBy, hothers s hs]

theorem ownedBy_insert
    (hothers : ∀ s, s ≠ segment → w'.st.segments s = w.st.segments s)
    (hthread : (w'.st.segments segment).threadId = tid) :
    w'.ownedBy tid = insert segment (w.ownedBy tid) := by
  ext s
  by_cases hs : s = segment
  · subst hs
    simp [ownedBy, hthread]
  · simp [ownedBy, hothers s hs, hs]

theorem ownedBy_sdiff
    (hothers : ∀ s, s ≠ segment → w'.st.segments s = w.st.segments s)
    (hthread : (w'.st.segments segment).threadId ≠ tid) :
    w'.ownedBy tid = w.ownedBy tid \ {segment} := by
  ext s
  by_cases hs : s = segment
  · subst hs
    simp [ownedBy, hthread]
  · simp [ownedBy, hothers s hs, hs]

end OwnedBy

end SegmentWorld

def PageAt (tiles : ℕ → List (Tile SpanKind)) (slice : SlicePtr) : Prop :=
  slice.idx ≠ 0 ∧ ∃ tile ∈ tiles slice.segment, tile.kind = .used ∧
    tile.start = slice.idx

def Unqueued (qlists : ℕ × ℕ → List ℕ) (slice : SlicePtr) : Prop :=
  ∀ queue, slice.page ∉ qlists queue

/-- The pages of a segment that have been given up: as many as its counter
says, and the ones that are in no page queue. -/
def GivenUp (qlists : ℕ × ℕ → List ℕ) (tiles : ℕ → List (Tile SpanKind))
    (segment count : ℕ) : Prop :=
  ∃ gone : List ℕ, gone.Nodup ∧ gone.length = count ∧
    ∀ start, start ∈ gone ↔ PageAt tiles ⟨segment, start⟩ ∧
      Unqueued qlists ⟨segment, start⟩

structure QueuedPage (w : SegmentWorld) (heapTid : ℕ → ℕ)
    (tiles : ℕ → List (Tile SpanKind)) (queue : ℕ × ℕ) (slice : SlicePtr) :
    Prop where
  thread_ne : (w.st.segments slice.segment).threadId ≠ 0
  thread : (w.st.segments slice.segment).threadId = heapTid queue.1
  pageAt : PageAt tiles slice
  xheap : (w.st.slices slice).xheap = some queue.1

structure OrphanLaw (w : SegmentWorld) (orphans : Set ℕ)
    (live : ℕ → ℕ → List Addr) (heapTid : ℕ → ℕ) (alive : Finset ℕ)
    (tiles : ℕ → List (Tile SpanKind)) (lists : ℕ → ℕ → List SlicePtr)
    (qlists : ℕ × ℕ → List ℕ) : Prop where
  threads : ∀ tid, tid ≠ 0 →
    SpanInvariant w.st .idle tid (w.ownedBy tid) tiles (lists tid)
  abandoned : ∀ s ∈ orphans, AbandonedSegment w.st s (tiles s)
  dontFree : ∀ s, w.InUse orphans s → (w.st.segments s).dontFree = false
  pages : ∀ s, w.InUse orphans s → HoldsPages w.st s (live s) (tiles s)
  live : ∀ s start, live s start ≠ [] →
    w.InUse orphans s ∧ PageAt tiles ⟨s, start⟩
  queues : QueueLaw w.queues alive (aliveQueues alive) qlists
  queued : ∀ queue (slice : SlicePtr), slice.page ∈ qlists queue →
    QueuedPage w heapTid tiles queue slice
  givenUp : ∀ s, (w.st.segments s).threadId ≠ 0 →
    GivenUp qlists tiles s (w.st.segments s).abandoned

theorem PageAt.update_ne {tiles : ℕ → List (Tile SpanKind)} {segment : ℕ}
    {ts : List (Tile SpanKind)} {slice : SlicePtr}
    (hslice : slice.segment ≠ segment) :
    PageAt (Function.update tiles segment ts) slice ↔ PageAt tiles slice := by
  unfold PageAt
  rw [Function.update_of_ne hslice]

/-- Only the pages in the queues matter. -/
theorem GivenUp.congr {qlists qlists' : ℕ × ℕ → List ℕ}
    {tiles tiles' : ℕ → List (Tile SpanKind)} {s count : ℕ}
    (h : GivenUp qlists tiles s count)
    (hsame : ∀ start, PageAt tiles' ⟨s, start⟩ ∧
        Unqueued qlists' ⟨s, start⟩ ↔
      PageAt tiles ⟨s, start⟩ ∧ Unqueued qlists ⟨s, start⟩) :
    GivenUp qlists' tiles' s count := by
  obtain ⟨gone, hnodup, hlength, hgone⟩ := h
  exact ⟨gone, hnodup, hlength, fun start =>
    (hgone start).trans (hsame start).symm⟩

/-- The abandoned segments after a page was given up or freed: the segment
goes with the last page that a queue holds. -/
def AfterLeaving (w w' : SegmentWorld) (segment : ℕ)
    (orphans orphans' : Set ℕ) : Prop :=
  w'.marked = w.marked ∧ orphans' = orphans ∨
    w'.marked = Function.update w.marked segment true ∧
      orphans' = insert segment orphans

namespace OrphanLaw

variable {w w' : SegmentWorld} {orphans : Set ℕ}
  {live : ℕ → ℕ → List Addr} {heapTid : ℕ → ℕ} {alive : Finset ℕ}
  {tiles : ℕ → List (Tile SpanKind)} {lists : ℕ → ℕ → List SlicePtr}
  {qlists qlists' : ℕ × ℕ → List ℕ} {tid segment : ℕ}

theorem orphan_threadId
    (h : OrphanLaw w orphans live heapTid alive tiles lists qlists)
    (hsegment : segment ∈ orphans) :
    (w.st.segments segment).threadId = 0 :=
  (h.abandoned segment hsegment).threadId

theorem orphan_unqueued
    (h : OrphanLaw w orphans live heapTid alive tiles lists qlists)
    (hsegment : segment ∈ orphans) (idx : ℕ) :
    Unqueued qlists ⟨segment, idx⟩ :=
  fun queue hmem =>
    (h.queued queue _ hmem).thread_ne (h.orphan_threadId hsegment)

theorem queue_alive
    (h : OrphanLaw w orphans live heapTid alive tiles lists qlists)
    {queue : ℕ × ℕ} {page : ℕ} (hpage : page ∈ qlists queue) :
    queue.1 ∈ alive := by
  by_contra hnot
  rw [h.queues.lists_eq_nil (decide_eq_false hnot)] at hpage
  exact List.not_mem_nil hpage

/-- Data of the segments that the law does not speak about. -/
theorem congrSegments
    (h : OrphanLaw w orphans live heapTid alive tiles lists qlists)
    (hslices : w'.st.slices = w.st.slices)
    (hlinks : w'.st.links = w.st.links)
    (hspans : w'.st.spans = w.st.spans) (hqueues : w'.queues = w.queues)
    (hheader : ∀ s, SameHeader (w.st.segments s) (w'.st.segments s))
    (hused : ∀ s, (w'.st.segments s).used = (w.st.segments s).used)
    (habandoned : ∀ s, (w'.st.segments s).abandoned =
      (w.st.segments s).abandoned)
    (hdontFree : ∀ s, (w'.st.segments s).dontFree =
      (w.st.segments s).dontFree) :
    OrphanLaw w' orphans live heapTid alive tiles lists qlists := by
  have howned : ∀ t, w'.ownedBy t = w.ownedBy t := by
    intro t
    ext s
    simp [SegmentWorld.ownedBy, (hheader s).threadId]
  have hinUse : ∀ s, w'.InUse orphans s ↔ w.InUse orphans s := by
    intro s
    simp [SegmentWorld.InUse, (hheader s).threadId]
  constructor
  · intro t ht
    rw [howned]
    exact (h.threads t ht).congr hslices (fun s _ => hheader s) hlinks hspans
      fun s _ => hused s
  · intro s hs
    have hold := h.abandoned s hs
    have hentry : ∀ tile ∈ tiles s, SpanEntry w'.st s tile := by
      intro tile htile
      apply (hold.entry tile htile).congr (hold.tiled.bounds htile).2.1
      intro i _ _
      rw [hslices]
      exact .refl _
    refine ⟨(hheader s).kind.trans hold.kind,
      (hheader s).threadId.trans hold.threadId, ?_, hold.kinds, hentry,
      hold.info, hold.apart, ?_, ?_, ?_⟩
    · rw [(hheader s).sliceEntries]
      exact hold.tiled
    · intro tile htile hfree
      have hparked := hold.parked tile htile hfree
      refine ⟨(hentry tile htile).free hfree, ?_, ?_⟩
      · rw [hlinks]
        exact hparked.next
      · rw [hlinks]
        exact hparked.prev
    · rw [hused]
      exact hold.used
    · rw [habandoned, hused]
      exact hold.abandoned
  · intro s hs
    rw [hdontFree]
    exact h.dontFree s ((hinUse s).mp hs)
  · intro s hs tile htile hkind hfirst
    rw [hslices]
    exact h.pages s ((hinUse s).mp hs) tile htile hkind hfirst
  · intro s start hlive
    rw [hinUse]
    exact h.live s start hlive
  · rw [hqueues]
    exact h.queues
  · intro queue slice hslice
    have hold := h.queued queue slice hslice
    refine ⟨?_, ?_, hold.pageAt, ?_⟩
    · rw [(hheader _).threadId]
      exact hold.thread_ne
    · rw [(hheader _).threadId]
      exact hold.thread
    · rw [hslices]
      exact hold.xheap
  · intro s hs
    rw [(hheader s).threadId] at hs
    rw [habandoned]
    exact h.givenUp s hs

theorem tryPurge (h : OrphanLaw w orphans live heapTid alive tiles lists qlists)
    (cfg : Config) (segment : ℕ) (force : Bool) :
    OrphanLaw (w.tryPurge cfg segment force) orphans live heapTid alive tiles
      lists qlists := by
  have hcommit := onlyCommit_setCommit w.st segment (segmentTryPurge cfg
    (w.st.segments segment) (w.st.segments segment).commit w.st.os segment
    force)
  refine h.congrSegments rfl rfl rfl rfl hcommit.header hcommit.used ?_ ?_
  · intro s
    obtain ⟨commit, hs⟩ := hcommit s
    exact (congrArg SegmentInfo.abandoned hs).trans rfl
  · intro s
    obtain ⟨commit, hs⟩ := hcommit s
    exact (congrArg SegmentInfo.dontFree hs).trans rfl

/-- One segment changes, and with it the thread `tid` that owns it or takes
it. -/
theorem rewrite
    (h : OrphanLaw w orphans live heapTid alive tiles lists qlists)
    {own orphans' : Set ℕ} {live' : ℕ → ℕ → List Addr}
    {ts' : List (Tile SpanKind)} {lists' : ℕ → List SlicePtr}
    (hwrites : WritesOnly w.st w'.st tid segment own)
    (hown : own ⊆ insert segment (w.ownedBy tid))
    (hbefore : (w.st.segments segment).threadId = 0 ∨
      (w.st.segments segment).threadId = tid)
    (hafter : (w'.st.segments segment).threadId = 0 ∨
      (w'.st.segments segment).threadId = tid)
    (hspans : SpanInvariant w'.st .idle tid (w'.ownedBy tid)
      (Function.update tiles segment ts') lists')
    (horphans : ∀ s, s ≠ segment → (s ∈ orphans' ↔ s ∈ orphans))
    (habandoned : segment ∈ orphans' → AbandonedSegment w'.st segment ts')
    (hdontFree : w'.InUse orphans' segment →
      (w'.st.segments segment).dontFree = false)
    (hpages : w'.InUse orphans' segment →
      HoldsPages w'.st segment (live' segment) ts')
    (hliveOther : ∀ s, s ≠ segment → live' s = live s)
    (hlive : ∀ start, live' segment start ≠ [] → w'.InUse orphans' segment ∧
      PageAt (Function.update tiles segment ts') ⟨segment, start⟩)
    (hqueues : QueueLaw w'.queues alive (aliveQueues alive) qlists')
    (hqueuedOther : ∀ queue (slice : SlicePtr), slice.segment ≠ segment →
      (slice.page ∈ qlists' queue ↔ slice.page ∈ qlists queue))
    (hqueued : ∀ queue idx, (⟨segment, idx⟩ : SlicePtr).page ∈ qlists' queue →
      QueuedPage w' heapTid (Function.update tiles segment ts') queue
        ⟨segment, idx⟩)
    (hgivenUp : (w'.st.segments segment).threadId ≠ 0 →
      GivenUp qlists' (Function.update tiles segment ts') segment
        (w'.st.segments segment).abandoned) :
    OrphanLaw w' orphans' live' heapTid alive
      (Function.update tiles segment ts') (Function.update lists tid lists')
      qlists' := by
  have hothers := hwrites.segments
  have hinUse : ∀ s, s ≠ segment →
      (w'.InUse orphans' s ↔ w.InUse orphans s) := by
    intro s hs
    unfold SegmentWorld.InUse
    rw [hothers s hs, horphans s hs]
  constructor
  · intro t ht
    by_cases hthread : t = tid
    · rw [hthread, Function.update_self]
      exact hspans
    · rw [Function.update_of_ne hthread]
      have howned : w'.ownedBy t = w.ownedBy t := by
        apply SegmentWorld.ownedBy_same hothers
        constructor
        · rintro rfl
          exact (hthread (hafter.resolve_left ht)).elim
        · rintro rfl
          exact (hthread (hbefore.resolve_left ht)).elim
      have hsegment : segment ∉ w.ownedBy t := by
        rintro (rfl : (w.st.segments segment).threadId = t)
        exact (hbefore.resolve_left ht |> hthread).elim
      rw [howned]
      have hframe := (h.threads t ht).frame hwrites hthread hsegment ?_
      · apply hframe.congrTiles
        intro s hs
        rw [Function.update_of_ne]
        rintro rfl
        exact hsegment hs
      · intro s hs hmem
        rcases hown hmem with rfl | htid
        · exact hsegment hs
        · exact hthread (hs.symm.trans htid)
  · intro s hs
    by_cases hsegment : s = segment
    · subst hsegment
      rw [Function.update_self]
      exact habandoned hs
    · rw [Function.update_of_ne hsegment]
      have hold := (horphans s hsegment).mp hs
      apply (h.abandoned s hold).frame hwrites hsegment
      intro hmem
      rcases hown hmem with heq | htid
      · exact hsegment heq
      · exact hspans.layout.thread_ne
          (htid.symm.trans (h.orphan_threadId hold))
  · intro s hs
    by_cases hsegment : s = segment
    · subst hsegment
      exact hdontFree hs
    · rw [hothers s hsegment]
      exact h.dontFree s ((hinUse s hsegment).mp hs)
  · intro s hs
    by_cases hsegment : s = segment
    · subst hsegment
      rw [Function.update_self]
      exact hpages hs
    · rw [Function.update_of_ne hsegment, hliveOther s hsegment]
      exact (h.pages s ((hinUse s hsegment).mp hs)).frame hwrites hsegment
  · intro s start hs
    by_cases hsegment : s = segment
    · subst hsegment
      exact hlive start hs
    · rw [hliveOther s hsegment] at hs
      obtain ⟨huse, hat⟩ := h.live s start hs
      exact ⟨(hinUse s hsegment).mpr huse, (PageAt.update_ne hsegment).mpr hat⟩
  · exact hqueues
  · intro queue slice hslice
    by_cases hsegment : slice.segment = segment
    · obtain ⟨s, idx⟩ := slice
      obtain rfl : s = segment := hsegment
      exact hqueued queue idx hslice
    · have hold := h.queued queue slice
        ((hqueuedOther queue slice hsegment).mp hslice)
      refine ⟨?_, ?_, (PageAt.update_ne hsegment).mpr hold.pageAt, ?_⟩
      · rw [hothers _ hsegment]
        exact hold.thread_ne
      · rw [hothers _ hsegment]
        exact hold.thread
      · rw [hwrites.slices _ hsegment]
        exact hold.xheap
  · intro s hs
    by_cases hsegment : s = segment
    · subst hsegment
      exact hgivenUp hs
    · rw [hothers s hsegment] at hs ⊢
      apply (h.givenUp s hs).congr
      intro start
      refine and_congr (PageAt.update_ne hsegment) ?_
      exact forall_congr' fun queue =>
        not_congr (hqueuedOther queue ⟨s, start⟩ hsegment)

/-! ### Visits -/

/-- `pa_segment_check_free` on an abandoned segment. -/
theorem checkFree
    (h : OrphanLaw w orphans live heapTid alive tiles lists qlists)
    (hsegment : segment ∈ orphans) (htid : tid ≠ 0) (cfg : Config)
    (slicesNeeded blockSize : ℕ) :
    ∃ st' hasPage tiles' lists',
      segmentCheckFree cfg w.st tid segment slicesNeeded blockSize =
        some (st', hasPage) ∧
      OrphanLaw { w with st := st' } orphans live heapTid alive tiles' lists'
        qlists := by
  have hinUse : w.InUse orphans segment := .inr hsegment
  have horphan := h.abandoned segment hsegment
  obtain ⟨st', hasPage, ts', hresult, hchecked⟩ := segmentCheckFree_checked
    cfg tid horphan (h.pages segment hinUse) slicesNeeded blockSize
  have hthread : (st'.segments segment).threadId = 0 :=
    hchecked.segment_tiled.threadId
  have hnotOwned : segment ∉ w.ownedBy tid := by
    rintro (heq : (w.st.segments segment).threadId = tid)
    exact htid (heq.symm.trans horphan.threadId)
  have howned : SegmentWorld.ownedBy { w with st := st' } tid =
      w.ownedBy tid :=
    SegmentWorld.ownedBy_same hchecked.others
      (by simp [hthread, horphan.threadId])
  have hspans : SpanInvariant st' .idle tid (w.ownedBy tid)
      (Function.update tiles segment ts') (lists tid) := by
    refine ((h.threads tid htid).frame (hchecked.writes (tid + 1)) (by omega)
      hnotOwned ?_).congrTiles ?_
    · rintro s hs (rfl : s = segment)
      exact hnotOwned hs
    · intro s hs
      rw [Function.update_of_ne]
      rintro rfl
      exact hnotOwned hs
  refine ⟨st', hasPage, _, _, hresult, h.rewrite (hchecked.writes tid) ?_
    (.inl horphan.threadId) (.inl hthread) (howned ▸ hspans)
    (fun s _ => Iff.rfl) ?_ ?_ ?_ (fun s _ => rfl) ?_ h.queues
    (fun queue slice _ => Iff.rfl) ?_ ?_⟩
  · exact Set.singleton_subset_iff.mpr (Set.mem_insert _ _)
  · exact fun _ => hchecked.segment_tiled
  · intro _
    exact hchecked.dontFree.trans (h.dontFree segment hinUse)
  · intro _ tile htile hused hfirst
    obtain ⟨free, localFree, hpage⟩ :=
      hchecked.pages tile htile hused hfirst
    exact ⟨free, localFree, [], hpage⟩
  · intro start hlive
    obtain ⟨-, hidx, tile, htile, hused, rfl⟩ := h.live segment start hlive
    refine ⟨.inr hsegment, hidx, tile, ?_, hused, rfl⟩
    rw [Function.update_self]
    exact (hchecked.kept tile hused).mpr ⟨htile, hused, .inr hlive⟩
  · intro queue idx hmem
    exact absurd hmem (h.orphan_unqueued hsegment idx queue)
  · exact fun hne => absurd hthread hne

/-- A thread takes an abandoned segment over, or frees it. -/
theorem reclaim
    (h : OrphanLaw w orphans live heapTid alive tiles lists qlists)
    (hsegment : segment ∈ orphans) (htid : tid ≠ 0) (cfg : Config)
    {hp : ReclaimHeaps} {heap : ℕ} (hheap : heap ∈ alive)
    (hheapTid : heapTid heap = tid) (hheaps : ∀ other ∈ hp.heaps,
      other ∈ alive ∧ heapTid other = tid) (blockSize : ℕ) :
    ∃ kept right w' tiles' lists' qlists',
      segmentReclaim cfg hp w tid heap segment blockSize =
        some (kept, right, w') ∧
      w'.marked = w.marked ∧
      (w'.st.segments segment).threadId = (if kept then tid else 0) ∧
      OrphanLaw w' (orphans \ {segment}) live heapTid alive tiles' lists'
        qlists' := by
  have hinUse : w.InUse orphans segment := .inr hsegment
  have horphan := h.abandoned segment hsegment
  have hnotOwned : segment ∉ w.ownedBy tid := by
    rintro (heq : (w.st.segments segment).threadId = tid)
    exact htid (heq.symm.trans horphan.threadId)
  have hreclaimable : Reclaimable w tid (w.ownedBy tid) tiles (lists tid)
      segment (tiles segment) (live segment) hp heap alive (aliveQueues alive)
      qlists :=
    { spans := h.threads tid htid
      fresh := hnotOwned
      abandoned := horphan
      pages := h.pages segment hinUse
      dontFree := h.dontFree segment hinUse
      queues := h.queues
      unqueued := fun queue idx => h.orphan_unqueued hsegment idx queue
      heap_alive := hheap
      heaps_alive := fun other hother => (hheaps other hother).1 }
  have hlive : ∀ start, live segment start ≠ [] →
      HoldsLive (tiles segment) (live segment) := by
    intro start hstart
    obtain ⟨-, hidx, tile, htile, hused, rfl⟩ := h.live segment start hstart
    exact ⟨tile, htile, hused, hidx, hstart⟩
  have horphans : ∀ s, s ≠ segment →
      (s ∈ orphans \ {segment} ↔ s ∈ orphans) := by
    intro s hs
    simp [hs]
  have hgone : segment ∉ orphans \ {segment} := by simp
  obtain ⟨kept, right, w', hresult, hholds, hkept, hfreed⟩ :=
    segmentReclaim_ends cfg hreclaimable blockSize
  cases kept with
  | true =>
      obtain ⟨ts', qlists', hnew⟩ := hkept rfl
      obtain ⟨lists', hspans⟩ := hnew.spans
      have hthread : (w'.st.segments segment).threadId = tid :=
        hspans.layout.threadId segment (Set.mem_insert _ _)
      have howned := SegmentWorld.ownedBy_insert hnew.writes.segments hthread
      have hpageAt : ∀ start, PageAt (Function.update tiles segment ts')
          ⟨segment, start⟩ ↔ TakenPage segment ts' ⟨segment, start⟩ := by
        intro start
        simp [PageAt, TakenPage]
      refine ⟨true, right, w', _, _, qlists', hresult, hnew.marked, hthread,
        h.rewrite hnew.writes subset_rfl
          (.inl horphan.threadId) (.inr hthread) (howned ▸ hspans) horphans
          (fun hmem => absurd hmem hgone) ?_ ?_ (fun s _ => rfl) ?_
          hnew.queues.law (fun queue _ hs => hnew.queues_other queue hs) ?_
          ?_⟩
      · intro _
        exact hnew.dontFree.trans (h.dontFree segment hinUse)
      · intro _ tile htile hused hfirst
        obtain ⟨-, free, localFree, hpage⟩ :=
          hnew.pages tile htile hused hfirst
        exact ⟨free, localFree, [], hpage⟩
      · intro start hstart
        obtain ⟨-, hidx, tile, htile, hused, rfl⟩ :=
          h.live segment start hstart
        refine ⟨.inl (hthread.trans_ne htid), hidx, tile, ?_, hused, rfl⟩
        rw [Function.update_self]
        exact (hnew.kept tile hused).mpr ⟨htile, hused, .inr hstart⟩
      · intro queue idx hmem
        rcases (hnew.queues.mem queue _).mp hmem with
          hold | ⟨slice, htaken, hpage, hqueue⟩
        · exact absurd hold (h.orphan_unqueued hsegment idx queue)
        · rw [SlicePtr.page_inj hpage] at htaken hqueue
          obtain ⟨-, hidx, tile, htile, hused, rfl⟩ := htaken
          obtain ⟨hxheap, -⟩ := hnew.pages tile htile hused hidx
          have htaker : w.st.takerOf hp heap ⟨segment, tile.start⟩ = queue.1 :=
            congrArg Prod.fst hqueue
          have htakerTid : heapTid queue.1 = tid := by
            rw [← htaker]
            rcases reclaimTarget_mem hp heap
              (w.st.slices ⟨segment, tile.start⟩).heapTag with heq | hmem
            · exact (congrArg heapTid heq).trans hheapTid
            · exact (hheaps _ hmem).2
          refine ⟨hthread.trans_ne htid, hthread.trans htakerTid.symm,
            ⟨hidx, tile, ?_, hused, rfl⟩, ?_⟩
          · rw [Function.update_self]
            exact htile
          · rw [hxheap, htaker]
      · intro _
        refine ⟨[], .nil, by simp [hnew.abandoned], ?_⟩
        intro start
        simp only [List.not_mem_nil, false_iff, not_and]
        intro hat hunqueued
        exact hunqueued _ ((hnew.queues.mem _ _).mpr
          (.inr ⟨_, (hpageAt start).mp hat, rfl, rfl⟩))
  | false =>
      obtain ⟨-, -, hthread, ⟨lists', hspans⟩, ⟨qlists', hlaw, hmem⟩, hmarked,
        hwrites⟩ := hfreed rfl
      have hnone : ∀ start, live segment start = [] := by
        intro start
        by_contra hstart
        exact Bool.false_ne_true (hholds.mpr (hlive start hstart))
      have howned : w'.ownedBy tid = w.ownedBy tid :=
        SegmentWorld.ownedBy_same hwrites.segments
          (by rw [hthread, horphan.threadId])
      have hunused : ¬ w'.InUse (orphans \ {segment}) segment := by
        rintro (hne | hmem)
        · exact hne hthread
        · exact hgone hmem
      have hspans' : SpanInvariant w'.st .idle tid (w'.ownedBy tid)
          (Function.update tiles segment []) lists' := by
        rw [howned]
        apply hspans.congrTiles
        intro s hs
        rw [Function.update_of_ne]
        rintro rfl
        exact hnotOwned hs
      refine ⟨false, right, w', _, _, qlists', hresult, hmarked, hthread,
        h.rewrite hwrites subset_rfl (.inl horphan.threadId) (.inl hthread)
          hspans' horphans (fun hmem => absurd hmem hgone)
          (fun huse => absurd huse hunused) (fun huse => absurd huse hunused)
          (fun s _ => rfl) ?_ hlaw (fun queue slice _ => hmem queue _) ?_
          (fun hne => absurd hthread hne)⟩
      · intro start hstart
        exact absurd (hnone start) hstart
      · intro queue idx hpage
        exact absurd ((hmem queue _).mp hpage)
          (h.orphan_unqueued hsegment idx queue)

/-! ### Giving a segment up -/

/-- When all pages of a segment count as abandoned, none is in a queue. -/
theorem all_unqueued
    (h : OrphanLaw w orphans live heapTid alive tiles lists qlists)
    (hthread : (w.st.segments segment).threadId = tid) (htid : tid ≠ 0)
    (hall : (w.st.segments segment).abandoned =
      (w.st.segments segment).used) {start : ℕ}
    (hat : PageAt tiles ⟨segment, start⟩) :
    Unqueued qlists ⟨segment, start⟩ := by
  obtain ⟨gone, hnodup, hlength, hgone⟩ :=
    h.givenUp segment (hthread.trans_ne htid)
  have hinv := h.threads tid htid
  obtain ⟨info, hinfo, hzero, hkind⟩ := hinv.layout.info segment hthread
  set pages := ((tiles segment).filter fun tile => tile.kind = .used).map
    Tile.start with hpages
  have hmem : ∀ idx, idx ∈ pages ↔
      ∃ tile ∈ tiles segment, tile.kind = .used ∧ tile.start = idx := by
    intro idx
    simp [hpages, and_assoc]
  have hcount : pages.length = usedCount (tiles segment) := by
    rw [hpages, List.length_map, usedCount, List.countP_eq_length_filter]
  -- the info span is not a page, and there is one used span more
  have hzeroGone : 0 ∉ gone := fun hmem => ((hgone 0).mp hmem).1.1 rfl
  have hsub : (0 :: gone).Subperm pages := by
    refine (hnodup.cons hzeroGone).subperm ?_
    intro idx hidx
    rw [hmem]
    rcases List.mem_cons.mp hidx with rfl | hidx
    · exact ⟨info, hinfo, hkind, hzero⟩
    · obtain ⟨⟨-, tile, htile, hused, hstart⟩, -⟩ := (hgone idx).mp hidx
      exact ⟨tile, htile, hused, hstart⟩
  have hused := hinv.used segment hthread
  have hperm := hsub.perm_of_length_le (by
    rw [hcount, List.length_cons, hlength]
    omega)
  obtain ⟨hidx, tile, htile, hkindTile, hstart⟩ := hat
  have hpage := (hmem start).mpr ⟨tile, htile, hkindTile, hstart⟩
  rcases List.mem_cons.mp (hperm.mem_iff.mpr hpage) with heq | hin
  · exact absurd heq hidx
  · exact ((hgone start).mp hin).2

theorem abandon
    (h : OrphanLaw w orphans live heapTid alive tiles lists qlists)
    (hthread : (w.st.segments segment).threadId = tid) (htid : tid ≠ 0)
    (hall : (w.st.segments segment).abandoned =
      (w.st.segments segment).used) (cfg : Config) (purgeOption : Bool) :
    ∃ w' lists', segmentAbandon cfg purgeOption w tid segment = some w' ∧
      w'.marked = Function.update w.marked segment true ∧
      OrphanLaw w' (insert segment orphans) live heapTid alive tiles lists'
        qlists := by
  have hinUse : w.InUse orphans segment := .inl (hthread.trans_ne htid)
  obtain ⟨w', lists', hresult, hinv, hsegment, -, hslices, hmarked, hqueues, -,
    hdontFree, hwrites⟩ := segmentAbandon_leaves cfg purgeOption
      (h.threads tid htid) hthread hall
  have hthread' : (w'.st.segments segment).threadId = 0 := hsegment.threadId
  have howned := SegmentWorld.ownedBy_sdiff hwrites.segments
    (hthread'.trans_ne htid.symm)
  have hunqueued : ∀ queue idx,
      (⟨segment, idx⟩ : SlicePtr).page ∉ qlists queue := by
    intro queue idx hmem
    have hat := (h.queued queue _ hmem).pageAt
    exact h.all_unqueued hthread htid hall hat queue hmem
  have hlaw : OrphanLaw w' (insert segment orphans) live heapTid alive
      (Function.update tiles segment (tiles segment))
      (Function.update lists tid lists') qlists :=
    h.rewrite hwrites (Set.subset_insert _ _) (.inr hthread)
      (.inl hthread') ?_ ?_ ?_ ?_ ?_ (fun s _ => rfl) ?_ (hqueues ▸ h.queues)
      (fun queue slice _ => Iff.rfl) ?_ (fun hne => absurd hthread' hne)
  · rw [Function.update_eq_self] at hlaw
    exact ⟨w', _, hresult, hmarked, hlaw⟩
  · rw [Function.update_eq_self, howned]
    exact hinv
  · intro s hs
    simp [hs]
  · exact fun _ => hsegment
  · exact fun _ => hdontFree.trans (h.dontFree segment hinUse)
  · intro _ tile htile hused hfirst
    rw [hslices]
    exact h.pages segment hinUse tile htile hused hfirst
  · intro start hlive
    rw [Function.update_eq_self]
    exact ⟨.inr (Set.mem_insert _ _), (h.live segment start hlive).2⟩
  · intro queue idx hmem
    exact absurd hmem (hunqueued queue idx)

/-! ### Pages -/

/-- The data of a page changes, and its live blocks with it. -/
theorem setPage
    (h : OrphanLaw w orphans live heapTid alive tiles lists qlists)
    {slice : SlicePtr} {page : PageFields} {live' : List Addr}
    (huse : w.InUse orphans slice.segment) (hat : PageAt tiles slice)
    (hsame : SameSpan (w.st.slices slice) page)
    (hxheap : page.xheap = (w.st.slices slice).xheap)
    (hpage : ∃ free localFree thread,
      PagePartition page live' free localFree thread) :
    OrphanLaw { w with st := w.st.setSlice slice page } orphans
      (Function.update live slice.segment
        (Function.update (live slice.segment) slice.idx live'))
      heapTid alive tiles lists qlists := by
  have hslices : ∀ other, SameSpan (w.st.slices other)
      ((w.st.setSlice slice page).slices other) := by
    intro other
    by_cases hother : other = slice
    · subst hother
      rw [State.setSlice_self]
      exact hsame
    · exact sameSpan_setSlice hother
  constructor
  · intro t ht
    exact (h.threads t ht).congrSpans hslices (fun s _ => .refl _) rfl rfl
      fun s _ => rfl
  · exact fun s hs => (h.abandoned s hs).setPage hsame
  · exact h.dontFree
  · intro s hs tile htile hused hfirst
    by_cases hslice : (⟨s, tile.start⟩ : SlicePtr) = slice
    · subst hslice
      simp only [State.setSlice_self, Function.update_self]
      exact hpage
    · rw [State.setSlice_ne _ _ hslice]
      obtain ⟨free, localFree, thread, hold⟩ := h.pages s hs tile htile hused
        hfirst
      refine ⟨free, localFree, thread, ?_⟩
      have hlive : Function.update live slice.segment
          (Function.update (live slice.segment) slice.idx live') s tile.start =
            live s tile.start := by
        by_cases hs : s = slice.segment
        · subst hs
          rw [Function.update_self, Function.update_of_ne]
          rintro heq
          exact hslice (by rw [heq])
        · rw [Function.update_of_ne hs]
      rw [hlive]
      exact hold
  · intro s start hs
    by_cases hsegment : s = slice.segment
    · subst hsegment
      rw [Function.update_self] at hs
      by_cases hstart : start = slice.idx
      · subst hstart
        exact ⟨huse, hat⟩
      · rw [Function.update_of_ne hstart] at hs
        exact h.live _ start hs
    · rw [Function.update_of_ne hsegment] at hs
      exact h.live s start hs
  · exact h.queues
  · intro queue other hother
    have hold := h.queued queue other hother
    refine ⟨hold.thread_ne, hold.thread, hold.pageAt, ?_⟩
    by_cases hslice : other = slice
    · subst hslice
      rw [State.setSlice_self, hxheap]
      exact hold.xheap
    · rw [State.setSlice_ne _ _ hslice]
      exact hold.xheap
  · exact h.givenUp

theorem pageStep
    (h : OrphanLaw w orphans live heapTid alive tiles lists qlists)
    {cfg : Config} {slice : SlicePtr} {page : PageFields} {live' : List Addr}
    (huse : w.InUse orphans slice.segment) (hat : PageAt tiles slice)
    (hstep : PageStep cfg (w.st.slices slice)
      (live slice.segment slice.idx) page live') :
    OrphanLaw { w with st := w.st.setSlice slice page } orphans
      (Function.update live slice.segment
        (Function.update (live slice.segment) slice.idx live'))
      heapTid alive tiles lists qlists := by
  obtain ⟨hidx, tile, htile, hused, hstart⟩ := hat
  have hpage := h.pages _ huse tile htile hused (hstart ▸ hidx)
  rw [hstart] at hpage
  obtain ⟨free, localFree, thread, hpart⟩ := hpage
  have hkeeps := hstep.keepsBlocks
  exact h.setPage huse ⟨hidx, tile, htile, hused, hstart⟩
    ⟨hkeeps.sliceCount, hkeeps.sliceOffset, hkeeps.blockSize⟩ hstep.xheap
    (hstep.partition hpart)

theorem pageAt_of_usedHead
    (h : OrphanLaw w orphans live heapTid alive tiles lists qlists)
    {slice : SlicePtr} (hne : (w.st.segments slice.segment).threadId ≠ 0)
    (hhead : UsedHead w.st slice) (hidx : slice.idx ≠ 0) :
    PageAt tiles slice := by
  obtain ⟨before, after, count, hsplit, -⟩ :=
    (h.threads _ hne).usedHead_tile rfl hhead
  refine ⟨hidx, ⟨slice.idx, count, .used⟩, ?_, rfl, rfl⟩
  rw [hsplit]
  simp

/-- A page leaves its queue. -/
theorem leaveQueue
    (h : OrphanLaw w orphans live heapTid alive tiles lists qlists)
    {queue : ℕ × ℕ} {slice : SlicePtr} (hpage : slice.page ∈ qlists queue) :
    ∃ qlists', QueueLaw (w.queues.pageQueueRemove queue slice.page) alive
        (aliveQueues alive) qlists' ∧
      ∀ queue' other, (other ∈ qlists' queue' ↔
        other ∈ qlists queue' ∧ other ≠ slice.page) := by
  refine ⟨_, h.queues.remove (h.queue_alive hpage) hpage, ?_⟩
  intro queue' other
  by_cases heq : queue' = queue
  · subst heq
    rw [Function.update_self,
      (h.queues.family.queue queue').nodup.mem_erase_iff, and_comm]
  · rw [Function.update_of_ne heq, iff_self_and]
    rintro hother rfl
    exact heq (h.queues.queue_unique hother hpage)

/-- The pages of a heap move between its queues. -/
theorem requeue
    (h : OrphanLaw w orphans live heapTid alive tiles lists qlists)
    {queues : PageQueues}
    (hqueues : QueueLaw queues alive (aliveQueues alive) qlists')
    (hold : ∀ queue page, page ∈ qlists' queue →
      ∃ bin, page ∈ qlists (queue.1, bin))
    (hkeep : ∀ queue page, page ∈ qlists queue →
      ∃ queue', page ∈ qlists' queue') :
    OrphanLaw { w with queues := queues } orphans live heapTid alive tiles
      lists qlists' := by
  refine ⟨h.threads, h.abandoned, h.dontFree, h.pages, h.live, hqueues, ?_,
    ?_⟩
  · intro queue slice hpage
    obtain ⟨bin, hin⟩ := hold queue slice.page hpage
    have hqueued := h.queued _ slice hin
    exact ⟨hqueued.thread_ne, hqueued.thread, hqueued.pageAt, hqueued.xheap⟩
  · intro s hs
    apply (h.givenUp s hs).congr
    intro start
    refine and_congr_right fun _ => ⟨?_, ?_⟩
    · intro hnone queue hin
      obtain ⟨queue', hin'⟩ := hkeep queue _ hin
      exact hnone queue' hin'
    · intro hnone queue hin
      obtain ⟨bin, hin'⟩ := hold queue _ hin
      exact hnone _ hin'

/-- `pa_page_queue_move_to_front`. -/
theorem moveToFront
    (h : OrphanLaw w orphans live heapTid alive tiles lists qlists)
    {heap bin page : ℕ} (hheap : heap ∈ alive)
    (hpage : page ∈ qlists (heap, bin)) :
    ∃ qlists', OrphanLaw
      { w with queues := w.queues.pageQueueMoveToFront heap (heap, bin) page }
      orphans live heapTid alive tiles lists qlists' := by
  have hperm := List.perm_cons_erase hpage
  refine ⟨_, h.requeue (h.queues.moveToFront hheap hpage) ?_ ?_⟩
  · intro queue other hin
    by_cases hqueue : queue = (heap, bin)
    · subst hqueue
      rw [Function.update_self] at hin
      exact ⟨bin, hperm.mem_iff.mpr hin⟩
    · rw [Function.update_of_ne hqueue] at hin
      exact ⟨queue.2, hin⟩
  · intro queue other hin
    refine ⟨queue, ?_⟩
    by_cases hqueue : queue = (heap, bin)
    · subst hqueue
      rw [Function.update_self]
      exact hperm.mem_iff.mp hin
    · rw [Function.update_of_ne hqueue]
      exact hin

theorem enqueueList_perm (enqueueAtEnd : Bool) (page : ℕ) (l : List ℕ) :
    (QueueLaw.enqueueList enqueueAtEnd page l).Perm (page :: l) := by
  unfold QueueLaw.enqueueList
  split
  · exact List.perm_append_singleton page l
  · have hmiddle : (l.take 1 ++ page :: l.drop 1).Perm
        (page :: (l.take 1 ++ l.drop 1)) := List.perm_middle
    rwa [List.take_append_drop] at hmiddle

/-- `pa_page_queue_enqueue_from_ex`: to the full queue and back. -/
theorem enqueueFromEx
    (h : OrphanLaw w orphans live heapTid alive tiles lists qlists)
    {heap b c page : ℕ} (hheap : heap ∈ alive) (hb : ServedBin b)
    (hpage : page ∈ qlists (heap, c)) (enqueueAtEnd : Bool) :
    ∃ qlists', OrphanLaw
      { w with
        queues := w.queues.pageQueueEnqueueFromEx (heap, b) (heap, c)
          enqueueAtEnd page }
      orphans live heapTid alive tiles lists qlists' := by
  have hleft : ∀ queue other, (other ∈ Function.update qlists (heap, c)
      ((qlists (heap, c)).erase page) queue → other ∈ qlists queue) ∧
      (other ∈ qlists queue → other ≠ page →
        other ∈ Function.update qlists (heap, c)
          ((qlists (heap, c)).erase page) queue) := by
    intro queue other
    by_cases hqueue : queue = (heap, c)
    · subst hqueue
      rw [Function.update_self]
      exact ⟨List.mem_of_mem_erase, fun hin hne =>
        (List.mem_erase_of_ne hne).mpr hin⟩
    · rw [Function.update_of_ne hqueue]
      exact ⟨id, fun hin _ => hin⟩
  refine ⟨_, h.requeue (h.queues.enqueueFromEx hheap hb hpage enqueueAtEnd)
    ?_ ?_⟩
  · intro queue other hin
    by_cases hqueue : queue = (heap, b)
    · subst hqueue
      rw [Function.update_self, (enqueueList_perm _ _ _).mem_iff,
        List.mem_cons] at hin
      rcases hin with rfl | hin
      · exact ⟨c, hpage⟩
      · exact ⟨b, (hleft _ other).1 hin⟩
    · rw [Function.update_of_ne hqueue] at hin
      exact ⟨queue.2, (hleft queue other).1 hin⟩
  · intro queue other hin
    by_cases hne : other = page
    · refine ⟨(heap, b), ?_⟩
      rw [Function.update_self, (enqueueList_perm _ _ _).mem_iff, hne]
      exact List.mem_cons_self
    · refine ⟨queue, ?_⟩
      have hin' := (hleft queue other).2 hin hne
      by_cases hqueue : queue = (heap, b)
      · subst hqueue
        rw [Function.update_self, (enqueueList_perm _ _ _).mem_iff]
        exact List.mem_cons_of_mem _ hin'
      · rw [Function.update_of_ne hqueue]
        exact hin'

/-- A page that is given up leaves its queue and its heap, and counts as
abandoned. -/
theorem giveUp
    (h : OrphanLaw w orphans live heapTid alive tiles lists qlists)
    {queue : ℕ × ℕ} {slice : SlicePtr} (hpage : slice.page ∈ qlists queue)
    (hqueues : w'.queues = w.queues.pageQueueRemove queue slice.page)
    (hself : w'.st.slices slice = { w.st.slices slice with xheap := none })
    (hother : ∀ other, other ≠ slice →
      w'.st.slices other = w.st.slices other)
    (hinfo : w'.st.segments slice.segment =
      { w.st.segments slice.segment with
        abandoned := (w.st.segments slice.segment).abandoned + 1 })
    (hinfoOther : ∀ s, s ≠ slice.segment →
      w'.st.segments s = w.st.segments s)
    (hlinks : w'.st.links = w.st.links) (hspans : w'.st.spans = w.st.spans) :
    ∃ qlists',
      OrphanLaw w' orphans live heapTid alive tiles lists qlists' := by
  have hqueued := h.queued queue slice hpage
  have hthread := hqueued.thread_ne
  set tid := (w.st.segments slice.segment).threadId with htid
  have hinv := h.threads tid hthread
  obtain ⟨qlists', hlaw, hmem⟩ := h.leaveQueue hpage
  have hslices : ∀ other,
      SameSpan (w.st.slices other) (w'.st.slices other) := by
    intro other
    by_cases heq : other = slice
    · subst heq
      rw [hself]
      exact ⟨rfl, rfl, rfl⟩
    · rw [hother other heq]
      exact .refl _
  have hheader : ∀ s,
      SameHeader (w.st.segments s) (w'.st.segments s) := by
    intro s
    by_cases hs : s = slice.segment
    · subst hs
      rw [hinfo]
      exact ⟨rfl, rfl, rfl⟩
    · rw [hinfoOther s hs]
      exact .refl _
  have hwrites : WritesOnly w.st w'.st tid slice.segment {slice.segment} :=
    .of_slice hother hinfoOther hlinks hspans
  have howned : w'.ownedBy tid = w.ownedBy tid := by
    ext s
    simp only [SegmentWorld.ownedBy, Set.mem_ofPred_eq]
    rw [(hheader s).threadId]
  refine ⟨qlists', ?_⟩
  have hrewrite : OrphanLaw w' orphans live heapTid alive
      (Function.update tiles slice.segment (tiles slice.segment))
      (Function.update lists tid (lists tid)) qlists' :=
    h.rewrite hwrites ?_ (.inr htid.symm) (.inr (hheader _).threadId) ?_
      (fun s _ => Iff.rfl) ?_ ?_ ?_ (fun s _ => rfl) ?_ (hqueues ▸ hlaw)
      ?_ ?_ ?_
  · rw [Function.update_eq_self, Function.update_eq_self] at hrewrite
    exact hrewrite
  · exact Set.singleton_subset_iff.mpr (Set.mem_insert _ _)
  · rw [Function.update_eq_self, howned]
    refine hinv.congrSpans hslices (fun s _ => hheader s) hlinks hspans ?_
    intro s _
    by_cases hs : s = slice.segment
    · subst hs
      rw [hinfo]
    · rw [hinfoOther s hs]
  · exact fun horphan => absurd (h.orphan_threadId horphan) hthread
  · intro _
    rw [hinfo]
    exact h.dontFree _ (.inl hthread)
  · intro _ tile htile hused hfirst
    obtain ⟨free, localFree, thread, hpart⟩ :=
      h.pages _ (.inl hthread) tile htile hused hfirst
    refine ⟨free, localFree, thread, ?_⟩
    by_cases heq : (⟨slice.segment, tile.start⟩ : SlicePtr) = slice
    · rw [heq] at hpart ⊢
      rw [hself]
      exact hpart.setXheap none
    · rw [hother _ heq]
      exact hpart
  · intro start hlive
    rw [Function.update_eq_self]
    refine ⟨.inl ?_, (h.live _ start hlive).2⟩
    rw [(hheader _).threadId]
    exact hthread
  · intro queue' other hne
    rw [hmem, and_iff_left]
    intro heq
    exact hne (by rw [SlicePtr.page_inj heq])
  · intro queue' idx hin
    obtain ⟨hold, hne⟩ := (hmem queue' _).mp hin
    have hpageOld := h.queued queue' _ hold
    rw [Function.update_eq_self]
    refine ⟨?_, ?_, hpageOld.pageAt, ?_⟩
    · rw [(hheader _).threadId]
      exact hthread
    · rw [(hheader _).threadId]
      exact hpageOld.thread
    · rw [hother _ fun heq => hne (by rw [heq])]
      exact hpageOld.xheap
  · intro _
    rw [Function.update_eq_self]
    obtain ⟨gone, hnodup, hlength, hgone⟩ := h.givenUp _ hthread
    have hnot : slice.idx ∉ gone :=
      fun hin => ((hgone slice.idx).mp hin).2 queue hpage
    refine ⟨slice.idx :: gone, hnodup.cons hnot, ?_, ?_⟩
    · rw [List.length_cons, hlength, hinfo]
    · intro start
      rw [List.mem_cons, hgone]
      simp only [Unqueued, hmem, not_and, not_not]
      constructor
      · rintro (rfl | ⟨hat, hnone⟩)
        · exact ⟨hqueued.pageAt, fun _ _ => rfl⟩
        · exact ⟨hat, fun queue' hin => absurd hin (hnone queue')⟩
      · rintro ⟨hat, hall⟩
        by_cases heq : (⟨slice.segment, start⟩ : SlicePtr) = slice
        · exact .inl (congrArg SlicePtr.idx heq)
        · exact .inr ⟨hat, fun queue' hin =>
            heq (SlicePtr.page_inj (hall queue' hin))⟩

/-- `_pa_page_abandon`: the page is given up, and the segment with it when it
was the last one. -/
theorem pageAbandon
    (h : OrphanLaw w orphans live heapTid alive tiles lists qlists)
    {queue : ℕ × ℕ} {slice : SlicePtr} (hpage : slice.page ∈ qlists queue)
    (cfg : Config) (purgeOption : Bool) :
    ∃ w' orphans' lists' qlists',
      Palloc.pageAbandon cfg purgeOption w (heapTid queue.1) queue slice =
        some w' ∧
      AfterLeaving w w' slice.segment orphans orphans' ∧
      OrphanLaw w' orphans' live heapTid alive tiles lists' qlists' := by
  have hqueued := h.queued queue slice hpage
  set info := w.st.segments slice.segment with hinfo
  set w₁ : SegmentWorld := { w.leaveHeap queue slice with
    st := (w.leaveHeap queue slice).st.setSegment slice.segment
      { info with abandoned := info.abandoned + 1 } } with hw₁
  have hinfo₁ : w₁.st.segments slice.segment =
      { info with abandoned := info.abandoned + 1 } :=
    State.setSegment_self _ _ _
  have hgivenUp : ∃ qlists',
      OrphanLaw w₁ orphans live heapTid alive tiles lists qlists' :=
    h.giveUp hpage rfl (State.setSlice_self _ _ _)
      (fun other hne => State.setSlice_ne _ _ hne) hinfo₁
      (fun s hs => State.setSegment_ne _ _ hs) rfl rfl
  obtain ⟨qlists', hlaw⟩ := hgivenUp
  have hresult : Palloc.pageAbandon cfg purgeOption w (heapTid queue.1) queue
      slice = if info.used = info.abandoned + 1 then
        segmentAbandon cfg purgeOption w₁ (heapTid queue.1) slice.segment
      else some w₁ := rfl
  rw [hresult]
  split
  · next hlast =>
      have hthread : (w₁.st.segments slice.segment).threadId =
          heapTid queue.1 := by
        rw [hinfo₁]
        exact hqueued.thread
      have hne : heapTid queue.1 ≠ 0 := hqueued.thread ▸ hqueued.thread_ne
      have hall : (w₁.st.segments slice.segment).abandoned =
          (w₁.st.segments slice.segment).used := by
        rw [hinfo₁]
        exact hlast.symm
      obtain ⟨w', lists', hdone, hmarked, hnew⟩ :=
        hlaw.abandon hthread hne hall cfg purgeOption
      exact ⟨w', _, lists', qlists', hdone, .inr ⟨hmarked, rfl⟩, hnew⟩
  · exact ⟨w₁, orphans, lists, qlists', rfl, .inl ⟨rfl, rfl⟩, hlaw⟩

end OrphanLaw

end Palloc
