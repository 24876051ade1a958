import Palloc.PageQueueRun
import Palloc.SegmentTakeOver

/-!
# What a reclaim hands over

The loop of `pa_segment_reclaim` with the page queues.  Every page with live
blocks ends in one queue, the one of its bin in the heap of its tag, and no
other page moves.
-/

namespace Palloc

open IndexWalk LinkedQueue IntervalTiling

/-! ## The page queues -/

theorem QueueLaw.setXheap {queues : PageQueues} {alive : Finset ℕ}
    {takesPart : ℕ × ℕ → Bool} {qlists : ℕ × ℕ → List ℕ}
    (h : QueueLaw queues alive takesPart qlists) {page : ℕ}
    (hout : ∀ queue, page ∉ qlists queue) (heap : ℕ) :
    QueueLaw { queues with
      xheap := Function.update queues.xheap page heap } alive takesPart
      qlists := by
  refine ⟨h.live_of_alive, h.family, h.served, ?_, h.inFull, h.linked,
    h.count, h.direct⟩
  intro queue other hother
  have hne : other ≠ page := by
    rintro rfl
    exact hout queue hother
  exact (Function.update_of_ne hne _ _).trans (h.xheap queue other hother)

def State.reclaimQueue (st : State) (hp : ReclaimHeaps) (heap : ℕ)
    (slice : SlicePtr) : ℕ × ℕ :=
  (st.takerOf hp heap slice, bin (st.slices slice).blockSize)

def TakenPage (segment : ℕ) (l : List (Tile SpanKind)) (slice : SlicePtr) :
    Prop :=
  slice.segment = segment ∧ slice.idx ≠ 0 ∧
    ∃ tile ∈ l, tile.kind = .used ∧ tile.start = slice.idx

structure ReclaimedPages (st₀ : State) (hp : ReclaimHeaps)
    (heap segment blockSize : ℕ) (alive : Finset ℕ)
    (takesPart : ℕ × ℕ → Bool) (qlists₀ : ℕ × ℕ → List ℕ) (st : State)
    (queues : PageQueues) (right : Bool) (done : List (Tile SpanKind))
    (qlists : ℕ × ℕ → List ℕ) : Prop where
  law : QueueLaw queues alive takesPart qlists
  mem : ∀ queue page, page ∈ qlists queue ↔ page ∈ qlists₀ queue ∨
    ∃ slice, TakenPage segment done slice ∧ slice.page = page ∧
      st₀.reclaimQueue hp heap slice = queue
  right : right = true ↔ ∃ slice, TakenPage segment done slice ∧
    (st₀.slices slice).blockSize = blockSize ∧
    st₀.takerOf hp heap slice = heap ∧
    pageHasAnyAvailable (st.slices slice) = true

section

variable {st₀ st st' : State} {hp : ReclaimHeaps}
  {heap segment blockSize idx : ℕ} {alive : Finset ℕ}
  {takesPart : ℕ × ℕ → Bool} {qlists₀ qlists : ℕ × ℕ → List ℕ}
  {queues : PageQueues} {right : Bool}
  {done done' : List (Tile SpanKind)} {tile : Tile SpanKind}

theorem ReclaimedPages.keep
    (h : ReclaimedPages st₀ hp heap segment blockSize alive takesPart qlists₀
      st queues right done qlists)
    (hused : ∀ tile : Tile SpanKind, tile.kind = .used →
      (tile ∈ done' ↔ tile ∈ done))
    (hslices : ∀ slice, TakenPage segment done slice →
      st'.slices slice = st.slices slice) :
    ReclaimedPages st₀ hp heap segment blockSize alive takesPart qlists₀ st'
      queues right done' qlists := by
  have htaken : ∀ slice, TakenPage segment done' slice ↔
      TakenPage segment done slice := by
    intro slice
    unfold TakenPage
    refine and_congr_right fun _ => and_congr_right fun _ => ?_
    constructor
    · rintro ⟨tile, htile, hkind, hstart⟩
      exact ⟨tile, (hused tile hkind).mp htile, hkind, hstart⟩
    · rintro ⟨tile, htile, hkind, hstart⟩
      exact ⟨tile, (hused tile hkind).mpr htile, hkind, hstart⟩
  refine ⟨h.law, ?_, ?_⟩
  · intro queue page
    simp only [htaken]
    exact h.mem queue page
  · rw [h.right]
    constructor
    · rintro ⟨slice, hslice, hsize, htaker, hany⟩
      refine ⟨slice, (htaken slice).mpr hslice, hsize, htaker, ?_⟩
      rw [hslices slice hslice]
      exact hany
    · rintro ⟨slice, hslice, hsize, htaker, hany⟩
      have hold := (htaken slice).mp hslice
      rw [hslices slice hold] at hany
      exact ⟨slice, hold, hsize, htaker, hany⟩

theorem ReclaimedPages.push
    (h : ReclaimedPages st₀ hp heap segment blockSize alive takesPart qlists₀
      st queues right done qlists)
    (hheaps : ∀ tag, reclaimTarget hp heap tag ∈ alive)
    (hfresh : ∀ queue idx,
      (⟨segment, idx⟩ : SlicePtr).page ∉ qlists₀ queue)
    (hnew : ∀ other ∈ done, other.start ≠ tile.start)
    (hused : tile.kind = .used) (hzero : tile.start ≠ 0)
    (hslices : ∀ slice, TakenPage segment done slice →
      st'.slices slice = st.slices slice)
    {slice : SlicePtr} (hslice : slice = ⟨segment, tile.start⟩) :
    ReclaimedPages st₀ hp heap segment blockSize alive takesPart qlists₀ st'
      (pageReclaim queues (st₀.takerOf hp heap slice) slice.page
        (st₀.slices slice).blockSize)
      (right || (blockSize == (st₀.slices slice).blockSize &&
        pageHasAnyAvailable (st'.slices slice) &&
          heap == st₀.takerOf hp heap slice))
      (done ++ [tile])
      (Function.update qlists (st₀.reclaimQueue hp heap slice)
        (slice.page :: qlists (st₀.reclaimQueue hp heap slice))) := by
  subst hslice
  set slice : SlicePtr := ⟨segment, tile.start⟩
  have htaken : ∀ other, TakenPage segment (done ++ [tile]) other ↔
      TakenPage segment done other ∨ other = slice := by
    intro other
    constructor
    · rintro ⟨hsegment, hidx, t, ht, hkind, hstart⟩
      rw [List.mem_append, List.mem_singleton] at ht
      rcases ht with ht | rfl
      · exact .inl ⟨hsegment, hidx, t, ht, hkind, hstart⟩
      · right
        cases other
        simp only at hsegment hstart
        subst hsegment hstart
        rfl
    · rintro (⟨hsegment, hidx, t, ht, hkind, hstart⟩ | rfl)
      · exact ⟨hsegment, hidx, t, List.mem_append_left _ ht, hkind, hstart⟩
      · exact ⟨rfl, hzero, tile, by simp, hused, rfl⟩
  have hself : ¬ TakenPage segment done slice := by
    rintro ⟨-, -, t, ht, -, hstart⟩
    exact hnew t ht hstart
  have hout : ∀ queue, slice.page ∉ qlists queue := by
    intro queue hmem
    rcases (h.mem queue slice.page).mp hmem with hold | ⟨other, hother, heq, -⟩
    · exact hfresh queue tile.start hold
    · rw [SlicePtr.page_inj heq] at hother
      exact hself hother
  have hpush := (h.law.setXheap hout (st₀.takerOf hp heap slice)).push
    (hheaps _) (.inr ⟨(st₀.slices slice).blockSize, rfl⟩)
    (Function.update_self _ _ _) hout
  refine ⟨hpush, ?_, ?_⟩
  · intro queue page
    rw [Function.update_apply]
    simp only [htaken, or_and_right, exists_or, exists_eq_left]
    by_cases hqueue : queue = st₀.reclaimQueue hp heap slice
    · rw [if_pos hqueue, List.mem_cons, ← hqueue, h.mem queue page]
      simp only [hqueue, and_true]
      rw [@eq_comm _ page slice.page, or_comm, or_assoc]
    · rw [if_neg hqueue, h.mem queue page]
      have hne : st₀.reclaimQueue hp heap slice ≠ queue := Ne.symm hqueue
      simp [hne]
  · rw [Bool.or_eq_true, h.right]
    simp only [htaken, or_and_right, exists_or, exists_eq_left,
      Bool.and_eq_true, beq_iff_eq]
    refine or_congr ?_ ?_
    · constructor
      · rintro ⟨other, hother, hsize, htaker, hany⟩
        refine ⟨other, hother, hsize, htaker, ?_⟩
        rw [hslices other hother]
        exact hany
      · rintro ⟨other, hother, hsize, htaker, hany⟩
        rw [hslices other hother] at hany
        exact ⟨other, hother, hsize, htaker, hany⟩
    · constructor
      · rintro ⟨⟨hsize, hany⟩, htaker⟩
        exact ⟨hsize.symm, htaker.symm, hany⟩
      · rintro ⟨hsize, htaker, hany⟩
        exact ⟨⟨hsize.symm, hany⟩, htaker.symm⟩

end

/-! ## The loop -/

section Loop

variable {st₀ st : State} {tid : ℕ} {owned : Set ℕ}
  {tiles : ℕ → List (Tile SpanKind)} {segment : ℕ}
  {ts : List (Tile SpanKind)} {live : ℕ → List Addr} {hp : ReclaimHeaps}
  {heap idx blockSize : ℕ} {old done ahead : List (Tile SpanKind)}
  {lists : ℕ → List SlicePtr} {alive : Finset ℕ}
  {takesPart : ℕ × ℕ → Bool} {qlists₀ qlists : ℕ × ℕ → List ℕ}
  {queues : PageQueues} {right : Bool}

def ReclaimLoop (st₀ : State) (tid : ℕ) (owned : Set ℕ)
    (tiles : ℕ → List (Tile SpanKind)) (segment : ℕ)
    (ts : List (Tile SpanKind)) (live : ℕ → List Addr) (hp : ReclaimHeaps)
    (heap blockSize : ℕ) (alive : Finset ℕ) (takesPart : ℕ × ℕ → Bool)
    (qlists₀ : ℕ × ℕ → List ℕ) (idx : ℕ)
    (acc : (State × PageQueues) × Bool) : Prop :=
  ∃ old done ahead lists qlists,
    Reclaiming st₀ tid owned tiles segment ts live hp heap idx acc.1.1 old
      done ahead lists ∧
    ReclaimedPages st₀ hp heap segment blockSize alive takesPart qlists₀
      acc.1.1 acc.1.2 acc.2 done qlists

theorem reclaimSpan_spec (cfg : Config)
    (hholds : HoldsPages st₀ segment live ts)
    (hheaps : ∀ tag, reclaimTarget hp heap tag ∈ alive)
    (hfresh : ∀ queue idx,
      (⟨segment, idx⟩ : SlicePtr).page ∉ qlists₀ queue)
    {acc : (State × PageQueues) × Bool}
    (hlt : idx < (st₀.segments segment).sliceEntries)
    (hloop : ReclaimLoop st₀ tid owned tiles segment ts live hp heap blockSize
      alive takesPart qlists₀ idx acc) :
    ∃ idx' acc', reclaimSpan cfg hp tid heap segment blockSize idx acc =
        some (idx', acc') ∧ idx < idx' ∧
      ReclaimLoop st₀ tid owned tiles segment ts live hp heap blockSize alive
        takesPart qlists₀ idx' acc' := by
  obtain ⟨old, done, ahead, lists, qlists, h, hpages⟩ := hloop
  obtain ⟨⟨st, queues⟩, right⟩ := acc
  simp only at h hpages
  cases ahead with
  | nil => exact absurd h.after (by simp only [tiles_nil]; omega)
  | cons tile ahead =>
      have hstart : tile.start = idx := h.after.1
      have hcount := h.after.2.1
      have hpos := h.pos
      have hmove : idx < tile.stop := by
        simp only [Tile.stop]
        omega
      -- merging with a free span takes no page away
      have hmergedUsed : ∀ {done' ahead' : List (Tile SpanKind)}
          {first total : ℕ}, Merged done tile.start tile.count ahead done'
            first total ahead' → ∀ other : Tile SpanKind,
          other.kind = .used →
          (other ∈ done' ++ [⟨first, total, .free⟩] ↔ other ∈ done) := by
        intro done' ahead' first total hmerged other hused
        have hne : other ≠ ⟨first, total, .free⟩ := by
          rintro rfl
          cases hused
        simp [hne, (hmerged.mem_used hused).1]
      have hmergedSlices : ∀ {done' ahead' : List (Tile SpanKind)}
          {first total : ℕ} {st' : State},
          Merged done tile.start tile.count ahead done' first total ahead' →
          (∀ other ∈ done', st'.slices ⟨segment, other.start⟩ =
            st.slices ⟨segment, other.start⟩) →
          ∀ slice, TakenPage segment done slice →
            st'.slices slice = st.slices slice := by
        rintro done' ahead' first total st' hmerged hsame ⟨s, i⟩
          ⟨rfl, -, other, hother, hused, rfl⟩
        exact hsame other ((hmerged.mem_used hused).1.mp hother)
      subst hstart
      by_cases hused : tile.kind = .used
      · have hentry := (h.entry tile List.mem_cons_self hused).used hused
        have hsize := hentry.blockSize_pos
        obtain ⟨free, localFree, thread, hpage⟩ := hholds tile
          (by rw [h.split]; simp) hused (by omega)
        have hunvisited := h.unvisited tile List.mem_cons_self hused
        rw [← hunvisited] at hpage
        set slice : SlicePtr := ⟨segment, tile.start⟩ with hslice
        have htarget : reclaimTarget hp heap (st.slices slice).heapTag =
            st₀.takerOf hp heap slice := by
          rw [hunvisited]
          rfl
        obtain ⟨page, free', localFree', hcollect, hcollected, -⟩ :=
          (hpage.reclaimed hp (st₀.takerOf hp heap slice)).freeCollect false
        have hspan := pageFreeCollect_span hcollect
        have hsame : SameSpan (st.slices slice) page :=
          ⟨hspan.sliceCount, hspan.sliceOffset, hspan.blockSize⟩
        have hheap : page.xheap = some (st₀.takerOf hp heap slice) :=
          pageFreeCollect_xheap hcollect
        have hpageUsed : page.used = (live tile.start).length := by
          simpa using hcollected.used_eq
        have hsliceCount : page.sliceCount = tile.count :=
          hsame.sliceCount.trans hentry.sliceCount
        have hpageSize : page.blockSize = (st₀.slices slice).blockSize := by
          rw [← hunvisited]
          exact hsame.blockSize
        have hslices : (st.unabandonPage segment).slices = st.slices := rfl
        by_cases hlive : live tile.start = []
        · obtain ⟨first, total, st', old', done', ahead', lists', hclear,
            htotal, hmore, hnew, hmerged, hkept⟩ :=
              h.clearPage cfg hused hlive hsame
          rw [← hslice] at hclear
          refine ⟨first + total, ((st', queues), right), ?_, hmore, old',
            _, ahead', lists', qlists, hnew,
            hpages.keep (hmergedUsed hmerged) (hmergedSlices hmerged hkept)⟩
          have hzero : page.used = 0 := by
            rw [hpageUsed, hlive]
            rfl
          simp only [reclaimSpan, ← hslice, if_pos hsize, hslices, htarget,
            hcollect, if_pos hzero, hclear, htotal]
        · have hnew := h.takePage hused hlive hsame hheap hcollected
          have hother : ∀ other, TakenPage segment done other →
              ((st.unabandonPage segment).setSlice slice page).slices other =
                st.slices other := by
            rintro other ⟨-, -, t, ht, -, hidx⟩
            apply State.setSlice_ne
            rintro rfl
            have hbounds := h.before.bounds ht
            simp only [hslice, Tile.stop] at hidx hbounds
            omega
          have hapart : ∀ other ∈ done, other.start ≠ tile.start := by
            intro other hmem heq
            have hbounds := h.before.bounds hmem
            simp only [Tile.stop] at hbounds
            omega
          have hpushed := hpages.push hheaps hfresh hapart hused (by omega)
            hother hslice
          rw [← hpageSize, State.setSlice_self] at hpushed
          refine ⟨tile.stop, ((_, _), _), ?_, hmove, old ++ [tile], done ++ [tile],
            ahead, lists, _, hnew, hpushed⟩
          have hne : page.used ≠ 0 := by
            rw [hpageUsed]
            simpa using hlive
          simp only [reclaimSpan, ← hslice, if_pos hsize, hslices, htarget,
            hcollect, if_neg hne, hsliceCount, Tile.stop]
          rfl
      · have hfree : tile.kind = .free := by
          have hne := h.idle tile (.inr List.mem_cons_self)
          cases hcase : tile.kind with
          | used => exact absurd hcase hused
          | free => rfl
          | detached => exact absurd hcase hne
        obtain ⟨first, total, st', old', done', ahead', lists', hcoalesce,
          htotal, hmore, hnew, hmerged, hkept⟩ := h.takeSpan cfg hfree
        refine ⟨first + total, ((st', queues), right), ?_, hmore, old', _,
          ahead', lists', qlists, hnew,
          hpages.keep (hmergedUsed hmerged) (hmergedSlices hmerged hkept)⟩
        have hzero := (h.parked tile List.mem_cons_self hfree).span.blockSize
        simp only [reclaimSpan, hzero, Nat.lt_irrefl, if_false, hcoalesce,
          htotal]

/-! ## The whole reclaim -/

structure Reclaimable (w : SegmentWorld) (tid : ℕ) (owned : Set ℕ)
    (tiles : ℕ → List (Tile SpanKind)) (lists : ℕ → List SlicePtr)
    (segment : ℕ) (ts : List (Tile SpanKind)) (live : ℕ → List Addr)
    (hp : ReclaimHeaps) (heap : ℕ) (alive : Finset ℕ)
    (takesPart : ℕ × ℕ → Bool) (qlists : ℕ × ℕ → List ℕ) : Prop where
  spans : SpanInvariant w.st .idle tid owned tiles lists
  fresh : segment ∉ owned
  abandoned : AbandonedSegment w.st segment ts
  pages : HoldsPages w.st segment live ts
  dontFree : (w.st.segments segment).dontFree = false
  queues : QueueLaw w.queues alive takesPart qlists
  unqueued : ∀ queue idx, (⟨segment, idx⟩ : SlicePtr).page ∉ qlists queue
  heap_alive : heap ∈ alive
  heaps_alive : ∀ other ∈ hp.heaps, other ∈ alive

/-- A segment that was taken over: exactly the pages with live blocks stay,
each with its blocks, in one queue of the thread; no page counts as
abandoned. -/
structure ReclaimedSegment (w w' : SegmentWorld) (tid : ℕ) (owned : Set ℕ)
    (tiles : ℕ → List (Tile SpanKind)) (segment : ℕ)
    (ts ts' : List (Tile SpanKind)) (live : ℕ → List Addr)
    (hp : ReclaimHeaps) (heap blockSize : ℕ) (alive : Finset ℕ)
    (takesPart : ℕ × ℕ → Bool) (qlists qlists' : ℕ × ℕ → List ℕ)
    (right : Bool) : Prop where
  spans : ∃ lists', SpanInvariant w'.st .idle tid (insert segment owned)
    (Function.update tiles segment ts') lists'
  kept : ∀ tile : Tile SpanKind, tile.kind = .used →
    (tile ∈ ts' ↔ tile ∈ ts ∧ KeptTile live tile)
  pages : ∀ tile ∈ ts', tile.kind = .used → tile.start ≠ 0 →
    (w'.st.slices ⟨segment, tile.start⟩).xheap =
        some (w.st.takerOf hp heap ⟨segment, tile.start⟩) ∧
      ∃ free localFree, PagePartition (w'.st.slices ⟨segment, tile.start⟩)
        (live tile.start) free localFree []
  abandoned : (w'.st.segments segment).abandoned = 0
  queues : ReclaimedPages w.st hp heap segment blockSize alive takesPart
    qlists w'.st w'.queues right ts' qlists'
  dontFree : (w'.st.segments segment).dontFree =
    (w.st.segments segment).dontFree
  writes : WritesOnly w.st w'.st tid segment (insert segment owned)
  marked : w'.marked = w.marked
  released : w'.released = w.released

theorem SpanInvariant.congrTiles {tiles' : ℕ → List (Tile SpanKind)}
    (h : SpanInvariant st .idle tid owned tiles lists)
    (hsame : ∀ s ∈ owned, tiles s = tiles' s) :
    SpanInvariant st .idle tid owned tiles' lists := by
  refine ⟨h.layout.congrTiles hsame, fun s hs => hsame s hs ▸ h.used s hs,
    fun s hs => hsame s hs ▸ h.detached s hs, ?_, ?_⟩
  · intro slice hslice
    cases hslice
  · intro slice hslice
    cases hslice

def HoldsLive (ts : List (Tile SpanKind)) (live : ℕ → List Addr) : Prop :=
  ∃ tile ∈ ts, tile.kind = .used ∧ tile.start ≠ 0 ∧ live tile.start ≠ []

theorem reclaiming_start {w : SegmentWorld} {info : Tile SpanKind}
    (h : Reclaimable w tid owned tiles lists segment (info :: ahead) live hp
      heap alive takesPart qlists)
    (hzero : info.start = 0) (hkind : info.kind = .used) {st : State}
    (hst : st = w.st.setSegment segment { w.st.segments segment with
      threadId := tid
      abandonedVisits := 0
      wasReclaimed := true }) :
    Reclaiming w.st tid owned tiles segment (info :: ahead) live hp heap
      info.count st [info] [info] ahead lists := by
  have hself : st.segments segment = { w.st.segments segment with
      threadId := tid
      abandonedVisits := 0
      wasReclaimed := true } := by
    rw [hst]
    exact State.setSegment_self _ _ _
  have hothers : ∀ s, s ≠ segment → st.segments s = w.st.segments s := by
    intro s hs
    rw [hst]
    exact State.setSegment_ne _ _ hs
  have hslices : st.slices = w.st.slices := by rw [hst]; rfl
  have hlinks : st.links = w.st.links := by rw [hst]; rfl
  have hspans : st.spans = w.st.spans := by rw [hst]; rfl
  have htiled := h.abandoned.tiled
  have hpos := htiled.2.1
  have hafter := htiled.2.2
  simp only [Tile.stop, hzero, Nat.zero_add] at hafter
  have hlayout := h.spans.layout.takeOver h.fresh h.abandoned
    (by rw [hself]) (by rw [hself]) (by rw [hself]) hslices hothers hlinks
    hspans
  have hpark : parkTile info = info := parkTile_of_ne (by rw [hkind]; decide)
  rw [park_cons, hpark] at hlayout
  have hentry : ∀ tile ∈ info :: ahead, SpanEntry st segment tile := by
    intro tile htile
    apply (h.abandoned.entry tile htile).congr (htiled.bounds htile).2.1
    intro i _ _
    rw [hslices]
    exact .refl _
  have hused := h.abandoned.used
  have hall := h.abandoned.abandoned
  refine
    { pos := hpos
      split := rfl
      layout := hlayout
      before := ⟨hzero, hpos, by simp [Tile.stop, hzero]⟩
      after := hafter
      idle := ?_
      entry := fun tile htile _ => hentry tile (List.mem_cons_of_mem _ htile)
      parked := ?_
      kept := ?_
      unvisited := fun _ _ _ => by rw [hslices]
      visited := ?_
      used := by rw [hself]; exact hused
      abandoned := ?_
      dontFree := by rw [hself]
      others := hothers
      frame := fun _ _ => by rw [hslices]
      links := fun _ _ => by rw [hlinks]; exact ⟨rfl, rfl⟩
      spans := fun t _ => by rw [hspans] }
  · rintro tile (htile | htile)
    · exact h.abandoned.kinds tile (List.mem_append_left ahead htile)
    · exact h.abandoned.kinds tile (List.mem_cons_of_mem _ htile)
  · intro tile htile hfree
    have hmem := List.mem_cons_of_mem info htile
    have hold := h.abandoned.parked tile hmem hfree
    refine ⟨(hentry tile hmem).free hfree, ?_, ?_⟩
    · rw [hlinks]
      exact hold.next
    · rw [hlinks]
      exact hold.prev
  · intro tile hcase
    simp only [List.mem_singleton, iff_self_and]
    rintro rfl
    exact ⟨hcase, .inl hzero⟩
  · intro tile htile _ hfirst
    rw [List.mem_singleton] at htile
    exact absurd (htile ▸ hzero) hfirst
  · rw [hself]
    simp only [usedCount_cons, hkind, if_true] at hused
    change (w.st.segments segment).abandoned = _
    omega

theorem not_takenPage {l : List (Tile SpanKind)}
    (hnone : ∀ tile ∈ l, tile.kind = .used → tile.start = 0)
    (slice : SlicePtr) : ¬ TakenPage segment l slice := by
  rintro ⟨-, hidx, tile, htile, hused, hstart⟩
  exact hidx (hstart ▸ hnone tile htile hused)

/-- Reclaiming a segment ends.  It hands all pages with live blocks to the
thread, or, when there is none, frees the segment. -/
theorem segmentReclaim_ends {w : SegmentWorld} (cfg : Config)
    (h : Reclaimable w tid owned tiles lists segment ts live hp heap alive
      takesPart qlists) (blockSize : ℕ) :
    ∃ kept right w', segmentReclaim cfg hp w tid heap segment blockSize =
        some (kept, right, w') ∧
      (kept = true ↔ HoldsLive ts live) ∧
      (kept = true → ∃ ts' qlists', ReclaimedSegment w w' tid owned tiles
        segment ts ts' live hp heap blockSize alive takesPart qlists qlists'
        right) ∧
      (kept = false → right = false ∧
        w'.released = segment :: w.released ∧
        (w'.st.segments segment).threadId = 0 ∧
        (∃ lists', SpanInvariant w'.st .idle tid owned tiles lists') ∧
        (∃ qlists', QueueLaw w'.queues alive takesPart qlists' ∧
          ∀ queue page, page ∈ qlists' queue ↔ page ∈ qlists queue) ∧
        w'.marked = w.marked ∧
        WritesOnly w.st w'.st tid segment (insert segment owned)) := by
  obtain ⟨info, hinfo, hzero, hkind⟩ := h.abandoned.info
  obtain ⟨ahead, rfl⟩ : ∃ ahead, ts = info :: ahead := by
    cases ts with
    | nil => cases hinfo
    | cons first ahead =>
        have hsame := h.abandoned.tiled.eq_of_start hinfo List.mem_cons_self
          (hzero.trans h.abandoned.tiled.1.symm)
        exact ⟨ahead, by rw [hsame]⟩
  set st := w.st.setSegment segment { w.st.segments segment with
    threadId := tid
    abandonedVisits := 0
    wasReclaimed := true } with hst
  have hself : st.segments segment = { w.st.segments segment with
      threadId := tid
      abandonedVisits := 0
      wasReclaimed := true } := State.setSegment_self _ _ _
  have hothers : ∀ s, s ≠ segment → st.segments s = w.st.segments s :=
    fun s hs => State.setSegment_ne _ _ hs
  have hstart := reclaiming_start h hzero hkind hst
  have hcount : slicesStartIterate st segment = info.count := by
    have hhead := (h.abandoned.head hinfo).1
    rw [hzero] at hhead
    exact hhead
  have hinfoOnly : ∀ tile ∈ [info], tile.kind = .used → tile.start = 0 := by
    intro tile htile _
    rw [List.mem_singleton] at htile
    rw [htile, hzero]
  have hpages : ReclaimedPages w.st hp heap segment blockSize alive takesPart
      qlists st w.queues false [info] qlists := by
    refine ⟨h.queues, ?_, ?_⟩
    · simp [not_takenPage hinfoOnly]
    · simp [not_takenPage hinfoOnly]
  have hheaps : ∀ tag, reclaimTarget hp heap tag ∈ alive := by
    intro tag
    rcases reclaimTarget_mem hp heap tag with heq | hmem
    · rw [heq]
      exact h.heap_alive
    · exact h.heaps_alive _ hmem
  obtain ⟨idx, ⟨⟨st', queues⟩, right⟩, hwalk, hstop, old, done, ahead', lists',
    qlists', hend, hpagesEnd⟩ := walk_induction
      (fun idx acc hlt hloop => reclaimSpan_spec cfg h.pages hheaps h.unqueued
        hlt hloop)
      (show ReclaimLoop w.st tid owned tiles segment (info :: ahead) live hp
        heap blockSize alive takesPart qlists info.count
          ((st, w.queues), false) from
        ⟨_, _, _, _, _, hstart, hpages⟩)
      (show (w.st.segments segment).sliceEntries - info.count <
        (w.st.segments segment).sliceEntries + 1 by omega)
  simp only at hend hpagesEnd
  -- nothing is ahead at the end
  obtain rfl : ahead' = [] := by
    cases ahead' with
    | nil => rfl
    | cons tile rest =>
        have hle := hend.after.2.2.le
        have htile := hend.after.1
        have hpos := hend.after.2.1
        simp only [Tile.stop] at hle
        omega
  have hold := hend.split
  rw [List.append_nil] at hold
  have hlayout := hend.layout
  rw [park_nil, List.append_nil] at hlayout
  have hused := hend.used
  rw [List.append_nil] at hused
  have hmemTiles := hlayout.tiled segment (Set.mem_insert _ _)
  rw [Function.update_self] at hmemTiles
  have hspans : SpanInvariant st' .idle tid (insert segment owned)
      (Function.update tiles segment done) lists' := by
    refine ⟨hlayout, ?_, ?_, ?_, ?_⟩
    · rintro s (rfl | hs)
      · rw [Function.update_self]
        exact hused
      · have hne : s ≠ segment := by
          rintro rfl
          exact h.fresh hs
        rw [Function.update_of_ne hne, hend.others s hne]
        exact h.spans.used s hs
    · rintro s (rfl | hs) tile htile hcase
      · rw [Function.update_self] at htile
        exact absurd hcase (hend.idle tile (.inl htile))
      · have hne : s ≠ segment := by
          rintro rfl
          exact h.fresh hs
        rw [Function.update_of_ne hne] at htile
        exact absurd hcase (h.spans.not_detached hs htile)
    · intro slice hslice
      cases hslice
    · intro slice hslice
      cases hslice
  have hinfoDone : info ∈ done := (hend.kept info hkind).mpr
    ⟨hold ▸ List.mem_cons_self, hkind, .inl hzero⟩
  -- the segment is empty when no page has live blocks
  have hempty : (st'.segments segment).used = 0 ↔
      ¬ HoldsLive (info :: ahead) live := by
    have hone := usedCount_eq_one_iff hmemTiles hinfoDone hkind
    rw [hzero, ← hused] at hone
    rw [← Nat.add_left_inj (n := 1), zero_add, hone]
    constructor
    · rintro honly ⟨tile, htile, hcase, hfirst, hlive⟩
      exact hfirst (honly tile ((hend.kept tile hcase).mpr
        ⟨hold ▸ htile, hcase, .inr hlive⟩) hcase)
    · intro hnone tile htile hcase
      obtain ⟨hmem, -, hkeep⟩ := (hend.kept tile hcase).mp htile
      by_contra hfirst
      exact hnone ⟨tile, hold ▸ hmem, hcase, hfirst,
        hkeep.resolve_left hfirst⟩
  set tld := ({ w.tlds tid with
    reclaimCount := (w.tlds tid).reclaimCount + 1 } : SegmentsTld).trackSize
      (segmentByteSize (w.st.segments segment)) with htld
  set w₁ : SegmentWorld :=
    { w.setTld tid tld with st := st', queues := queues } with hw₁
  have hresult : segmentReclaim cfg hp w tid heap segment blockSize =
      if (st'.segments segment).used = 0 then
        (segmentFree w₁ tid segment).map fun w => (false, right, w)
      else some (true, right, w₁) := by
    simp only [segmentReclaim, ← hst, hcount, hwalk, ← htld, ← hw₁]
  have hwrites : WritesOnly w.st st' tid segment (insert segment owned) :=
    ⟨hend.frame, hend.others, hend.links, hend.spans⟩
  rw [hresult]
  by_cases hlive : HoldsLive (info :: ahead) live
  · rw [if_neg fun hnone => hempty.mp hnone hlive]
    refine ⟨true, right, w₁, rfl, by simp [hlive], fun _ => ⟨done, qlists',
      ⟨lists', hspans⟩, ?_, hend.visited, ?_, hpagesEnd, hend.dontFree,
      hwrites, rfl, rfl⟩, by simp⟩
    · rw [hold]
      exact hend.kept
    · exact hend.abandoned
  · rw [if_pos (hempty.mpr hlive)]
    have hdontFree : (w₁.st.segments segment).dontFree = false :=
      hend.dontFree.trans h.dontFree
    obtain ⟨w', lists'', hfree, hinv, -, hqueues, hreleased, hthread,
      hmarked, hfreeWrites⟩ :=
      segmentFree_spec (w := w₁) hspans (Set.mem_insert _ _) hdontFree
    rw [hfree]
    rw [Set.insert_sdiff_self_of_notMem h.fresh] at hinv
    have honly : ∀ tile ∈ done, tile.kind = .used → tile.start = 0 := by
      intro tile htile hcase
      obtain ⟨hmem, -, hkeep⟩ := (hend.kept tile hcase).mp htile
      by_contra hfirst
      exact hlive ⟨tile, hold ▸ hmem, hcase, hfirst,
        hkeep.resolve_left hfirst⟩
    refine ⟨false, right, w', rfl, by simp [hlive], by simp, fun _ =>
      ⟨?_, hreleased, hthread, ⟨lists'', ?_⟩, ⟨qlists', ?_, ?_⟩, hmarked,
        hwrites.trans hfreeWrites⟩⟩
    · rw [← Bool.not_eq_true, hpagesEnd.right]
      rintro ⟨slice, htaken, -⟩
      exact not_takenPage honly slice htaken
    · apply hinv.congrTiles
      intro s hs
      apply Function.update_of_ne
      rintro rfl
      exact h.fresh hs
    · rw [hqueues]
      exact hpagesEnd.law
    · intro queue page
      rw [hpagesEnd.mem]
      simp [not_takenPage honly]

theorem QueueLaw.queue_unique {queues : PageQueues}
    (h : QueueLaw queues alive takesPart qlists) {queue queue' : ℕ × ℕ}
    {page : ℕ} (hpage : page ∈ qlists queue) (hpage' : page ∈ qlists queue') :
    queue = queue' :=
  h.family.disjoint queue queue' page hpage hpage'

theorem ReclaimedSegment.queues_other
    (h : ReclaimedSegment w w' tid owned tiles segment ts ts' live hp heap
      blockSize alive takesPart qlists qlists' right) (queue : ℕ × ℕ)
    {slice : SlicePtr} (hslice : slice.segment ≠ segment) :
    slice.page ∈ qlists' queue ↔ slice.page ∈ qlists queue := by
  rw [h.queues.mem, or_iff_left]
  rintro ⟨taken, htaken, hpage, -⟩
  rw [SlicePtr.page_inj hpage] at htaken
  exact hslice htaken.1

/-- Reclaiming a segment ends, and frees it exactly when none of its pages has
a live block.  Otherwise the thread has exactly the pages with live blocks,
each with all of these and in one page queue of one of its heaps; every free
span is in one span queue and touches no other; and no page counts as
abandoned any more.  All other pages stay in their queues. -/
theorem segmentReclaim_spec {w : SegmentWorld} (cfg : Config)
    (h : Reclaimable w tid owned tiles lists segment ts live hp heap alive
      takesPart qlists) (blockSize : ℕ) :
    ∃ kept right w', segmentReclaim cfg hp w tid heap segment blockSize =
        some (kept, right, w') ∧
      (kept = true ↔ HoldsLive ts live) ∧
      (kept = false → w'.released = segment :: w.released ∧
        (∃ lists', SpanInvariant w'.st .idle tid owned tiles lists') ∧
        ∃ qlists', QueueLaw w'.queues alive takesPart qlists' ∧
          ∀ queue page, page ∈ qlists' queue ↔ page ∈ qlists queue) ∧
      (kept = true → ∃ ts' lists' qlists',
        SpanInvariant w'.st .idle tid (insert segment owned)
          (Function.update tiles segment ts') lists' ∧
        (∀ tile : Tile SpanKind, tile.kind = .used →
          (tile ∈ ts' ↔ tile ∈ ts ∧ KeptTile live tile)) ∧
        (∀ tile ∈ ts', tile.kind = .free →
          (∃! bin, (⟨segment, tile.start⟩ : SlicePtr) ∈ lists' bin) ∧
            ∀ other ∈ ts', other.kind = .free →
              tile.stop ≠ other.start) ∧
        QueueLaw w'.queues alive takesPart qlists' ∧
        (∀ queue (slice : SlicePtr), slice.segment ≠ segment →
          (slice.page ∈ qlists' queue ↔ slice.page ∈ qlists queue)) ∧
        (∀ tile ∈ ts', tile.kind = .used → tile.start ≠ 0 →
          (∃! queue, (⟨segment, tile.start⟩ : SlicePtr).page ∈
            qlists' queue) ∧
          (∃ other, (other = heap ∨ other ∈ hp.heaps) ∧
            (w'.st.slices ⟨segment, tile.start⟩).xheap = some other) ∧
          ∃ free localFree,
            PagePartition (w'.st.slices ⟨segment, tile.start⟩)
              (live tile.start) free localFree []) ∧
        (w'.st.segments segment).abandoned = 0) := by
  obtain ⟨kept, right, w', hresult, hlive, hkept, hfreed⟩ :=
    segmentReclaim_ends cfg h blockSize
  refine ⟨kept, right, w', hresult, hlive, ?_, ?_⟩
  · intro hfalse
    obtain ⟨-, hreleased, -, hspans, hqueues, -⟩ := hfreed hfalse
    exact ⟨hreleased, hspans, hqueues⟩
  · intro htrue
    obtain ⟨ts', qlists', hsegment⟩ := hkept htrue
    obtain ⟨lists', hspans⟩ := hsegment.spans
    have howned : segment ∈ insert segment owned := Set.mem_insert _ _
    refine ⟨ts', lists', qlists', hspans, hsegment.kept, ?_,
      hsegment.queues.law, hsegment.queues_other, ?_, hsegment.abandoned⟩
    · intro tile htile hfree
      have hmem : tile ∈ Function.update tiles segment ts' segment := by
        rw [Function.update_self]
        exact htile
      have hqueued := hspans.layout.free_mem howned hmem hfree
      refine ⟨⟨_, hqueued, ?_⟩, ?_⟩
      · intro bin hbin
        exact hspans.layout.queues.disjoint _ _ _ hbin hqueued
      · intro other hother hfree'
        have hmem' : other ∈ Function.update tiles segment ts' segment := by
          rw [Function.update_self]
          exact hother
        exact hspans.layout.apart segment howned tile hmem other hmem' hfree
          hfree'
    · intro tile htile hused hfirst
      obtain ⟨hheap, hpage⟩ := hsegment.pages tile htile hused hfirst
      have hqueued := (hsegment.queues.mem
        (w.st.reclaimQueue hp heap ⟨segment, tile.start⟩)
        (⟨segment, tile.start⟩ : SlicePtr).page).mpr
          (.inr ⟨⟨segment, tile.start⟩,
            ⟨rfl, hfirst, tile, htile, hused, rfl⟩, rfl, rfl⟩)
      refine ⟨⟨_, hqueued, ?_⟩, ⟨_, reclaimTarget_mem hp heap _, hheap⟩,
        hpage⟩
      intro queue hqueue
      exact hsegment.queues.law.queue_unique hqueue hqueued

end Loop

def orphanWorld : SegmentWorld where
  st := orphanState
  queues := noQueues.initHeap 5
  tlds := fun _ => ⟨0, 0, 0⟩
  marked := fun _ => false
  released := []

theorem orphan_reclaimable :
    Reclaimable orphanWorld 2 ∅ (fun _ => []) (fun _ => []) 1 orphanTiles
      orphanLive ⟨fun _ => 0, [5]⟩ 5 {5} (aliveQueues {5})
      (fun _ => []) := by
  have hlayout : SpanLayout orphanState 2 ∅ (fun _ => []) (fun _ => []) := by
    refine ⟨by decide, by simp, by simp, by simp, by simp, by simp,
      by simp, ⟨fun _ => .nil _, by simp⟩, by simp⟩
  have hqueues : QueueLaw noQueues ∅ (aliveQueues ∅) fun _ => [] :=
    { live_of_alive := by simp
      family := ⟨fun _ => .nil _, by simp⟩
      served := by simp
      xheap := by simp
      inFull := by simp
      linked := by simp [noQueues]
      count := by simp
      direct := by simp }
  refine
    { spans := ⟨hlayout, by simp, by simp, ?_, ?_⟩
      fresh := Set.notMem_empty 1
      abandoned := orphan_abandoned
      pages := orphan_pages
      dontFree := rfl
      queues := hqueues.initHeap (Finset.notMem_empty 5)
      unqueued := by simp
      heap_alive := Finset.mem_singleton_self 5
      heaps_alive := by simp }
  · intro slice hslice
    cases hslice
  · intro slice hslice
    cases hslice

theorem segmentReclaim_orphan : ∃ right w' ts' lists',
    segmentReclaim {} ⟨fun _ => 0, [5]⟩ orphanWorld 2 5 1 1024 =
        some (true, right, w') ∧
      SpanInvariant w'.st .idle 2 (insert 1 ∅)
        (Function.update (fun _ => []) 1 ts') lists' ∧
      (w'.st.segments 1).abandoned = 0 := by
  obtain ⟨kept, right, w', hresult, hlive, -, hkept⟩ :=
    segmentReclaim_spec {} orphan_reclaimable 1024
  have hholds : HoldsLive orphanTiles orphanLive :=
    ⟨⟨1, 8, .used⟩, by decide, rfl, by decide, by decide⟩
  have htrue := hlive.mpr hholds
  obtain ⟨ts', lists', qlists', hspans, -, -, -, -, -, habandoned⟩ :=
    hkept htrue
  rw [htrue] at hresult
  exact ⟨right, w', ts', lists', hresult, hspans, habandoned⟩

end Palloc
