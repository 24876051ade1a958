import Palloc.OrphanVisit
import Palloc.ThreadSpans

/-!
# Pages that are freed

A page without blocks leaves its queue, and its span is merged with the free
spans beside it.  The segment goes back with its last page; it is abandoned
when all pages that are left have been given up.
-/

namespace Palloc

open LinkedQueue IntervalTiling

section PageAt

variable {st st' : State} {segment idx start : ℕ}
  {tiles : ℕ → List (Tile SpanKind)} {ts' : List (Tile SpanKind)}

theorem PagesKept.pageAt_ne
    (hkept : PagesKept st st' segment idx (tiles segment) ts')
    (hstart : start ≠ idx) :
    PageAt (Function.update tiles segment ts') ⟨segment, start⟩ ↔
      PageAt tiles ⟨segment, start⟩ := by
  simp only [PageAt, Function.update_self]
  refine and_congr_right fun _ => exists_congr fun tile => ?_
  constructor
  · rintro ⟨htile, hused, rfl⟩
    exact ⟨(hkept.tiles tile hused hstart).mp htile, hused, rfl⟩
  · rintro ⟨htile, hused, rfl⟩
    exact ⟨(hkept.tiles tile hused hstart).mpr htile, hused, rfl⟩

/-- The pages are the ones before, apart from the one that is cleared. -/
theorem PagesKept.pageAt
    (hkept : PagesKept st st' segment idx (tiles segment) ts')
    (hgone : ∀ tile ∈ ts', tile.kind = .used → tile.start ≠ idx) :
    PageAt (Function.update tiles segment ts') ⟨segment, start⟩ ↔
      start ≠ idx ∧ PageAt tiles ⟨segment, start⟩ := by
  by_cases hstart : start = idx
  · subst hstart
    simp only [ne_eq, not_true, false_and, iff_false]
    rintro ⟨-, tile, htile, hused, heq⟩
    rw [Function.update_self] at htile
    exact hgone tile htile hused heq
  · rw [hkept.pageAt_ne hstart, and_iff_right hstart]

/-- The pages are the ones before and the one that is made. -/
theorem PagesKept.pageAt_made
    (hkept : PagesKept st st' segment idx (tiles segment) ts')
    (hidx : idx ≠ 0)
    (hmade : ∃ tile ∈ ts', tile.kind = .used ∧ tile.start = idx) :
    PageAt (Function.update tiles segment ts') ⟨segment, start⟩ ↔
      start = idx ∨ PageAt tiles ⟨segment, start⟩ := by
  by_cases hstart : start = idx
  · subst hstart
    refine iff_of_true ⟨hidx, ?_⟩ (.inl rfl)
    rw [Function.update_self]
    exact hmade
  · rw [hkept.pageAt_ne hstart, or_iff_right hstart]

end PageAt

namespace OrphanLaw

variable {w : SegmentWorld} {orphans : Set ℕ} {live : ℕ → ℕ → List Addr}
  {heapTid : ℕ → ℕ} {alive : Finset ℕ} {tiles : ℕ → List (Tile SpanKind)}
  {lists : ℕ → ℕ → List SlicePtr} {qlists : ℕ × ℕ → List ℕ}
  {tid segment : ℕ}

theorem live_eq_nil
    (h : OrphanLaw w orphans live heapTid alive tiles lists qlists)
    {queue : ℕ × ℕ} {slice : SlicePtr} (hpage : slice.page ∈ qlists queue)
    (hunused : (w.st.slices slice).used = 0) :
    live slice.segment slice.idx = [] := by
  have hqueued := h.queued queue slice hpage
  obtain ⟨hidx, tile, htile, hused, hstart⟩ := hqueued.pageAt
  obtain ⟨free, localFree, thread, hpart⟩ :=
    h.pages _ (.inl hqueued.thread_ne) tile htile hused (hstart ▸ hidx)
  rw [hstart] at hpart
  have hcount := hpart.used_eq
  have hzero : (w.st.slices ⟨slice.segment, slice.idx⟩).used = 0 := hunused
  have hlength : (live slice.segment slice.idx).length = 0 := by omega
  exact List.length_eq_zero_iff.mp hlength

/-- The page leaves its queue and its span is cleared. -/
theorem clearPage
    (h : OrphanLaw w orphans live heapTid alive tiles lists qlists)
    {queue : ℕ × ℕ} {slice : SlicePtr} (hpage : slice.page ∈ qlists queue)
    (hempty : live slice.segment slice.idx = []) (cfg : Config) (st : State)
    (hslice : SameSpan (w.st.slices slice) (st.slices slice))
    (hother : ∀ other, other ≠ slice →
      st.slices other = w.st.slices other)
    (hsegments : st.segments = w.st.segments)
    (hlinks : st.links = w.st.links) (hspans : st.spans = w.st.spans) :
    ∃ st' tiles' lists' qlists',
      (segmentPageClear cfg st (heapTid queue.1) slice).2 = st' ∧
      (st'.segments slice.segment).threadId = heapTid queue.1 ∧
      OrphanLaw { w with
        queues := w.queues.pageQueueRemove queue slice.page
        st := st' } orphans live heapTid alive tiles' lists' qlists' := by
  have hqueued := h.queued queue slice hpage
  have hthread := hqueued.thread
  have htid : heapTid queue.1 ≠ 0 := hthread ▸ hqueued.thread_ne
  obtain ⟨qlists', hlaw, hmem⟩ := h.leaveQueue hpage
  obtain ⟨hidx, tile, htile, hused, hstart⟩ := hqueued.pageAt
  obtain ⟨before, after, hsplit⟩ := List.append_of_mem htile
  have htiles : tiles slice.segment =
      before ++ [⟨slice.idx, tile.count, .used⟩] ++ after := by
    rw [hsplit, ← hstart, ← hused]
    simp
  have hinv : SpanInvariant st .idle (heapTid queue.1)
      (w.ownedBy (heapTid queue.1)) tiles (lists (heapTid queue.1)) := by
    refine (h.threads _ htid).congrSpans ?_ ?_ hlinks hspans ?_
    · intro other
      by_cases heq : other = slice
      · rw [heq]
        exact hslice
      · rw [hother other heq]
        exact .refl _
    · intro s _
      rw [hsegments]
      exact .refl _
    · intro s _
      rw [hsegments]
  obtain ⟨first, st', ts', lists', hclear, hnew, hgone, hkept, hwrites⟩ :=
    hinv.clear cfg hthread htiles hidx
  have hall : WritesOnly w.st st' (heapTid queue.1) slice.segment
      (w.ownedBy (heapTid queue.1)) := by
    refine WritesOnly.trans (.of_slice hother ?_ hlinks hspans) hwrites
    intro s _
    rw [hsegments]
  have hthread' : (st'.segments slice.segment).threadId = heapTid queue.1 :=
    hnew.layout.threadId _ hthread
  have hne' : (st'.segments slice.segment).threadId ≠ 0 :=
    hthread'.trans_ne htid
  set w' : SegmentWorld := { w with
    queues := w.queues.pageQueueRemove queue slice.page
    st := st' } with hw'
  have howned : w'.ownedBy (heapTid queue.1) =
      w.ownedBy (heapTid queue.1) :=
    SegmentWorld.ownedBy_same hall.segments (iff_of_true hthread' hthread)
  have hat : ∀ start,
      PageAt (Function.update tiles slice.segment ts') ⟨slice.segment, start⟩ ↔
        start ≠ slice.idx ∧ PageAt tiles ⟨slice.segment, start⟩ :=
    fun _ => hkept.pageAt hgone
  have hdata : ∀ other ∈ ts', other.kind = .used →
      st'.slices ⟨slice.segment, other.start⟩ =
        w.st.slices ⟨slice.segment, other.start⟩ := by
    intro other hin hkind
    have hstart' := hgone other hin hkind
    exact (hkept.data other hin hkind hstart').trans
      (hother _ fun heq => hstart' (congrArg SlicePtr.idx heq))
  have hresult : OrphanLaw w' orphans live heapTid alive
      (Function.update tiles slice.segment ts')
      (Function.update lists (heapTid queue.1) lists') qlists' := by
    refine h.rewrite hall (Set.subset_insert _ _) (.inr hthread)
      (.inr hthread') (howned ▸ hnew) (fun s _ => Iff.rfl) ?_ ?_ ?_
      (fun s _ => rfl) ?_ hlaw ?_ ?_ ?_
    · exact fun horphan =>
        absurd (h.orphan_threadId horphan) hqueued.thread_ne
    · intro _
      refine hkept.dontFree.trans ?_
      rw [hsegments]
      exact h.dontFree _ (.inl hqueued.thread_ne)
    · intro _ other hin hkind hfirst
      have hold := (hkept.tiles other hkind (hgone other hin hkind)).mp hin
      obtain ⟨free, localFree, thread, hpart⟩ :=
        h.pages _ (.inl hqueued.thread_ne) other hold hkind hfirst
      rw [← hdata other hin hkind] at hpart
      exact ⟨free, localFree, thread, hpart⟩
    · intro start hlive
      refine ⟨.inl hne', (hat start).mpr ⟨?_, (h.live _ start hlive).2⟩⟩
      rintro rfl
      exact hlive hempty
    · intro queue' other hsegment
      rw [hmem, and_iff_left]
      intro heq
      exact hsegment (by rw [SlicePtr.page_inj heq])
    · intro queue' idx hin
      obtain ⟨hold, hpageNe⟩ := (hmem queue' _).mp hin
      have hpageOld := h.queued queue' _ hold
      have hidxNe : idx ≠ slice.idx := by
        rintro rfl
        exact hpageNe rfl
      have hnewAt := (hat idx).mpr ⟨hidxNe, hpageOld.pageAt⟩
      refine ⟨hne', hthread'.trans (hthread.symm.trans hpageOld.thread), hnewAt,
        ?_⟩
      obtain ⟨-, other, hother', hkind, rfl⟩ := hnewAt
      rw [Function.update_self] at hother'
      have hsame := hdata other hother' hkind
      exact (congrArg PageFields.xheap hsame).trans hpageOld.xheap
    · intro _
      have hcount : (w'.st.segments slice.segment).abandoned =
          (w.st.segments slice.segment).abandoned := by
        refine hkept.abandoned.trans ?_
        rw [hsegments]
      rw [hcount]
      apply (h.givenUp _ hqueued.thread_ne).congr
      intro start
      rw [hat]
      constructor
      · rintro ⟨⟨hstart', hold⟩, hnone⟩
        exact ⟨hold, fun queue' hin => hnone queue' ((hmem queue' _).mpr
          ⟨hin, fun heq =>
            hstart' (congrArg SlicePtr.idx (SlicePtr.page_inj heq))⟩)⟩
      · rintro ⟨hold, hnone⟩
        refine ⟨⟨?_, hold⟩, fun queue' hin =>
          hnone queue' ((hmem queue' _).mp hin).1⟩
        rintro rfl
        exact hnone queue hpage
  exact ⟨st', _, _, qlists', congrArg Prod.snd hclear, hthread', hresult⟩

/-- A segment without pages goes back. -/
theorem freeSegment
    (h : OrphanLaw w orphans live heapTid alive tiles lists qlists)
    (hthread : (w.st.segments segment).threadId = tid) (htid : tid ≠ 0)
    (hunused : (w.st.segments segment).used = 0) :
    ∃ w' tiles' lists', segmentFree w tid segment = some w' ∧
      w'.marked = w.marked ∧
      OrphanLaw w' orphans live heapTid alive tiles' lists' qlists := by
  have hinv := h.threads tid htid
  have hne := hthread.trans_ne htid
  obtain ⟨info, hinfo, hzero, hkind⟩ := hinv.layout.info segment hthread
  have hcount : usedCount (tiles segment) = 1 := by
    rw [← hinv.used segment hthread, hunused]
  have honly := (usedCount_eq_one_iff (hinv.layout.tiled segment hthread)
    hinfo hkind).mp hcount
  have hnone : ∀ start, ¬ PageAt tiles ⟨segment, start⟩ := by
    rintro start ⟨hfirst, tile, htile, hused, rfl⟩
    exact hfirst ((honly tile htile hused).trans hzero)
  obtain ⟨w', lists', hresult, hspans, -, hqueues, -, hthread', hmarked,
    hwrites⟩ := segmentFree_spec hinv hthread (h.dontFree segment (.inl hne))
  have hgone : ¬ w'.InUse orphans segment := by
    rintro (hne' | horphan)
    · exact hne' hthread'
    · exact hne (h.orphan_threadId horphan)
  have howned := SegmentWorld.ownedBy_sdiff hwrites.segments
    (hthread'.trans_ne htid.symm)
  have hspans' : SpanInvariant w'.st .idle tid (w'.ownedBy tid)
      (Function.update tiles segment []) lists' := by
    rw [howned]
    apply hspans.congrTiles
    intro s hs
    rw [Function.update_of_ne hs.2]
  refine ⟨w', Function.update tiles segment [],
    Function.update lists tid lists', hresult, hmarked, ?_⟩
  refine h.rewrite hwrites (Set.subset_insert _ _) (.inr hthread)
    (.inl hthread') hspans' (fun s _ => Iff.rfl)
    (fun horphan => absurd (h.orphan_threadId horphan) hne)
    (fun huse => absurd huse hgone) (fun huse => absurd huse hgone)
    (fun s _ => rfl) ?_ (hqueues ▸ h.queues) (fun queue slice _ => Iff.rfl) ?_
    (fun hne' => absurd hthread' hne')
  · intro start hstart
    exact absurd (h.live segment start hstart).2 (hnone start)
  · intro queue idx hin
    exact absurd (h.queued queue _ hin).pageAt (hnone idx)

/-- `_pa_page_free`: the segment is freed with its last page, and abandoned
when all others have been given up. -/
theorem pageFree
    (h : OrphanLaw w orphans live heapTid alive tiles lists qlists)
    {queue : ℕ × ℕ} {slice : SlicePtr} (hpage : slice.page ∈ qlists queue)
    (hunused : (w.st.slices slice).used = 0) (cfg : Config)
    (purgeOption : Bool) :
    ∃ w' orphans' tiles' lists' qlists',
      w.pageFree cfg purgeOption (heapTid queue.1) queue slice = some w' ∧
      AfterLeaving w w' slice.segment orphans orphans' ∧
      OrphanLaw w' orphans' live heapTid alive tiles' lists' qlists' := by
  have hqueued := h.queued queue slice hpage
  have htid : heapTid queue.1 ≠ 0 := hqueued.thread ▸ hqueued.thread_ne
  set aligned : State := w.st.setSlice slice
    { w.st.slices slice with hasAligned := false } with haligned
  set st₁ : State := aligned.setSlice slice
    { aligned.slices slice with xheap := none } with hst₁
  have hself : st₁.slices slice =
      { w.st.slices slice with hasAligned := false, xheap := none } := by
    rw [hst₁, State.setSlice_self, haligned, State.setSlice_self]
  have hslice : SameSpan (w.st.slices slice) (st₁.slices slice) := by
    rw [hself]
    exact ⟨rfl, rfl, rfl⟩
  obtain ⟨st', tiles₂, lists₂, qlists₂, hclear, hthread, hlaw⟩ :=
    h.clearPage hpage (h.live_eq_nil hpage hunused) cfg st₁ hslice
      (fun other hne => (State.setSlice_ne _ _ hne).trans
        (State.setSlice_ne _ _ hne)) rfl rfl rfl
  set w₂ : SegmentWorld := { w with
    queues := w.queues.pageQueueRemove queue slice.page
    st := st' } with hw₂
  have hresult : w.pageFree cfg purgeOption (heapTid queue.1) queue slice =
      if (w₂.st.segments slice.segment).used = 0 then
        segmentFree w₂ (heapTid queue.1) slice.segment
      else if (w₂.st.segments slice.segment).used =
          (w₂.st.segments slice.segment).abandoned then
        segmentAbandon cfg purgeOption w₂ (heapTid queue.1) slice.segment
      else some (w₂.tryPurge cfg slice.segment false) := by
    rw [hw₂, ← hclear]
    rfl
  rw [hresult]
  split
  · next hzero =>
      obtain ⟨w', tiles', lists', hdone, hmarked, hnew⟩ :=
        hlaw.freeSegment hthread htid hzero
      exact ⟨w', orphans, tiles', lists', qlists₂, hdone,
        .inl ⟨hmarked, rfl⟩, hnew⟩
  split
  · next hall =>
      obtain ⟨w', lists', hdone, hmarked, hnew⟩ :=
        hlaw.abandon hthread htid hall.symm cfg purgeOption
      exact ⟨w', _, tiles₂, _, qlists₂, hdone, .inr ⟨hmarked, rfl⟩, hnew⟩
  · exact ⟨_, orphans, tiles₂, lists₂, qlists₂, rfl, .inl ⟨rfl, rfl⟩,
      hlaw.tryPurge cfg slice.segment false⟩

end OrphanLaw

end Palloc
