import Palloc.SegmentCheckFree

/-!
# Spans of a segment that is taken over

While a thread takes a segment over, the free spans that the loop has not met
yet are in no queue, but the segment already belongs to the thread.  A span
that merges with one of them takes it out of a queue that it is not in; this
changes no queue.  For the slice structure these spans are detached.
-/

namespace Palloc

open IndexWalk LinkedQueue IntervalTiling

section

variable {st st' : State} {tid : ℕ} {owned : Set ℕ}
  {tiles : ℕ → List (Tile SpanKind)} {lists lists' : ℕ → List SlicePtr}
  {segment : ℕ} {done rest middle after ts : List (Tile SpanKind)}
  {start count idx total : ℕ}

/-! ## Taking a segment over -/

theorem AbandonedSegment.park_entry
    (h : AbandonedSegment st segment ts) {tile : Tile SpanKind}
    (htile : tile ∈ park ts) : SpanEntry st segment tile := by
  obtain ⟨old, hold, rfl⟩ := mem_park htile
  by_cases hfree : old.kind = .free
  · rw [show parkTile old = { old with kind := .detached } from if_pos hfree]
    trivial
  · rw [parkTile_of_ne hfree]
    exact h.entry old hold

/-- A thread takes an abandoned segment over: its free spans are in no queue
of the thread yet. -/
theorem SpanLayout.takeOver (h : SpanLayout st tid owned tiles lists)
    (hnew : segment ∉ owned) (hsegment : AbandonedSegment st segment ts)
    (hkind : (st'.segments segment).kind = (st.segments segment).kind)
    (hentries : (st'.segments segment).sliceEntries =
      (st.segments segment).sliceEntries)
    (hthread : (st'.segments segment).threadId = tid)
    (hslices : st'.slices = st.slices)
    (hsegments : ∀ s, s ≠ segment → st'.segments s = st.segments s)
    (hlinks : st'.links = st.links) (hspans : st'.spans = st.spans) :
    SpanLayout st' tid (insert segment owned)
      (Function.update tiles segment (park ts)) lists := by
  have hne : ∀ s ∈ owned, s ≠ segment := by
    rintro s hs rfl
    exact hnew hs
  have hother : ∀ s ∈ owned,
      Function.update tiles segment (park ts) s = tiles s := fun s hs =>
    Function.update_of_ne (hne s hs) _ _
  have hsame : ∀ slice, SameSpan (st.slices slice) (st'.slices slice) := by
    intro slice
    rw [hslices]
    exact .refl _
  have htiled : Tiles 0 (park ts) (st'.segments segment).sliceEntries := by
    rw [hentries]
    exact tiles_park.mpr hsegment.tiled
  constructor
  · exact h.thread_ne
  · rintro s (rfl | hs)
    · exact hkind.trans hsegment.kind
    · rw [hsegments s (hne s hs)]
      exact h.kind s hs
  · rintro s (rfl | hs)
    · exact hthread
    · rw [hsegments s (hne s hs)]
      exact h.threadId s hs
  · rintro s (rfl | hs)
    · rw [Function.update_self]
      exact htiled
    · rw [hother s hs, hsegments s (hne s hs)]
      exact h.tiled s hs
  · rintro s (rfl | hs) tile htile
    · rw [Function.update_self] at htile
      exact (hsegment.park_entry htile).congr (htiled.bounds htile).2.1
        fun _ _ _ => hsame _
    · rw [hother s hs] at htile
      exact (h.entry s hs tile htile).congr (h.count_pos hs htile)
        fun _ _ _ => hsame _
  · rintro s (rfl | hs)
    · obtain ⟨info, hinfo, hzero, hused⟩ := hsegment.info
      have hkept : parkTile info = info :=
        parkTile_of_ne (by rw [hused]; decide)
      rw [Function.update_self]
      exact ⟨info, hkept ▸ List.mem_map_of_mem hinfo, hzero, hused⟩
    · rw [hother s hs]
      exact h.info s hs
  · rintro s (rfl | hs) tile htile other hothers hfree hfree'
    · rw [Function.update_self] at htile
      obtain ⟨old, -, rfl⟩ := mem_park htile
      exact absurd hfree (parkTile_ne_free old)
    · rw [hother s hs] at htile hothers
      exact h.apart s hs tile htile other hothers hfree hfree'
  · rw [hlinks, hspans]
    exact h.queues
  · intro bin slice
    rw [h.mem_queue]
    by_cases hcase : slice.segment = segment
    · rw [hcase, Function.update_self]
      constructor
      · exact fun ⟨hs, _⟩ => absurd hs hnew
      · rintro ⟨-, tile, htile, -, hfree, -⟩
        obtain ⟨old, -, rfl⟩ := mem_park htile
        exact absurd hfree (parkTile_ne_free old)
    · rw [Function.update_of_ne hcase, Set.mem_insert_iff,
        or_iff_right hcase]

/-! ## Merging with what follows -/

/-- Taking a span out of a queue that it is not in. -/
theorem segmentSpanRemoveFromQueue_unlinked {slice : SlicePtr}
    (h : SpanLayout st tid owned tiles lists)
    (hslice : ∀ bin, slice ∉ lists bin)
    (hnext : st.links.next slice = none)
    (hprev : st.links.prev slice = none) :
    (segmentSpanRemoveFromQueue st tid slice).links = st.links ∧
      (segmentSpanRemoveFromQueue st tid slice).spans = st.spans := by
  constructor
  · exact deleteLinks_unlinked hnext hprev
  · have hends := h.queues.deleteEnds_outside
      (sliceBin (st.slices slice).sliceCount) hslice
    simp only [segmentSpanRemoveFromQueue, spanQueueDelete,
      State.setBlockSize, State.setSlice, hends, Function.update_eq_self]

/-- After the first part of coalescing: the detached range has `n` slices and
`after` follows it. -/
structure NextJoined (st st' : State) (tid : ℕ) (owned : Set ℕ)
    (tiles : ℕ → List (Tile SpanKind)) (segment : ℕ)
    (done : List (Tile SpanKind)) (start n : ℕ)
    (middle after : List (Tile SpanKind)) (lists lists' : ℕ → List SlicePtr) :
    Prop where
  layout : SpanLayout st' tid owned
    (Function.update tiles segment (done ++ middle ++ after)) lists'
  detached : ∀ tile ∈ middle, tile.kind = .detached
  cover : Tiles start middle (start + n)
  apart : ∀ tile ∈ after, tile.kind = .free → tile.start ≠ start + n
  segments : st'.segments = st.segments
  spans : ∀ t, t ≠ tid → st'.spans t = st.spans t
  links : ∀ slice, (∀ bin, slice ∉ lists bin) →
    st'.links.next slice = st.links.next slice ∧
      st'.links.prev slice = st.links.prev slice ∧ ∀ bin, slice ∉ lists' bin
  frame : ∀ slice : SlicePtr, (slice.segment = segment →
      slice.idx < start ∨ start + n ≤ slice.idx) →
    st'.slices slice = st.slices slice

/-- Nothing joins. -/
theorem NextJoined.stay (h : SpanLayout st tid owned tiles lists)
    (htiles : tiles segment =
      done ++ [⟨start, count, .detached⟩] ++ after)
    (hcount : 0 < count)
    (hapart : ∀ tile ∈ after, tile.kind = .free →
      tile.start ≠ start + count) :
    NextJoined st st tid owned tiles segment done start count
      [⟨start, count, .detached⟩] after lists lists := by
  refine ⟨?_, by simp, ⟨rfl, hcount, rfl⟩, hapart, rfl, fun _ _ => rfl,
    fun slice hslice => ⟨rfl, rfl, hslice⟩, fun _ _ => rfl⟩
  rw [← htiles, Function.update_eq_self]
  exact h

/-- A parked span after a detached range joins it. -/
theorem coalesceNext_parked (h : SpanLayout st tid owned tiles lists)
    (howned : segment ∈ owned)
    (htiles : tiles segment =
      done ++ [⟨start, count, .detached⟩] ++ park rest)
    (hrest : ∀ tile ∈ rest, tile.kind ≠ .detached)
    (hparked : ∀ tile ∈ rest, tile.kind = .free → Parked st segment tile) :
    ∃ rest' n st' middle,
      coalesceNext st tid ⟨segment, start⟩ count = (n, st') ∧
      MergedNext rest (start + count) rest' (start + n) ∧ count ≤ n ∧
      NextJoined st st' tid owned tiles segment done start n middle
        (park rest') lists lists := by
  have hthread := h.threadId_ne howned
  have hmid : (⟨start, count, .detached⟩ : Tile SpanKind) ∈
      tiles segment := by
    rw [htiles]
    simp
  have hcount := h.count_pos howned hmid
  have htiled := h.tiled segment howned
  rw [htiles, List.append_assoc, List.singleton_append] at htiled
  obtain ⟨-, -, hafter⟩ := htiled.split
  have hnotFree : ∀ l n, ∀ tile ∈ park l, tile.kind = .free →
      tile.start ≠ start + n := by
    intro l n tile htile hfree
    obtain ⟨old, -, rfl⟩ := mem_park htile
    exact absurd hfree (parkTile_ne_free old)
  -- no parked span follows
  have hstay : (∀ tile, rest.head? = some tile → tile.kind ≠ .free) →
      coalesceNext st tid ⟨segment, start⟩ count = (count, st) →
      ∃ rest' n st' middle,
        coalesceNext st tid ⟨segment, start⟩ count = (n, st') ∧
        MergedNext rest (start + count) rest' (start + n) ∧ count ≤ n ∧
        NextJoined st st' tid owned tiles segment done start n middle
          (park rest') lists lists :=
    fun hhead heq => ⟨rest, count, st, _, heq, .inl ⟨rfl, rfl, hhead⟩, le_rfl,
      .stay h htiles hcount (hnotFree rest count)⟩
  cases rest with
  | nil =>
      have hend : start + count = (st.segments segment).sliceEntries := hafter
      apply hstay
      · simp
      · simp [coalesceNext, hend]
  | cons next later =>
      have hstart : next.start = start + count :=
        (parkTile_start next).symm.trans hafter.1
      have hpos : 0 < next.count :=
        (parkTile_count next) ▸ hafter.2.1
      have hstop := hafter.2.2.le
      simp only [Tile.stop, parkTile_start, parkTile_count] at hstop
      have hlt : start + count < (st.segments segment).sliceEntries := by
        omega
      by_cases hfree : next.kind = .free
      · have hpark : parkTile next = { next with kind := .detached } :=
          if_pos hfree
        have hspan := hparked next List.mem_cons_self hfree
        obtain ⟨hfreeSpan, hnext, hprev⟩ := hspan
        rw [hstart] at hfreeSpan hnext hprev
        have hresult : coalesceNext st tid ⟨segment, start⟩ count =
            (count + next.count,
              segmentSpanRemoveFromQueue st tid
                ⟨segment, start + count⟩) := by
          simp [coalesceNext, hlt, hfreeSpan.blockSize,
            hfreeSpan.sliceCount, hthread]
        have hmem : parkTile next ∈ tiles segment := by
          rw [htiles]
          simp
        have hout := h.head_notMem howned hmem (parkTile_ne_free next)
        rw [parkTile_start, hstart] at hout
        obtain ⟨hlinks, hspans⟩ :=
          segmentSpanRemoveFromQueue_unlinked h hout hnext hprev
        have hsplit : tiles segment = (done ++
            [⟨start, count, .detached⟩]) ++ [parkTile next] ++
              park later := by
          rw [htiles]
          simp
        have hlayout : SpanLayout (segmentSpanRemoveFromQueue st tid
            ⟨segment, start + count⟩) tid owned tiles lists := by
          refine h.touch howned hsplit (by simp [hpark]) (fun s _ => .refl _)
            ?_ ?_ (congrFun hspans tid)
          · intro slice hslice
            have hne : slice ≠ ⟨segment, start + count⟩ := by
              rintro rfl
              have hcase := hslice rfl _ (List.mem_singleton_self _)
              rw [parkTile_start, parkTile_stop] at hcase
              simp only [Tile.stop] at hcase
              omega
            rw [segmentSpanRemoveFromQueue_slices st tid hne]
            exact .refl _
          · intro bin slice _
            rw [hlinks]
            exact ⟨rfl, rfl⟩
        refine ⟨later, count + next.count, _,
          [⟨start, count, .detached⟩, parkTile next], hresult,
          .inr ⟨next, rfl, hfree, ?_⟩, by omega, ?_, ?_, ?_, hnotFree later _,
          rfl, fun t _ => congrFun hspans t, ?_, ?_⟩
        · simp only [Tile.stop]
          omega
        · have hwhole : done ++ [⟨start, count, .detached⟩, parkTile next] ++
              park later = tiles segment := by
            rw [htiles]
            simp
          rw [hwhole, Function.update_eq_self]
          exact hlayout
        · rintro tile (_ | ⟨_, _ | ⟨_, hnil⟩⟩)
          · rfl
          · rw [hpark]
          · cases hnil
        · refine ⟨rfl, hcount, ?_, ?_, ?_⟩
          · rw [parkTile_start, hstart]
            rfl
          · rw [parkTile_count]
            exact hpos
          · simp only [Tile.stop, tiles_nil, parkTile_start, parkTile_count]
            omega
        · intro slice hslice
          rw [hlinks]
          exact ⟨rfl, rfl, hslice⟩
        · intro slice hslice
          apply segmentSpanRemoveFromQueue_slices
          rintro rfl
          have hcase := hslice rfl
          simp only at hcase
          omega
      · have hmem : next ∈ tiles segment := by
          rw [htiles]
          simp [parkTile_of_ne hfree]
        have hiff := h.head_free_iff howned hmem
          (hrest next List.mem_cons_self)
        rw [hstart] at hiff
        apply hstay
        · intro tile htile
          cases htile
          exact hfree
        · simp only [coalesceNext]
          rw [if_neg fun hand => hfree (hiff.mp hand.2)]

/-- A queued span after a detached range leaves its queue and joins it. -/
theorem coalesceNext_queued (h : SpanLayout st tid owned tiles lists)
    (howned : segment ∈ owned)
    (htiles : tiles segment =
      done ++ [⟨start, count, .detached⟩] ++ rest)
    (hrest : ∀ tile ∈ rest, tile.kind ≠ .detached) :
    ∃ rest' n st' middle lists',
      coalesceNext st tid ⟨segment, start⟩ count = (n, st') ∧
      MergedNext rest (start + count) rest' (start + n) ∧ count ≤ n ∧
      NextJoined st st' tid owned tiles segment done start n middle rest'
        lists lists' := by
  have hthread := h.threadId_ne howned
  have hmid : (⟨start, count, .detached⟩ : Tile SpanKind) ∈
      tiles segment := by
    rw [htiles]
    simp
  have hcount := h.count_pos howned hmid
  have htiled := h.tiled segment howned
  have hmemRest : ∀ tile ∈ rest, tile ∈ tiles segment := by
    intro tile htile
    rw [htiles]
    exact List.mem_append_right _ htile
  rw [htiles, List.append_assoc, List.singleton_append] at htiled
  obtain ⟨-, -, hafter⟩ := htiled.split
  -- no free span follows
  have hstay : (∀ tile, rest.head? = some tile → tile.kind ≠ .free) →
      coalesceNext st tid ⟨segment, start⟩ count = (count, st) →
      ∃ rest' n st' middle lists',
        coalesceNext st tid ⟨segment, start⟩ count = (n, st') ∧
        MergedNext rest (start + count) rest' (start + n) ∧ count ≤ n ∧
        NextJoined st st' tid owned tiles segment done start n middle rest'
          lists lists' := by
    intro hhead heq
    refine ⟨rest, count, st, _, lists, heq, .inl ⟨rfl, rfl, hhead⟩, le_rfl,
      .stay h htiles hcount ?_⟩
    intro tile htile hfree hstart
    cases rest with
    | nil => cases htile
    | cons next later =>
        have hsame := hafter.eq_of_start htile List.mem_cons_self
          (hstart.trans hafter.1.symm)
        exact hhead next rfl (hsame ▸ hfree)
  cases rest with
  | nil =>
      have hend : start + count = (st.segments segment).sliceEntries := hafter
      apply hstay
      · simp
      · simp [coalesceNext, hend]
  | cons next later =>
      have hmem := hmemRest next List.mem_cons_self
      have hkind := hrest next List.mem_cons_self
      have hstart : next.start = start + count := hafter.1
      have hpos : 0 < next.count := hafter.2.1
      have hstop := hafter.2.2.le
      have hiff := h.head_free_iff howned hmem hkind
      have hheadCount := h.headCount howned hmem hkind
      rw [hstart] at hiff hheadCount
      by_cases hfree : next.kind = .free
      · have hlt : start + count < (st.segments segment).sliceEntries := by
          simp only [Tile.stop] at hstop
          omega
        have hresult : coalesceNext st tid ⟨segment, start⟩ count =
            (count + next.count,
              segmentSpanRemoveFromQueue st tid
                ⟨segment, start + count⟩) := by
          simp [coalesceNext, hlt, hiff.mpr hfree, hheadCount, hthread]
        have hsplit : tiles segment =
            (done ++ [⟨start, count, .detached⟩]) ++ [next] ++ later := by
          rw [htiles]
          simp
        have hremoved := h.remove howned hsplit hfree
        have hlinks := fun slice hslice =>
          h.remove_links howned hmem hfree slice hslice
        rw [hstart] at hlinks
        rw [show (⟨segment, next.start⟩ : SlicePtr) = ⟨segment, start + count⟩
          by rw [hstart]] at hremoved
        refine ⟨later, count + next.count, _,
          [⟨start, count, .detached⟩, { next with kind := .detached }],
          Function.update lists (sliceBin next.count)
            ((lists (sliceBin next.count)).erase ⟨segment, start + count⟩),
          hresult, .inr ⟨next, rfl, hfree, ?_⟩, by omega, ?_, ?_, ?_, ?_, rfl,
          fun t ht => Function.update_of_ne ht _ _, ?_, ?_⟩
        · simp only [Tile.stop]
          omega
        · simpa using hremoved
        · simp
        · refine ⟨rfl, hcount, hstart, hpos, ?_⟩
          simp only [Tile.stop, tiles_nil]
          omega
        · intro tile htile hfree' heq
          apply h.apart segment howned next hmem tile
            (hmemRest tile (List.mem_cons_of_mem _ htile)) hfree hfree'
          simp only [Tile.stop]
          omega
        · intro slice hslice
          obtain ⟨hnext, hprev⟩ := hlinks slice hslice
          refine ⟨hnext, hprev, ?_⟩
          intro bin hbin
          rw [Function.update_apply] at hbin
          split at hbin
          · exact hslice _ (List.mem_of_mem_erase hbin)
          · exact hslice bin hbin
        · intro slice hslice
          apply segmentSpanRemoveFromQueue_slices
          rintro rfl
          have hcase := hslice rfl
          simp only at hcase
          omega
      · apply hstay
        · intro tile htile
          cases htile
          exact hfree
        · simp only [coalesceNext]
          rw [if_neg fun hand => hfree (hiff.mp hand.2)]

/-! ## Merging with what comes before -/

/-- A queued span before a detached range leaves its queue and joins it. -/
theorem coalescePrev_queued (h : SpanLayout st tid owned tiles lists)
    (howned : segment ∈ owned)
    (htiles : tiles segment = done ++ middle ++ after)
    (hdetached : ∀ tile ∈ middle, tile.kind = .detached)
    (hcover : Tiles start middle (start + count)) (hcount : 0 < count)
    (hdone : ∀ tile ∈ done, tile.kind ≠ .detached) :
    ∃ done' idx total st' middle' lists',
      coalescePrev st tid ⟨segment, start⟩ count =
        (⟨segment, idx⟩, total, st') ∧
      MergedPrev done start done' idx ∧ idx + total = start + count ∧
      SpanLayout st' tid owned (Function.update tiles segment
        (done' ++ middle' ++ after)) lists' ∧
      (∀ tile ∈ middle', tile.kind = .detached) ∧
      Tiles idx middle' (idx + total) ∧ st'.segments = st.segments ∧
      (∀ t, t ≠ tid → st'.spans t = st.spans t) ∧
      ∀ slice, (∀ bin, slice ∉ lists bin) →
        st'.links.next slice = st.links.next slice ∧
          st'.links.prev slice = st.links.prev slice ∧
          ∀ bin, slice ∉ lists' bin := by
  have hthread := h.threadId_ne howned
  have htiled := h.tiled segment howned
  rw [htiles] at htiled
  obtain ⟨hbefore, -⟩ := htiled.around hcover (by omega)
  -- no free span comes before
  have hstay : (∀ tile, done.getLast? = some tile → tile.kind ≠ .free) →
      coalescePrev st tid ⟨segment, start⟩ count =
        (⟨segment, start⟩, count, st) →
      ∃ done' idx total st' middle' lists',
        coalescePrev st tid ⟨segment, start⟩ count =
          (⟨segment, idx⟩, total, st') ∧
        MergedPrev done start done' idx ∧ idx + total = start + count ∧
        SpanLayout st' tid owned (Function.update tiles segment
          (done' ++ middle' ++ after)) lists' ∧
        (∀ tile ∈ middle', tile.kind = .detached) ∧
        Tiles idx middle' (idx + total) ∧ st'.segments = st.segments ∧
        (∀ t, t ≠ tid → st'.spans t = st.spans t) ∧
        ∀ slice, (∀ bin, slice ∉ lists bin) →
          st'.links.next slice = st.links.next slice ∧
            st'.links.prev slice = st.links.prev slice ∧
            ∀ bin, slice ∉ lists' bin := by
    intro hlast heq
    refine ⟨done, start, count, st, middle, lists, heq,
      .inl ⟨rfl, rfl, hlast⟩, rfl, ?_, hdetached, hcover, rfl,
      fun _ _ => rfl, fun slice hslice => ⟨rfl, rfl, hslice⟩⟩
    rw [← htiles, Function.update_eq_self]
    exact h
  cases done using List.reverseRecOn with
  | nil =>
      have hzero : start = 0 := (show 0 = start from hbefore).symm
      apply hstay
      · simp
      · simp [coalescePrev, hzero]
  | append_singleton earlier prev _ =>
      obtain ⟨mid, hearlier, hstart, hpos, hlast⟩ := tiles_append.mp hbefore
      have hstop : prev.stop = start := hlast
      have hmem : prev ∈ tiles segment := by
        rw [htiles]
        simp
      have hkind := hdone prev (by simp)
      have hlookup := (h.entry segment howned prev hmem).last hkind hpos
      rw [hstop] at hlookup
      have hiff := h.head_free_iff howned hmem hkind
      have hheadCount := h.headCount howned hmem hkind
      have hlt : prev.start < start := by
        simp only [Tile.stop] at hstop
        omega
      have hne : start ≠ 0 := by omega
      by_cases hfree : prev.kind = .free
      · set st₁ := st.setSlice ⟨segment, start⟩
          ((st.slices ⟨segment, start⟩).withSpan 0 (start - prev.start)
            (st.slices ⟨segment, start⟩).blockSize) with hst₁
        have hresult : coalescePrev st tid ⟨segment, start⟩ count =
            (⟨segment, prev.start⟩, count + prev.count,
              segmentSpanRemoveFromQueue st₁ tid ⟨segment, prev.start⟩) := by
          simp [coalescePrev, hne, hlookup, hiff.mpr hfree, hheadCount,
            hthread, hst₁]
        have htouch : SpanLayout st₁ tid owned tiles lists := by
          refine h.touch howned htiles hdetached (fun s _ => .refl _) ?_
            (fun _ _ _ => ⟨rfl, rfl⟩) rfl
          intro slice hout
          apply sameSpan_setSlice
          rintro rfl
          obtain ⟨inner, hinner, hlo, hhi⟩ :=
            hcover.exists_tile le_rfl (show start < start + count by omega)
          have hcase := hout rfl inner hinner
          simp only at hcase
          omega
        have hsplit : tiles segment =
            earlier ++ [prev] ++ (middle ++ after) := by
          rw [htiles]
          simp
        have hremoved := htouch.remove howned hsplit hfree
        have hlinks := fun slice hslice =>
          htouch.remove_links howned hmem hfree slice hslice
        refine ⟨earlier, prev.start, count + prev.count, _,
          { prev with kind := .detached } :: middle,
          Function.update lists (sliceBin prev.count)
            ((lists (sliceBin prev.count)).erase ⟨segment, prev.start⟩),
          hresult, .inr ⟨prev, rfl, hfree, rfl⟩, ?_, ?_, ?_, ?_, rfl, ?_,
          ?_⟩
        · simp only [Tile.stop] at hstop
          omega
        · simpa using hremoved
        · rintro tile (_ | ⟨_, htile⟩)
          · rfl
          · exact hdetached tile htile
        · refine ⟨rfl, hpos, ?_⟩
          have hend : prev.start + (count + prev.count) = start + count := by
            simp only [Tile.stop] at hstop
            omega
          rw [hend]
          simpa only [Tile.stop, ← hstop] using hcover
        · exact fun t ht => Function.update_of_ne ht _ _
        · intro slice hslice
          obtain ⟨hnext, hprev⟩ := hlinks slice hslice
          refine ⟨hnext, hprev, ?_⟩
          intro bin hbin
          rw [Function.update_apply] at hbin
          split at hbin
          · exact hslice _ (List.mem_of_mem_erase hbin)
          · exact hslice bin hbin
      · apply hstay
        · intro tile htile
          rw [List.getLast?_concat, Option.some.injEq] at htile
          exact htile ▸ hfree
        · simp only [coalescePrev, hne, if_false, hlookup]
          rw [if_neg fun hzero => hfree (hiff.mp hzero)]

/-! ## Both sides -/

structure MergedOwned (st st' : State) (tid : ℕ) (owned : Set ℕ)
    (tiles : ℕ → List (Tile SpanKind)) (segment : ℕ)
    (lists : ℕ → List SlicePtr) (done' : List (Tile SpanKind)) (idx total : ℕ)
    (after : List (Tile SpanKind)) (lists' : ℕ → List SlicePtr) : Prop where
  layout : SpanLayout st' tid owned (Function.update tiles segment
    (done' ++ [⟨idx, total, .free⟩] ++ after)) lists'
  others : ∀ s, s ≠ segment → st'.segments s = st.segments s
  links : ∀ slice : SlicePtr, slice ≠ ⟨segment, idx⟩ →
    (∀ bin, slice ∉ lists bin) →
      st'.links.next slice = st.links.next slice ∧
        st'.links.prev slice = st.links.prev slice
  spans : ∀ t, t ≠ tid → st'.spans t = st.spans t
  frame : ∀ slice : SlicePtr, (slice.segment = segment →
      slice.idx < idx ∨ idx + total ≤ slice.idx) →
    st'.slices slice = st.slices slice

theorem segmentSpanFree_links (count : ℕ) (cfg : Config)
    (h : SpanLayout st tid owned tiles lists) (howned : segment ∈ owned)
    (allowPurge : Bool) {slice : SlicePtr} (hne : slice ≠ ⟨segment, idx⟩)
    (hslice : ∀ bin, slice ∉ lists bin) :
    let st' := segmentSpanFree cfg st tid segment idx count allowPurge
    st'.links.next slice = st.links.next slice ∧
      st'.links.prev slice = st.links.prev slice := by
  have hthread := h.threadId_ne howned
  have hkind : (st.segments segment).kind ≠ .huge := by
    rw [h.kind segment howned]
    decide
  have hpush := h.queues.pushLinks_outside (sliceBin count)
    (show (⟨segment, idx⟩ : SlicePtr) ≠ slice from fun heq => hne heq.symm)
    hslice
  have hlinks : ∀ n, (st.setFreeSpan segment idx n).links = st.links ∧
      (st.setFreeSpan segment idx n).spans = st.spans := by
    intro n
    unfold State.setFreeSpan
    dsimp only
    split <;> exact ⟨rfl, rfl⟩
  have hresult :
      (segmentSpanFree cfg st tid segment idx count allowPurge).links =
        pushLinks st.links (st.spans tid (sliceBin count))
          ⟨segment, idx⟩ := by
    simp only [segmentSpanFree, hkind, hthread, or_self, if_false]
    cases allowPurge with
    | false => simp [spanQueuePush, State.setBlockSize, State.setSlice, hlinks]
    | true =>
        simp [spanQueuePush, State.setBlockSize, State.setSlice,
          State.setCommit, State.setSegment, hlinks]
  dsimp only
  rw [hresult]
  exact hpush

theorem segmentSpanFree_spans_other (cfg : Config) (allowPurge : Bool)
    {t : ℕ} (ht : t ≠ tid) :
    (segmentSpanFree cfg st tid segment idx count allowPurge).spans t =
      st.spans t := by
  have hspan : ∀ n, (st.setFreeSpan segment idx n).spans = st.spans := by
    intro n
    unfold State.setFreeSpan
    dsimp only
    split <;> rfl
  have hpush : ∀ (st : State) bin slice,
      (spanQueuePush st tid bin slice).spans t = st.spans t :=
    fun st bin slice => Function.update_of_ne ht _ _
  unfold segmentSpanFree
  dsimp only
  split
  · rw [hpush]
    cases allowPurge with
    | false => exact congrFun (hspan _) t
    | true => exact congrFun (hspan _) t
  · cases allowPurge with
    | false => exact congrFun (hspan _) t
    | true => exact congrFun (hspan _) t

theorem segmentSpanFree_segments_other (cfg : Config) (tid : ℕ)
    (allowPurge : Bool) {s : ℕ} (hs : s ≠ segment) :
    (segmentSpanFree cfg st tid segment idx count allowPurge).segments s =
      st.segments s := by
  have hspan : ∀ n, (st.setFreeSpan segment idx n).segments =
      st.segments := by
    intro n
    unfold State.setFreeSpan
    dsimp only
    split <;> rfl
  unfold segmentSpanFree
  dsimp only
  split
  · cases allowPurge with
    | false => exact congrFun (hspan _) s
    | true => exact (State.setSegment_ne _ _ hs).trans (congrFun (hspan _) s)
  · cases allowPurge with
    | false => exact congrFun (hspan _) s
    | true => exact (State.setSegment_ne _ _ hs).trans (congrFun (hspan _) s)

/-- The second part of coalescing: a queued span that comes before leaves its
queue, and the whole is queued as one free span. -/
theorem NextJoined.coalesce (cfg : Config)
    (h : SpanLayout st tid owned tiles lists) (howned : segment ∈ owned)
    {n : ℕ} {st₁ : State} {lists₁ : ℕ → List SlicePtr}
    (hnext : NextJoined st st₁ tid owned tiles segment done start n middle
      after lists lists₁)
    (hnextEq : coalesceNext st tid ⟨segment, start⟩
      (st.slices ⟨segment, start⟩).sliceCount = (n, st₁))
    (hn : 0 < n) (hdone : ∀ tile ∈ done, tile.kind ≠ .detached)
    (hapart : ∀ tile ∈ done, ∀ other ∈ done, tile.kind = .free →
      other.kind = .free → tile.stop ≠ other.start) :
    ∃ done' idx total st' lists',
      segmentSpanFreeCoalesce cfg st tid ⟨segment, start⟩ =
        (⟨segment, idx⟩, st') ∧
      MergedPrev done start done' idx ∧ idx + total = start + n ∧
      OnlyCommit st st' ∧
      MergedOwned st st' tid owned tiles segment lists done' idx total after
        lists' := by
  have hnormal : (st.segments segment).kind ≠ .huge := by
    rw [h.kind segment howned]
    decide
  obtain ⟨done', idx, total, st₂, middle', lists₂, hprevEq, hprev, hsum,
    hlayout₂, hdetached₂, hcover₂, hsegments₂, hspans₂, hunqueued⟩ :=
      coalescePrev_queued hnext.layout howned (Function.update_self _ _ _)
        hnext.detached hnext.cover hn hdone
  rw [Function.update_idem] at hlayout₂
  have htiled₁ := hnext.layout.tiled segment howned
  rw [Function.update_self] at htiled₁
  obtain ⟨hbefore, -⟩ := htiled₁.around hnext.cover (by omega)
  have hidx : idx ≤ start := by
    rcases hprev with ⟨-, rfl, -⟩ | ⟨tile, rfl, -, rfl⟩
    · exact le_rfl
    · exact (hbefore.bounds (by simp : tile ∈ done' ++ [tile])).2.2.trans'
        (by simp [Tile.stop])
  have hpos : 0 < total := by omega
  have htiled₂ := hlayout₂.tiled segment howned
  rw [Function.update_self] at htiled₂
  obtain ⟨hfirst, hlast⟩ := htiled₂.around hcover₂ (by omega)
  have hsegments : st₂.segments = st.segments :=
    hsegments₂.trans hnext.segments
  have hneighbours : ∀ other, other ∈ done' ∨ other ∈ after →
      other.kind = .free →
        other.stop ≠ idx ∧ other.start ≠ idx + total := by
    rintro other (hleft | hright) hfree
    · have hbounds := hfirst.bounds hleft
      simp only [Tile.stop] at hbounds
      refine ⟨?_, by omega⟩
      rcases hprev with ⟨rfl, rfl, hgetLast⟩ | ⟨tile, rfl, htileFree, rfl⟩
      · exact fun hstop =>
          hgetLast other (tiles_getLast hbefore hleft hstop) hfree
      · exact hapart other (by simp [hleft]) tile (by simp) hfree htileFree
    · have hbounds := hlast.bounds hright
      refine ⟨?_, ?_⟩
      · simp only [Tile.stop] at hbounds ⊢
        omega
      · rw [hsum]
        exact hnext.apart other hright hfree
  have hlayout := hlayout₂.free howned (Function.update_self _ _ _)
    hdetached₂ hcover₂ hpos hneighbours cfg true
  rw [Function.update_idem] at hlayout
  have hfits : idx + total ≤ (st₂.segments segment).sliceEntries := hlast.le
  have hfreed := segmentSpanFree_spec cfg tid true (hlayout₂.kind segment
    howned) (hlayout₂.threadId_ne howned) hpos hfits
  -- what lies outside the merged span
  have hframe : ∀ slice : SlicePtr, (slice.segment = segment →
      slice.idx < idx ∨ idx + total ≤ slice.idx) →
      (segmentSpanFree cfg st₂ tid segment idx total true).slices slice =
        st.slices slice := by
    intro slice hout
    have hskip : ∀ i, idx ≤ i → i < idx + total → slice ≠ ⟨segment, i⟩ := by
      rintro i hlo hhi rfl
      have hcase := hout rfl
      simp only at hcase
      omega
    rw [segmentSpanFree_slices_other cfg tid true hpos hfits
      (hskip idx le_rfl (by omega))
      (hskip (idx + total - 1) (by omega) (by omega))]
    have hprevSlices :
        (coalescePrev st₁ tid ⟨segment, start⟩ n).2.2.slices slice =
          st₁.slices slice := by
      apply coalescePrev_slices_other tid (hskip start hidx (by omega))
      rw [hprevEq]
      exact hskip idx le_rfl (by omega)
    rw [hprevEq] at hprevSlices
    rw [hprevSlices]
    apply hnext.frame
    intro hsegment
    have hcase := hout hsegment
    omega
  refine ⟨done', idx, total, _, _, ?_, hprev, hsum, ?_, hlayout, ?_, ?_, ?_,
    hframe⟩
  · simp only [segmentSpanFreeCoalesce, if_neg hnormal, hnextEq, hprevEq]
  · exact (OnlyCommit.of_eq hsegments).trans hfreed.commit
  · intro s hs
    rw [segmentSpanFree_segments_other cfg tid true hs, hsegments]
  · intro slice hne hout
    obtain ⟨hnext₁, hprev₁, hout₁⟩ := hnext.links slice hout
    obtain ⟨hnext₂, hprev₂, hout₂⟩ := hunqueued slice hout₁
    have hfreeLinks := segmentSpanFree_links total cfg hlayout₂ howned true
      hne hout₂
    exact ⟨hfreeLinks.1.trans (hnext₂.trans hnext₁),
      hfreeLinks.2.trans (hprev₂.trans hprev₁)⟩
  · intro t ht
    rw [segmentSpanFree_spans_other cfg true ht, hspans₂ t ht,
      hnext.spans t ht]

/-- Coalescing in a segment of a thread. -/
theorem coalesce_queued (cfg : Config)
    (h : SpanLayout st tid owned tiles lists) (howned : segment ∈ owned)
    (htiles : tiles segment =
      done ++ [⟨start, count, .detached⟩] ++ rest)
    (hdone : ∀ tile ∈ done, tile.kind ≠ .detached)
    (hrest : ∀ tile ∈ rest, tile.kind ≠ .detached)
    (hhead : (st.slices ⟨segment, start⟩).sliceCount = count) :
    ∃ done' idx total rest' st' lists',
      segmentSpanFreeCoalesce cfg st tid ⟨segment, start⟩ =
        (⟨segment, idx⟩, st') ∧
      Merged done start count rest done' idx total rest' ∧
      OnlyCommit st st' ∧
      MergedOwned st st' tid owned tiles segment lists done' idx total rest'
        lists' := by
  have hmid : (⟨start, count, .detached⟩ : Tile SpanKind) ∈
      tiles segment := by
    rw [htiles]
    simp
  have hcount : 0 < count := h.count_pos howned hmid
  have hmemDone : ∀ tile ∈ done, tile ∈ tiles segment := by
    intro tile htile
    rw [htiles]
    simp [htile]
  obtain ⟨rest', n, st₁, middle, lists₁, hnextEq, hnext, hle, hjoined⟩ :=
    coalesceNext_queued h howned htiles hrest
  obtain ⟨done', idx, total, st', lists', hresult, hprev, hsum, hcommit,
    hmerged⟩ := hjoined.coalesce cfg h howned (hhead.symm ▸ hnextEq)
      (by omega) hdone fun tile htile other hother =>
        h.apart segment howned tile (hmemDone tile htile) other
          (hmemDone other hother)
  exact ⟨done', idx, total, rest', st', lists', hresult,
    ⟨hprev, by rw [hsum]; exact hnext⟩, hcommit, hmerged⟩

/-- Coalescing while a segment is taken over: the parked spans that follow
stay parked. -/
theorem coalesce_parked (cfg : Config)
    (h : SpanLayout st tid owned tiles lists) (howned : segment ∈ owned)
    (htiles : tiles segment =
      done ++ [⟨start, count, .detached⟩] ++ park rest)
    (hdone : ∀ tile ∈ done, tile.kind ≠ .detached)
    (hrest : ∀ tile ∈ rest, tile.kind ≠ .detached)
    (hparked : ∀ tile ∈ rest, tile.kind = .free → Parked st segment tile)
    (hhead : (st.slices ⟨segment, start⟩).sliceCount = count) :
    ∃ done' idx total rest' st' lists',
      segmentSpanFreeCoalesce cfg st tid ⟨segment, start⟩ =
        (⟨segment, idx⟩, st') ∧
      Merged done start count rest done' idx total rest' ∧
      OnlyCommit st st' ∧
      MergedOwned st st' tid owned tiles segment lists done' idx total
        (park rest') lists' ∧
      ∀ tile ∈ rest', tile.kind = .free → Parked st' segment tile := by
  have hmid : (⟨start, count, .detached⟩ : Tile SpanKind) ∈
      tiles segment := by
    rw [htiles]
    simp
  have hcount : 0 < count := h.count_pos howned hmid
  have hmemDone : ∀ tile ∈ done, tile ∈ tiles segment := by
    intro tile htile
    rw [htiles]
    simp [htile]
  have htiled := h.tiled segment howned
  rw [htiles, List.append_assoc, List.singleton_append] at htiled
  obtain ⟨hbefore, -, hafter⟩ := htiled.split
  rw [tiles_park] at hafter
  obtain ⟨rest', n, st₁, middle, hnextEq, hnext, hle, hjoined⟩ :=
    coalesceNext_parked h howned htiles hrest hparked
  obtain ⟨done', idx, total, st', lists', hresult, hprev, hsum, hcommit,
    howned'⟩ := hjoined.coalesce cfg h howned (hhead.symm ▸ hnextEq)
      (by omega) hdone fun tile htile other hother =>
        h.apart segment howned tile (hmemDone tile htile) other
          (hmemDone other hother)
  have hmerged : Merged done start count rest done' idx total rest' :=
    ⟨hprev, by rw [hsum]; exact hnext⟩
  obtain ⟨-, hlast, -, -, hpos⟩ := hmerged.bounds hbefore hafter hcount
  refine ⟨done', idx, total, rest', st', lists', hresult, hmerged, hcommit,
    howned', ?_⟩
  intro tile htile hfree
  have hbounds := hlast.bounds htile
  have hold := hmerged.kept.2 htile
  obtain ⟨hspan, hnextNone, hprevNone⟩ := hparked tile hold hfree
  have hmemOld : parkTile tile ∈ tiles segment := by
    rw [htiles]
    exact List.mem_append_right _ (List.mem_map_of_mem hold)
  have hout := h.head_notMem howned hmemOld (parkTile_ne_free tile)
  rw [parkTile_start] at hout
  have hne : (⟨segment, tile.start⟩ : SlicePtr) ≠ ⟨segment, idx⟩ := by
    intro heq
    injection heq with _ hstart
    omega
  obtain ⟨hnext', hprev'⟩ := howned'.links _ hne hout
  have hentry : SpanEntry st segment tile := by
    unfold SpanEntry
    rw [hfree]
    exact hspan
  refine ⟨(hentry.congr hbounds.2.1 ?_).free hfree, ?_, ?_⟩
  · intro i hlo _
    rw [howned'.frame ⟨segment, i⟩ fun _ => .inr (hbounds.1.trans hlo)]
    exact .refl _
  · rw [hnext', hnextNone]
  · rw [hprev', hprevNone]

end

end Palloc
