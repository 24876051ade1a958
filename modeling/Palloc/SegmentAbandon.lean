import Palloc.PageQueueRun
import Palloc.SegmentReclaim
import Palloc.SpanAllocation

/-!
# Giving up a segment

`pa_segment_abandon` takes the free spans of a segment out of their queues
and leaves them free.  Until the end of its loop these spans are detached for
the slice structure of the thread; then the segment leaves the thread.
-/

namespace Palloc

open IndexWalk LinkedQueue IntervalTiling

/-! ## Spans out of the queues -/

def parkTile (tile : Tile SpanKind) : Tile SpanKind :=
  if tile.kind = .free then { tile with kind := .detached } else tile

def park (l : List (Tile SpanKind)) : List (Tile SpanKind) := l.map parkTile

@[simp] theorem parkTile_start (tile : Tile SpanKind) :
    (parkTile tile).start = tile.start := by
  unfold parkTile
  split <;> rfl

@[simp] theorem parkTile_count (tile : Tile SpanKind) :
    (parkTile tile).count = tile.count := by
  unfold parkTile
  split <;> rfl

@[simp] theorem parkTile_stop (tile : Tile SpanKind) :
    (parkTile tile).stop = tile.stop := by
  simp [Tile.stop]

theorem parkTile_of_ne {tile : Tile SpanKind} (hkind : tile.kind ≠ .free) :
    parkTile tile = tile := if_neg hkind

theorem parkTile_ne_free (tile : Tile SpanKind) :
    (parkTile tile).kind ≠ .free := by
  unfold parkTile
  split
  · simp
  · assumption

@[simp] theorem park_nil : park [] = [] := rfl

@[simp] theorem park_cons (tile : Tile SpanKind) (l : List (Tile SpanKind)) :
    park (tile :: l) = parkTile tile :: park l := rfl

@[simp] theorem park_append (l l' : List (Tile SpanKind)) :
    park (l ++ l') = park l ++ park l' := List.map_append

theorem mem_park {l : List (Tile SpanKind)} {tile : Tile SpanKind}
    (htile : tile ∈ park l) : ∃ old ∈ l, parkTile old = tile :=
  List.mem_map.mp htile

theorem tiles_park {lo hi : ℕ} {l : List (Tile SpanKind)} :
    Tiles lo (park l) hi ↔ Tiles lo l hi := by
  induction l generalizing lo with
  | nil => rfl
  | cons tile rest ih => simp [ih]

structure Parked (st : State) (segment : ℕ) (tile : Tile SpanKind) :
    Prop where
  span : FreeSpan st segment tile.start tile.count
  next : st.links.next ⟨segment, tile.start⟩ = none
  prev : st.links.prev ⟨segment, tile.start⟩ = none

/-- An abandoned segment: it is tiled by used spans and free ones, no two free
spans touch, none is in a queue, and all pages count as abandoned. -/
structure AbandonedSegment (st : State) (segment : ℕ)
    (tiles : List (Tile SpanKind)) : Prop where
  kind : (st.segments segment).kind = .normal
  threadId : (st.segments segment).threadId = 0
  tiled : Tiles 0 tiles (st.segments segment).sliceEntries
  kinds : ∀ tile ∈ tiles, tile.kind ≠ .detached
  entry : ∀ tile ∈ tiles, SpanEntry st segment tile
  info : ∃ tile ∈ tiles, tile.start = 0 ∧ tile.kind = .used
  apart : ∀ tile ∈ tiles, ∀ other ∈ tiles, tile.kind = .free →
    other.kind = .free → tile.stop ≠ other.start
  parked : ∀ tile ∈ tiles, tile.kind = .free → Parked st segment tile
  used : (st.segments segment).used + 1 = usedCount tiles
  abandoned : (st.segments segment).abandoned = (st.segments segment).used

/-! ## Taking the free spans out -/

section Remove

variable {st st' : State} {tid : ℕ} {owned : Set ℕ}
  {tiles : ℕ → List (Tile SpanKind)} {lists : ℕ → List SlicePtr}
  {segment : ℕ} {before after : List (Tile SpanKind)}
  {tile : Tile SpanKind}

theorem SpanLayout.free_mem (h : SpanLayout st tid owned tiles lists)
    (howned : segment ∈ owned) (htile : tile ∈ tiles segment)
    (hfree : tile.kind = .free) :
    (⟨segment, tile.start⟩ : SlicePtr) ∈ lists (sliceBin tile.count) :=
  (h.mem_queue _ _).mpr ⟨howned, tile, htile, rfl, hfree, rfl⟩

theorem SpanLayout.head_notMem (h : SpanLayout st tid owned tiles lists)
    (howned : segment ∈ owned) (htile : tile ∈ tiles segment)
    (hfree : tile.kind ≠ .free) (bin : ℕ) :
    (⟨segment, tile.start⟩ : SlicePtr) ∉ lists bin := by
  apply h.notMem_queue
  intro other hother hstart
  rw [(h.tiled segment howned).eq_of_start hother htile hstart]
  exact hfree

theorem SpanLayout.remove_links (h : SpanLayout st tid owned tiles lists)
    (howned : segment ∈ owned) (htile : tile ∈ tiles segment)
    (hfree : tile.kind = .free) (slice : SlicePtr)
    (hslice : ∀ bin, slice ∉ lists bin) :
    let st' := segmentSpanRemoveFromQueue st tid ⟨segment, tile.start⟩
    st'.links.next slice = st.links.next slice ∧
      st'.links.prev slice = st.links.prev slice :=
  h.queues.deleteLinks_outside (h.free_mem howned htile hfree) hslice

theorem segmentSpanRemoveFromQueue_self (st : State) (tid : ℕ)
    (slice : SlicePtr) :
    (segmentSpanRemoveFromQueue st tid slice).links.next slice = none ∧
      (segmentSpanRemoveFromQueue st tid slice).links.prev slice = none := by
  constructor
  · exact (deleteLinks_next st.links slice slice).trans (if_pos rfl)
  · exact (deleteLinks_prev st.links slice slice).trans (if_pos rfl)

theorem segmentSpanRemoveFromQueue_slices (st : State) (tid : ℕ)
    {slice other : SlicePtr} (hne : other ≠ slice) :
    (segmentSpanRemoveFromQueue st tid slice).slices other =
      st.slices other :=
  spanQueueDelete_frame st tid _ hne

theorem removeFromQueue_setBlockSize (st : State) (tid : ℕ)
    {slice : SlicePtr} (hfree : (st.slices slice).blockSize = 0) :
    ((segmentSpanRemoveFromQueue st tid slice).setBlockSize slice 0).slices =
      st.slices := by
  funext other
  by_cases hother : other = slice
  · subst hother
    simp only [State.setBlockSize, State.setSlice_self,
      segmentSpanRemoveFromQueue, spanQueueDelete]
    rw [← hfree]
    rfl
  · simp only [State.setBlockSize]
    rw [State.setSlice_ne _ _ hother,
      segmentSpanRemoveFromQueue_slices st tid hother]

theorem SpanLayout.release (h : SpanLayout st tid owned tiles lists)
    (hnone : ∀ tile ∈ tiles segment, tile.kind ≠ .free)
    (hslices : st'.slices = st.slices)
    (hsegments : ∀ s, s ≠ segment → st'.segments s = st.segments s)
    (hlinks : st'.links = st.links) (hspans : st'.spans = st.spans) :
    SpanLayout st' tid (owned \ {segment}) tiles lists := by
  have hne : ∀ s ∈ owned \ {segment}, s ∈ owned ∧ s ≠ segment :=
    fun s hs => ⟨hs.1, hs.2⟩
  constructor
  · exact h.thread_ne
  · intro s hs
    rw [hsegments s (hne s hs).2]
    exact h.kind s (hne s hs).1
  · intro s hs
    rw [hsegments s (hne s hs).2]
    exact h.threadId s (hne s hs).1
  · intro s hs
    rw [hsegments s (hne s hs).2]
    exact h.tiled s (hne s hs).1
  · intro s hs tile htile
    apply (h.entry s hs.1 tile htile).congr (h.count_pos hs.1 htile)
    intro idx _ _
    rw [hslices]
    exact .refl _
  · exact fun s hs => h.info s hs.1
  · exact fun s hs => h.apart s hs.1
  · rw [hlinks, hspans]
    exact h.queues
  · intro bin slice
    rw [h.mem_queue]
    constructor
    · rintro ⟨hs, tile, htile, hstart, hfree, hbin⟩
      refine ⟨⟨hs, ?_⟩, tile, htile, hstart, hfree, hbin⟩
      rintro (rfl : slice.segment = segment)
      exact hnone tile htile hfree
    · exact fun ⟨hs, hrest⟩ => ⟨hs.1, hrest⟩

theorem SpanLayout.congrTiles {tiles' : ℕ → List (Tile SpanKind)}
    (h : SpanLayout st tid owned tiles lists)
    (hsame : ∀ s ∈ owned, tiles s = tiles' s) :
    SpanLayout st tid owned tiles' lists := by
  constructor
  · exact h.thread_ne
  · exact h.kind
  · exact h.threadId
  · exact fun s hs => hsame s hs ▸ h.tiled s hs
  · exact fun s hs => hsame s hs ▸ h.entry s hs
  · exact fun s hs => hsame s hs ▸ h.info s hs
  · exact fun s hs => hsame s hs ▸ h.apart s hs
  · exact h.queues
  · intro bin slice
    rw [h.mem_queue]
    constructor
    · exact fun ⟨hs, hrest⟩ => ⟨hs, hsame _ hs ▸ hrest⟩
    · exact fun ⟨hs, hrest⟩ => ⟨hs, (hsame _ hs).symm ▸ hrest⟩

end Remove

/-! ## What a thread may write -/

structure WritesOnly (st st' : State) (tid segment : ℕ) (own : Set ℕ) :
    Prop where
  slices : ∀ slice : SlicePtr, slice.segment ≠ segment →
    st'.slices slice = st.slices slice
  segments : ∀ s, s ≠ segment → st'.segments s = st.segments s
  links : ∀ slice : SlicePtr, slice.segment ∉ own →
    st'.links.next slice = st.links.next slice ∧
      st'.links.prev slice = st.links.prev slice
  spans : ∀ t, t ≠ tid → st'.spans t = st.spans t

namespace WritesOnly

variable {st st' st'' : State} {tid segment : ℕ} {own : Set ℕ}

theorem refl (st : State) (tid segment : ℕ) (own : Set ℕ) :
    WritesOnly st st tid segment own :=
  ⟨fun _ _ => rfl, fun _ _ => rfl, fun _ _ => ⟨rfl, rfl⟩, fun _ _ => rfl⟩

theorem trans (h : WritesOnly st st' tid segment own)
    (h' : WritesOnly st' st'' tid segment own) :
    WritesOnly st st'' tid segment own := by
  refine ⟨?_, ?_, ?_, ?_⟩
  · exact fun slice hs => (h'.slices slice hs).trans (h.slices slice hs)
  · exact fun s hs => (h'.segments s hs).trans (h.segments s hs)
  · exact fun slice hs =>
      ⟨(h'.links slice hs).1.trans (h.links slice hs).1,
        (h'.links slice hs).2.trans (h.links slice hs).2⟩
  · exact fun t ht => (h'.spans t ht).trans (h.spans t ht)

theorem setSegment (st : State) (tid segment : ℕ) (own : Set ℕ)
    (info : SegmentInfo) :
    WritesOnly st (st.setSegment segment info) tid segment own :=
  ⟨fun _ _ => rfl, fun _ hs => State.setSegment_ne st info hs,
    fun _ _ => ⟨rfl, rfl⟩, fun _ _ => rfl⟩

end WritesOnly

theorem SpanLayout.notMem_of_notOwned {st : State} {tid : ℕ}
    {owned : Set ℕ} {tiles : ℕ → List (Tile SpanKind)}
    {lists : ℕ → List SlicePtr} (h : SpanLayout st tid owned tiles lists)
    {slice : SlicePtr} (hslice : slice.segment ∉ owned) (bin : ℕ) :
    slice ∉ lists bin :=
  fun hmem => hslice ((h.mem_queue bin slice).mp hmem).1

/-! ## The loops over the spans -/

structure SpanRemoved (st st' : State) (tid : ℕ) (slice : SlicePtr) :
    Prop where
  segments : st'.segments = st.segments
  links : st'.links = (segmentSpanRemoveFromQueue st tid slice).links
  spans : st'.spans = (segmentSpanRemoveFromQueue st tid slice).spans
  os : st'.os = st.os
  sliceCount : (st'.slices slice).sliceCount = (st.slices slice).sliceCount
  frame : ∀ other, other ≠ slice → st'.slices other = st.slices other

structure RemovesSpans (tid segment : ℕ)
    (body : ℕ → State → Option (ℕ × State))
    (remove : ℕ → State → State) : Prop where
  removed : ∀ idx st, SpanRemoved st (remove idx st) tid ⟨segment, idx⟩
  eq : ∀ idx st, (st.segments segment).kind = .normal →
    body idx st = some (idx + (st.slices ⟨segment, idx⟩).sliceCount,
      if (st.slices ⟨segment, idx⟩).blockSize = 0 then remove idx st else st)

structure RemovingSpans (st : State) (tid : ℕ) (owned : Set ℕ)
    (tiles : ℕ → List (Tile SpanKind)) (segment idx : ℕ) (st' : State)
    (done ahead : List (Tile SpanKind)) (lists : ℕ → List SlicePtr) :
    Prop where
  split : tiles segment = done ++ ahead
  covers : Tiles idx ahead (st.segments segment).sliceEntries
  layout : SpanLayout st' tid owned
    (Function.update tiles segment (park done ++ ahead)) lists
  unlinked : ∀ tile ∈ done, tile.kind = .free →
    st'.links.next ⟨segment, tile.start⟩ = none ∧
      st'.links.prev ⟨segment, tile.start⟩ = none
  segments : st'.segments = st.segments
  writes : WritesOnly st st' tid segment owned
  frame : ∀ slice : SlicePtr, (∀ tile ∈ done, tile.kind = .free →
    slice ≠ ⟨segment, tile.start⟩) → st'.slices slice = st.slices slice

section Loops

variable {st st' st'' : State} {tid : ℕ} {owned : Set ℕ}
  {tiles : ℕ → List (Tile SpanKind)} {lists : ℕ → List SlicePtr}
  {segment idx : ℕ} {done ahead : List (Tile SpanKind)}
  {tile : Tile SpanKind}

theorem SpanRemoved.layout (hremoved : SpanRemoved st st' tid
      ⟨segment, tile.start⟩)
    (h : SpanLayout st tid owned tiles lists) (howned : segment ∈ owned)
    {before after : List (Tile SpanKind)}
    (htiles : tiles segment = before ++ [tile] ++ after)
    (hfree : tile.kind = .free) :
    SpanLayout st' tid owned
      (Function.update tiles segment (before ++ [parkTile tile] ++ after))
      (Function.update lists (sliceBin tile.count)
        ((lists (sliceBin tile.count)).erase ⟨segment, tile.start⟩)) := by
  have hpark : parkTile tile = { tile with kind := .detached } :=
    if_pos hfree
  have hgone := h.remove howned htiles hfree
  rw [hpark]
  refine hgone.touch howned (Function.update_self _ _ _) (by simp) ?_ ?_ ?_ ?_
  · intro s _
    rw [hremoved.segments]
    exact .refl _
  · intro slice hout
    by_cases hslice : slice = ⟨segment, tile.start⟩
    · have hmem : tile ∈ tiles segment := by simp [htiles]
      have hpos := h.count_pos howned hmem
      have hcase := hout (by rw [hslice]) _ (List.mem_singleton_self _)
      subst hslice
      simp only [Tile.stop] at hcase
      omega
    · rw [hremoved.frame slice hslice,
        segmentSpanRemoveFromQueue_slices st tid hslice]
      exact .refl _
  · intro bin slice _
    rw [hremoved.links]
    exact ⟨rfl, rfl⟩
  · rw [hremoved.spans]

theorem RemovingSpans.remove
    (h : RemovingSpans st tid owned tiles segment idx st' done
      (tile :: ahead) lists)
    (howned : segment ∈ owned) (hfree : tile.kind = .free)
    (hremoved : SpanRemoved st' st'' tid ⟨segment, tile.start⟩) :
    RemovingSpans st tid owned tiles segment tile.stop st'' (done ++ [tile])
      ahead (Function.update lists (sliceBin tile.count)
        ((lists (sliceBin tile.count)).erase ⟨segment, tile.start⟩)) := by
  have hsplit : Function.update tiles segment (park done ++ tile :: ahead)
      segment = park done ++ [tile] ++ ahead := by
    simp
  have hmem : tile ∈ Function.update tiles segment
      (park done ++ tile :: ahead) segment := by
    simp
  have hnew := hremoved.layout h.layout howned hsplit hfree
  rw [Function.update_idem] at hnew
  refine ⟨by rw [h.split]; simp, h.covers.2.2, ?_, ?_, ?_, ?_, ?_⟩
  · simpa using hnew
  · intro other hother hfree'
    rw [hremoved.links]
    rw [List.mem_append, List.mem_singleton] at hother
    rcases hother with hdone | rfl
    · -- an earlier span is detached, so it is in no queue
      have hparked : parkTile other ∈ Function.update tiles segment
          (park done ++ tile :: ahead) segment := by
        rw [Function.update_self, List.mem_append]
        exact .inl (List.mem_map_of_mem hdone)
      have hout := h.layout.head_notMem howned hparked
        (parkTile_ne_free other)
      rw [parkTile_start] at hout
      obtain ⟨hnext, hprev⟩ := h.layout.remove_links howned hmem hfree _ hout
      obtain ⟨hnone, hnone'⟩ := h.unlinked other hdone hfree'
      exact ⟨hnext.trans hnone, hprev.trans hnone'⟩
    · exact segmentSpanRemoveFromQueue_self st' tid _
  · exact hremoved.segments.trans h.segments
  · refine h.writes.trans ⟨?_, ?_, ?_, ?_⟩
    · intro slice hslice
      apply hremoved.frame
      rintro rfl
      exact hslice rfl
    · intro s _
      rw [hremoved.segments]
    · intro slice hslice
      rw [hremoved.links]
      exact h.layout.remove_links howned hmem hfree slice
        (h.layout.notMem_of_notOwned hslice)
    · intro t ht
      rw [hremoved.spans]
      exact Function.update_of_ne ht _ _
  · intro slice hslice
    rw [hremoved.frame slice (hslice tile (by simp) hfree)]
    apply h.frame
    intro other hother
    exact hslice other (by simp [hother])

theorem RemovingSpans.skip
    (h : RemovingSpans st tid owned tiles segment idx st' done
      (tile :: ahead) lists) (hfree : tile.kind ≠ .free) :
    RemovingSpans st tid owned tiles segment tile.stop st' (done ++ [tile])
      ahead lists := by
  refine ⟨by rw [h.split]; simp, h.covers.2.2, ?_, ?_, h.segments, h.writes, ?_⟩
  · have hlayout := h.layout
    simpa [parkTile_of_ne hfree] using hlayout
  · intro other hother hfree'
    rw [List.mem_append, List.mem_singleton] at hother
    rcases hother with hdone | rfl
    · exact h.unlinked other hdone hfree'
    · exact absurd hfree' hfree
  · intro slice hslice
    apply h.frame
    intro other hother
    exact hslice other (by simp [hother])

theorem removeSpans_walk {body : ℕ → State → Option (ℕ × State)}
    {remove : ℕ → State → State} (hbody : RemovesSpans tid segment body remove)
    (h : SpanLayout st tid owned tiles lists) (howned : segment ∈ owned)
    (hidle : ∀ tile ∈ tiles segment, tile.kind ≠ .detached)
    (P : State → Prop) (hstart : P st)
    (hP : ∀ idx st, (st.slices ⟨segment, idx⟩).blockSize = 0 → P st →
      P (remove idx st)) :
    ∃ st' lists', walk (st.segments segment).sliceEntries body
        ((st.segments segment).sliceEntries + 1) 0 st = some st' ∧
      RemovingSpans st tid owned tiles segment
        (st.segments segment).sliceEntries st' (tiles segment) [] lists' ∧
      P st' := by
  have hfirst : RemovingSpans st tid owned tiles segment 0 st []
      (tiles segment) lists := by
    refine ⟨rfl, h.tiled segment howned, ?_, by simp, rfl,
      .refl st tid segment owned, fun _ _ => rfl⟩
    rw [park_nil, List.nil_append, Function.update_eq_self]
    exact h
  have hstep : ∀ idx st', idx < (st.segments segment).sliceEntries →
      ((∃ done ahead lists', RemovingSpans st tid owned tiles segment idx st'
        done ahead lists') ∧ P st') → ∃ idx' st'',
      body idx st' = some (idx', st'') ∧ idx < idx' ∧
        (∃ done ahead lists', RemovingSpans st tid owned tiles segment idx'
          st'' done ahead lists') ∧ P st'' := by
    rintro idx st' hlt ⟨⟨done, ahead, lists', hinv⟩, hPinv⟩
    cases ahead with
    | nil =>
        have hidx : idx = (st.segments segment).sliceEntries := hinv.covers
        omega
    | cons tile rest =>
        have hidx : tile.start = idx := hinv.covers.1
        subst hidx
        have hkind : (st'.segments segment).kind = .normal := by
          rw [hinv.segments]
          exact h.kind segment howned
        have hmem : tile ∈ Function.update tiles segment
            (park done ++ tile :: rest) segment := by
          simp
        have hnot : tile.kind ≠ .detached := by
          apply hidle
          rw [hinv.split]
          simp
        have hcount := hinv.layout.headCount howned hmem hnot
        have hiff := hinv.layout.head_free_iff howned hmem hnot
        have hmove : tile.start < tile.stop := by
          simp only [Tile.stop]
          exact Nat.lt_add_of_pos_right hinv.covers.2.1
        have hresult := hbody.eq tile.start st' hkind
        rw [hcount] at hresult
        by_cases hfree : tile.kind = .free
        · have hzero := hiff.mpr hfree
          rw [if_pos hzero] at hresult
          exact ⟨tile.stop, _, hresult, hmove,
            ⟨_, _, _, hinv.remove howned hfree (hbody.removed _ _)⟩,
            hP _ _ hzero hPinv⟩
        · rw [if_neg fun hzero => hfree (hiff.mp hzero)] at hresult
          exact ⟨tile.stop, _, hresult, hmove, ⟨_, _, _, hinv.skip hfree⟩,
            hPinv⟩
  obtain ⟨idx, st', hwalk, hstop, ⟨done, ahead, lists', hend⟩, hPend⟩ :=
    walk_induction hstep ⟨⟨_, _, _, hfirst⟩, hstart⟩
      (show _ < (st.segments segment).sliceEntries + 1 by omega)
  cases ahead with
  | nil =>
      have hidx : idx = (st.segments segment).sliceEntries := hend.covers
      have hdone := hend.split
      rw [List.append_nil] at hdone
      refine ⟨st', lists', hwalk, ?_, hPend⟩
      rw [hdone, ← hidx]
      exact hend
  | cons tile rest =>
      have hle := hend.covers.2.2.le
      have hstartTile := hend.covers.1
      have hpos := hend.covers.2.1
      simp only [Tile.stop] at hle
      omega

end Loops

/-! ## Abandoning -/

theorem segmentAbandonSpan_removes (tid segment : ℕ) :
    RemovesSpans tid segment (segmentAbandonSpan tid segment) fun idx st =>
      (segmentSpanRemoveFromQueue st tid ⟨segment, idx⟩).setBlockSize
        ⟨segment, idx⟩ 0 := by
  have hcount (st : State) (idx : ℕ) :
      (((segmentSpanRemoveFromQueue st tid ⟨segment, idx⟩).setBlockSize
        ⟨segment, idx⟩ 0).slices ⟨segment, idx⟩).sliceCount =
          (st.slices ⟨segment, idx⟩).sliceCount := by
    simp [State.setBlockSize, segmentSpanRemoveFromQueue, spanQueueDelete]
  constructor
  · intro idx st
    refine ⟨rfl, rfl, rfl, rfl, hcount st idx, ?_⟩
    intro other hother
    simp only [State.setBlockSize]
    rw [State.setSlice_ne _ _ hother,
      segmentSpanRemoveFromQueue_slices st tid hother]
  · intro idx st _
    unfold segmentAbandonSpan
    dsimp only
    split
    · rw [hcount]
    · rfl

theorem segmentFreeSpan_removes (tid segment : ℕ) :
    RemovesSpans tid segment (segmentFreeSpan tid segment) fun idx st =>
      segmentSpanRemoveFromQueue st tid ⟨segment, idx⟩ := by
  have hcount (st : State) (idx : ℕ) :
      ((segmentSpanRemoveFromQueue st tid ⟨segment, idx⟩).slices
        ⟨segment, idx⟩).sliceCount =
          (st.slices ⟨segment, idx⟩).sliceCount :=
    (spanQueueDelete_head st tid _ _).1
  constructor
  · intro idx st
    exact ⟨rfl, rfl, rfl, rfl, hcount st idx, fun other hother =>
      segmentSpanRemoveFromQueue_slices st tid hother⟩
  · intro idx st hkind
    have hnormal : (st.segments segment).kind ≠ .huge := by
      rw [hkind]
      decide
    unfold segmentFreeSpan
    dsimp only
    by_cases hzero : (st.slices ⟨segment, idx⟩).blockSize = 0
    · rw [if_pos ⟨hzero, hnormal⟩, if_pos hzero, hcount]
    · rw [if_neg fun hand => hzero hand.1, if_neg hzero]

section Abandon

variable {w : SegmentWorld} {tid : ℕ} {owned : Set ℕ}
  {tiles : ℕ → List (Tile SpanKind)} {lists lists' : ℕ → List SlicePtr}
  {segment : ℕ} {st st' : State}

theorem SpanLayout.mem_release (h : SpanLayout st tid owned tiles lists)
    (h' : SpanLayout st' tid (owned \ {segment}) tiles lists') (bin : ℕ)
    (slice : SlicePtr) :
    slice ∈ lists' bin ↔ slice ∈ lists bin ∧ slice.segment ≠ segment := by
  rw [h.mem_queue, h'.mem_queue]
  constructor
  · exact fun ⟨hs, hrest⟩ => ⟨⟨hs.1, hrest⟩, hs.2⟩
  · exact fun ⟨⟨hs, hrest⟩, hne⟩ => ⟨⟨hs, hne⟩, hrest⟩

theorem SpanInvariant.release
    (h : SpanInvariant st .idle tid owned tiles lists)
    (hlayout : SpanLayout st' tid (owned \ {segment}) tiles lists')
    (hsegments : ∀ s, s ≠ segment →
      (st'.segments s).used = (st.segments s).used) :
    SpanInvariant st' .idle tid (owned \ {segment}) tiles lists' := by
  refine ⟨hlayout, ?_, fun s hs => h.detached s hs.1, ?_, ?_⟩
  · intro s hs
    rw [hsegments s hs.2]
    exact h.used s hs.1
  · intro slice hslice
    cases hslice
  · intro slice hslice
    cases hslice

theorem SpanInvariant.leave
    (h : SpanInvariant st .idle tid owned tiles lists)
    (howned : segment ∈ owned)
    (hall : (st.segments segment).abandoned = (st.segments segment).used)
    (hslices : st'.slices = st.slices) {commit : CommitState} {visits : ℕ}
    (hself : st'.segments segment =
      { (st.segments segment).withCommit commit with
        threadId := 0
        abandonedVisits := visits
        wasReclaimed := false })
    (hunlinked : ∀ tile ∈ tiles segment, tile.kind = .free →
      st'.links.next ⟨segment, tile.start⟩ = none ∧
        st'.links.prev ⟨segment, tile.start⟩ = none) :
    AbandonedSegment st' segment (tiles segment) := by
  have hentry : ∀ tile ∈ tiles segment, SpanEntry st' segment tile := by
    intro tile htile
    apply (h.layout.entry segment howned tile htile).congr
      (h.layout.count_pos howned htile)
    intro idx _ _
    rw [hslices]
    exact .refl _
  refine ⟨?_, ?_, ?_, fun tile htile => h.not_detached howned htile, hentry,
    h.layout.info segment howned, h.layout.apart segment howned, ?_, ?_, ?_⟩
  · rw [hself]
    exact h.layout.kind segment howned
  · rw [hself]
  · rw [hself]
    exact h.layout.tiled segment howned
  · intro tile htile hfree
    obtain ⟨hnext, hprev⟩ := hunlinked tile htile hfree
    exact ⟨(hentry tile htile).free hfree, hnext, hprev⟩
  · rw [hself]
    exact h.used segment howned
  · rw [hself]
    exact hall

/-- Abandoning a segment ends: all its free spans leave their queues, the
other queued spans stay, and the segment is marked once it is on its own. -/
theorem segmentAbandon_leaves (cfg : Config) (purgeOption : Bool)
    (h : SpanInvariant w.st .idle tid owned tiles lists)
    (howned : segment ∈ owned)
    (hall : (w.st.segments segment).abandoned =
      (w.st.segments segment).used) :
    ∃ w' lists', segmentAbandon cfg purgeOption w tid segment = some w' ∧
      SpanInvariant w'.st .idle tid (owned \ {segment}) tiles lists' ∧
      AbandonedSegment w'.st segment (tiles segment) ∧
      (∀ bin slice, slice ∈ lists' bin ↔
        slice ∈ lists bin ∧ slice.segment ≠ segment) ∧
      w'.st.slices = w.st.slices ∧
      w'.marked = Function.update w.marked segment true ∧
      w'.queues = w.queues ∧ w'.released = w.released ∧
      (w'.st.segments segment).dontFree =
        (w.st.segments segment).dontFree ∧
      WritesOnly w.st w'.st tid segment owned := by
  have hidle : ∀ tile ∈ tiles segment, tile.kind ≠ .detached :=
    fun tile htile => h.not_detached howned htile
  obtain ⟨st, lists', hwalk, hend, hslices⟩ := removeSpans_walk
    (segmentAbandonSpan_removes tid segment) h.layout howned hidle
    (fun st => st.slices = w.st.slices) rfl
    fun idx st hzero hslices =>
      (removeFromQueue_setBlockSize st tid hzero).trans hslices
  have hparked : ∀ tile ∈ Function.update tiles segment
      (park (tiles segment) ++ []) segment, tile.kind ≠ .free := by
    rw [Function.update_self, List.append_nil]
    intro tile htile
    obtain ⟨old, -, rfl⟩ := mem_park htile
    exact parkTile_ne_free old
  unfold segmentAbandon
  rw [hwalk]
  dsimp only
  generalize (decide ((st.segments segment).memid.memkind ≠ .arena) ||
    purgeOption) = force
  have hcommit := onlyCommit_setCommit st segment (segmentTryPurge cfg
    (st.segments segment) (st.segments segment).commit st.os segment force)
  generalize hpurged : st.setCommit segment (segmentTryPurge cfg
    (st.segments segment) (st.segments segment).commit st.os segment force) =
      purged at hcommit
  have hslices' : purged.slices = w.st.slices := by
    rw [← hpurged]
    exact hslices
  have hlinks' : purged.links = st.links := by
    rw [← hpurged]
    rfl
  have hspans' : purged.spans = st.spans := by
    rw [← hpurged]
    rfl
  have hothers : ∀ s, s ≠ segment → purged.segments s = w.st.segments s := by
    intro s hs
    rw [← hpurged, ← hend.segments]
    exact State.setSegment_ne st _ hs
  obtain ⟨commit, hinfo⟩ := hcommit segment
  rw [hend.segments] at hinfo
  set st' := purged.setSegment segment { purged.segments segment with
    threadId := 0
    abandonedVisits := 1
    wasReclaimed := false } with hst'
  have hself : st'.segments segment =
      { (w.st.segments segment).withCommit commit with
        threadId := 0
        abandonedVisits := 1
        wasReclaimed := false } := by
    rw [hst', State.setSegment_self, hinfo]
  have hne : ∀ s, s ≠ segment → st'.segments s = w.st.segments s := by
    intro s hs
    rw [hst', State.setSegment_ne _ _ hs, hothers s hs]
  have hlayout : SpanLayout st' tid (owned \ {segment}) tiles lists' := by
    have hgone : SpanLayout st' tid (owned \ {segment}) _ lists' :=
      hend.layout.release hparked (hslices'.trans hslices.symm)
        (fun s hs => (hne s hs).trans (congrFun hend.segments.symm s)) hlinks'
        hspans'
    refine hgone.congrTiles ?_
    intro s hs
    exact Function.update_of_ne hs.2 _ _
  have hlinks : st'.links = st.links := hlinks'
  have habandoned : AbandonedSegment st' segment (tiles segment) :=
    h.leave howned hall hslices' hself fun tile htile hfree => by
      rw [hlinks]
      exact hend.unlinked tile htile hfree
  have hdontFree : (st'.segments segment).dontFree =
      (w.st.segments segment).dontFree := by
    rw [hself]
    rfl
  have hwrites : WritesOnly w.st st' tid segment owned := by
    refine ⟨fun slice _ => congrFun hslices' slice, hne, ?_, ?_⟩
    · intro slice hs
      rw [hlinks]
      exact hend.writes.links slice hs
    · intro t ht
      rw [show st'.spans = st.spans from hspans']
      exact hend.writes.spans t ht
  exact ⟨_, lists', rfl, h.release hlayout fun s hs =>
    congrArg SegmentInfo.used (hne s hs), habandoned,
    h.layout.mem_release hlayout, hslices', rfl, rfl, rfl,
    hdontFree, hwrites⟩

/-- Abandoning a segment whose pages have all been given up takes its free
spans, and no others, out of the queues of the thread.  It changes no entry,
and leaves a segment of its own that is marked. -/
theorem segmentAbandon_spec (cfg : Config) (purgeOption : Bool)
    (h : SpanInvariant w.st .idle tid owned tiles lists)
    (howned : segment ∈ owned)
    (hall : (w.st.segments segment).abandoned =
      (w.st.segments segment).used) :
    ∃ w' lists', segmentAbandon cfg purgeOption w tid segment = some w' ∧
      SpanInvariant w'.st .idle tid (owned \ {segment}) tiles lists' ∧
      AbandonedSegment w'.st segment (tiles segment) ∧
      (∀ bin slice, slice ∈ lists' bin ↔
        slice ∈ lists bin ∧ slice.segment ≠ segment) ∧
      w'.st.slices = w.st.slices ∧ w'.marked segment = true := by
  obtain ⟨w', lists', hresult, hinv, hsegment, hqueues, hslices, hmarked, -⟩ :=
    segmentAbandon_leaves cfg purgeOption h howned hall
  refine ⟨w', lists', hresult, hinv, hsegment, hqueues, hslices, ?_⟩
  rw [hmarked, Function.update_self]

def State.leaving (st : State) (segment : ℕ) : State :=
  st.setSegment segment
    { st.segments segment with abandoned := (st.segments segment).used }

theorem SpanInvariant.leaving
    (h : SpanInvariant st .idle tid owned tiles lists) :
    SpanInvariant (st.leaving segment) .idle tid owned tiles lists := by
  have hself : (st.leaving segment).segments segment =
      { st.segments segment with
        abandoned := (st.segments segment).used } :=
    State.setSegment_self _ _ _
  have hother : ∀ s, s ≠ segment →
      (st.leaving segment).segments s = st.segments s :=
    fun s hs => State.setSegment_ne _ _ hs
  refine h.congr rfl ?_ rfl rfl ?_
  · intro s _
    by_cases hs : s = segment
    · rw [hs, hself]
      exact ⟨rfl, rfl, rfl⟩
    · rw [hother s hs]
      exact .refl _
  · intro s _
    by_cases hs : s = segment
    · rw [hs, hself]
    · rw [hother s hs]

/-- A thread with one page in one segment, which has been given up. -/
def leavingWorld : SegmentWorld where
  st := pageState.leaving 1
  queues := noQueues
  tlds := fun _ => ⟨1, segmentSize, 0⟩
  marked := fun _ => false
  released := []

theorem leaving_abandoned (st : State) (segment : ℕ) :
    ((st.leaving segment).segments segment).abandoned =
      ((st.leaving segment).segments segment).used := by
  simp [State.leaving]

theorem segmentAbandon_leavingWorld : ∃ tiles w' lists',
    segmentAbandon {} false leavingWorld 1 1 = some w' ∧
      SpanInvariant w'.st .idle 1 ({1} \ {1}) tiles lists' ∧
      AbandonedSegment w'.st 1 (tiles 1) ∧ w'.marked 1 = true := by
  obtain ⟨tiles, lists, h⟩ := pageState_invariant
  have hleaving : SpanInvariant leavingWorld.st .idle 1 {1} tiles lists :=
    h.leaving
  have hall : (leavingWorld.st.segments 1).abandoned =
      (leavingWorld.st.segments 1).used := leaving_abandoned pageState 1
  obtain ⟨w', lists', hresult, hinv, hsegment, -, -, hmarked⟩ :=
    segmentAbandon_spec {} false hleaving (Set.mem_singleton 1) hall
  exact ⟨tiles, w', lists', hresult, hinv, hsegment, hmarked⟩

/-- Freeing a segment ends: its free spans leave their queues, and it goes back
once. -/
theorem segmentFree_spec
    (h : SpanInvariant w.st .idle tid owned tiles lists)
    (howned : segment ∈ owned)
    (hdontFree : (w.st.segments segment).dontFree = false) :
    ∃ w' lists', segmentFree w tid segment = some w' ∧
      SpanInvariant w'.st .idle tid (owned \ {segment}) tiles lists' ∧
      (∀ bin slice, slice ∈ lists' bin ↔
        slice ∈ lists bin ∧ slice.segment ≠ segment) ∧
      w'.queues = w.queues ∧ w'.released = segment :: w.released ∧
      (w'.st.segments segment).threadId = 0 ∧ w'.marked = w.marked ∧
      WritesOnly w.st w'.st tid segment owned := by
  obtain ⟨st, lists', hwalk, hend, -⟩ := removeSpans_walk
    (segmentFreeSpan_removes tid segment) h.layout howned
    (fun tile htile => h.not_detached howned htile) (fun _ => True) trivial
    fun _ _ _ _ => trivial
  have hparked : ∀ tile ∈ Function.update tiles segment
      (park (tiles segment) ++ []) segment, tile.kind ≠ .free := by
    rw [Function.update_self, List.append_nil]
    intro tile htile
    obtain ⟨old, -, rfl⟩ := mem_park htile
    exact parkTile_ne_free old
  unfold segmentFree
  rw [if_neg (by simp [hdontFree]), hwalk]
  set st' := st.setSegment segment { st.segments segment with
    threadId := 0
    wasReclaimed := false } with hst'
  have hne : ∀ s, s ≠ segment → st'.segments s = st.segments s :=
    fun s hs => State.setSegment_ne _ _ hs
  have hlayout : SpanLayout st' tid (owned \ {segment}) tiles lists' := by
    have hgone : SpanLayout st' tid (owned \ {segment}) _ lists' :=
      hend.layout.release hparked rfl hne rfl rfl
    refine hgone.congrTiles ?_
    intro s hs
    exact Function.update_of_ne hs.2 _ _
  have hused : ∀ s, s ≠ segment →
      (st'.segments s).used = (w.st.segments s).used := by
    intro s hs
    rw [hne s hs, hend.segments]
  refine ⟨_, lists', rfl, h.release hlayout hused,
    h.layout.mem_release hlayout, rfl, rfl, ?_, rfl,
    hend.writes.trans (.setSegment st tid segment owned _)⟩
  exact congrArg SegmentInfo.threadId (State.setSegment_self st segment _)

end Abandon

end Palloc
