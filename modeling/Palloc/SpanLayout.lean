import Palloc.SegmentSpans
import Palloc.IntervalTiling

/-!
# The slice structure of the segments of a thread

`SpanLayout` ties the slice entries and span queues of the segments that one
thread owns to a tiling of each segment.  A tile is a used span, a free span
or a detached range: one that an operation has taken out of the queues and
not turned into a span yet, about whose entries nothing is known.

Every operation rewrites a few neighbouring tiles of one segment.
`SpanLayout.rewrite` says once what such a step has to show; the operations
then only account for the entries they write.
-/

namespace Palloc

open LinkedQueue IntervalTiling

inductive SpanKind where
  | used
  | free
  | detached
  deriving Repr, DecidableEq

structure SameSpan (page page' : PageFields) : Prop where
  sliceCount : page'.sliceCount = page.sliceCount
  sliceOffset : page'.sliceOffset = page.sliceOffset
  blockSize : page'.blockSize = page.blockSize

theorem SameSpan.refl (page : PageFields) : SameSpan page page :=
  ⟨rfl, rfl, rfl⟩

theorem SameSpan.trans {page page' page'' : PageFields}
    (h : SameSpan page page') (h' : SameSpan page' page'') :
    SameSpan page page'' :=
  ⟨h'.sliceCount.trans h.sliceCount, h'.sliceOffset.trans h.sliceOffset,
    h'.blockSize.trans h.blockSize⟩

structure SameHeader (info info' : SegmentInfo) : Prop where
  kind : info'.kind = info.kind
  threadId : info'.threadId = info.threadId
  sliceEntries : info'.sliceEntries = info.sliceEntries

theorem SameHeader.refl (info : SegmentInfo) : SameHeader info info :=
  ⟨rfl, rfl, rfl⟩

theorem SameHeader.trans {info info' info'' : SegmentInfo}
    (h : SameHeader info info') (h' : SameHeader info' info'') :
    SameHeader info info'' :=
  ⟨h'.kind.trans h.kind, h'.threadId.trans h.threadId,
    h'.sliceEntries.trans h.sliceEntries⟩

structure FreeSpan (st : State) (segment start count : ℕ) : Prop where
  sliceCount : (st.slices ⟨segment, start⟩).sliceCount = count
  sliceOffset : (st.slices ⟨segment, start⟩).sliceOffset = 0
  blockSize : (st.slices ⟨segment, start⟩).blockSize = 0
  last_offset : (st.slices ⟨segment, start + count - 1⟩).sliceOffset =
    count - 1
  last_rest : 1 < count →
    (st.slices ⟨segment, start + count - 1⟩).sliceCount = 0 ∧
      (st.slices ⟨segment, start + count - 1⟩).blockSize = 0

structure UsedSpan (st : State) (segment start count : ℕ) : Prop where
  sliceCount : (st.slices ⟨segment, start⟩).sliceCount = count
  sliceOffset : (st.slices ⟨segment, start⟩).sliceOffset = 0
  blockSize_pos : 0 < (st.slices ⟨segment, start⟩).blockSize
  back : ∀ i, 0 < i → i < count → i ≤ maxSliceOffsetCount ∨ i + 1 = count →
    (st.slices ⟨segment, start + i⟩).sliceOffset = i ∧
      (st.slices ⟨segment, start + i⟩).sliceCount = 0 ∧
        (st.slices ⟨segment, start + i⟩).blockSize = 1

def SpanEntry (st : State) (segment : ℕ) (tile : Tile SpanKind) : Prop :=
  match tile.kind with
  | .used => UsedSpan st segment tile.start tile.count
  | .free => FreeSpan st segment tile.start tile.count
  | .detached => True

theorem SpanEntry.used {st : State} {segment : ℕ} {tile : Tile SpanKind}
    (h : SpanEntry st segment tile) (hkind : tile.kind = .used) :
    UsedSpan st segment tile.start tile.count := by
  unfold SpanEntry at h
  rw [hkind] at h
  exact h

theorem SpanEntry.free {st : State} {segment : ℕ} {tile : Tile SpanKind}
    (h : SpanEntry st segment tile) (hkind : tile.kind = .free) :
    FreeSpan st segment tile.start tile.count := by
  unfold SpanEntry at h
  rw [hkind] at h
  exact h

/-- The head of a tile that is not detached. -/
theorem SpanEntry.head {st : State} {segment : ℕ} {tile : Tile SpanKind}
    (h : SpanEntry st segment tile) (hkind : tile.kind ≠ .detached) :
    (st.slices ⟨segment, tile.start⟩).sliceCount = tile.count ∧
      (st.slices ⟨segment, tile.start⟩).sliceOffset = 0 ∧
        ((st.slices ⟨segment, tile.start⟩).blockSize = 0 ↔
          tile.kind = .free) := by
  cases hcase : tile.kind with
  | used =>
      have hused := h.used hcase
      have hpos := hused.blockSize_pos
      refine ⟨hused.sliceCount, hused.sliceOffset, ?_⟩
      constructor
      · omega
      · intro hfree
        cases hfree
  | free =>
      have hfree := h.free hcase
      refine ⟨hfree.sliceCount, hfree.sliceOffset, ?_⟩
      simp [hfree.blockSize]
  | detached => exact absurd hcase hkind

theorem SpanEntry.last {st : State} {segment : ℕ} {tile : Tile SpanKind}
    (h : SpanEntry st segment tile) (hkind : tile.kind ≠ .detached)
    (hcount : 0 < tile.count) :
    st.sliceFirst ⟨segment, tile.stop - 1⟩ = ⟨segment, tile.start⟩ := by
  have hindex : tile.stop - 1 = tile.start + (tile.count - 1) := by
    simp only [Tile.stop]
    omega
  have hoffset : (st.slices ⟨segment, tile.stop - 1⟩).sliceOffset =
      tile.count - 1 := by
    cases hcase : tile.kind with
    | used =>
        have hused := h.used hcase
        rw [hindex]
        by_cases hone : tile.count = 1
        · simpa [hone] using hused.sliceOffset
        · exact (hused.back (tile.count - 1) (by omega) (by omega)
            (.inr (by omega))).1
    | free => exact (h.free hcase).last_offset
    | detached => exact absurd hcase hkind
  simp only [State.sliceFirst, hoffset, SlicePtr.mk.injEq, true_and]
  omega

/-- Only the entries of the tile matter. -/
theorem SpanEntry.congr {st st' : State} {segment : ℕ}
    {tile : Tile SpanKind} (h : SpanEntry st segment tile)
    (hcount : 0 < tile.count)
    (hsame : ∀ idx, tile.start ≤ idx → idx < tile.stop →
      SameSpan (st.slices ⟨segment, idx⟩) (st'.slices ⟨segment, idx⟩)) :
    SpanEntry st' segment tile := by
  have hstop : tile.stop = tile.start + tile.count := rfl
  have hhead := hsame tile.start le_rfl (by omega)
  unfold SpanEntry
  cases hcase : tile.kind with
  | used =>
      have hused := h.used hcase
      refine ⟨hhead.sliceCount.trans hused.sliceCount,
        hhead.sliceOffset.trans hused.sliceOffset, ?_, ?_⟩
      · rw [hhead.blockSize]
        exact hused.blockSize_pos
      · intro i hpos hi hback
        have hi' := hsame (tile.start + i) (by omega) (by omega)
        obtain ⟨hoffset, hzero, hone⟩ := hused.back i hpos hi hback
        exact ⟨hi'.sliceOffset.trans hoffset, hi'.sliceCount.trans hzero,
          hi'.blockSize.trans hone⟩
  | free =>
      have hfree := h.free hcase
      have hlast := hsame (tile.start + tile.count - 1) (by omega) (by omega)
      refine ⟨hhead.sliceCount.trans hfree.sliceCount,
        hhead.sliceOffset.trans hfree.sliceOffset,
        hhead.blockSize.trans hfree.blockSize,
        hlast.sliceOffset.trans hfree.last_offset, ?_⟩
      intro hone
      obtain ⟨hzero, hbsize⟩ := hfree.last_rest hone
      exact ⟨hlast.sliceCount.trans hzero, hlast.blockSize.trans hbsize⟩
  | detached => trivial

/-- The segments of `owned` are normal segments of thread `tid`, tiled by
their spans; no two free spans touch; and the span queues of the thread hold
exactly the free spans, each in the queue of its size. -/
structure SpanLayout (st : State) (tid : ℕ) (owned : Set ℕ)
    (tiles : ℕ → List (Tile SpanKind)) (lists : ℕ → List SlicePtr) :
    Prop where
  thread_ne : tid ≠ 0
  kind : ∀ segment ∈ owned, (st.segments segment).kind = .normal
  threadId : ∀ segment ∈ owned, (st.segments segment).threadId = tid
  tiled : ∀ segment ∈ owned,
    Tiles 0 (tiles segment) (st.segments segment).sliceEntries
  entry : ∀ segment ∈ owned, ∀ tile ∈ tiles segment,
    SpanEntry st segment tile
  info : ∀ segment ∈ owned, ∃ tile ∈ tiles segment,
    tile.start = 0 ∧ tile.kind = .used
  apart : ∀ segment ∈ owned, ∀ tile ∈ tiles segment,
    ∀ other ∈ tiles segment, tile.kind = .free → other.kind = .free →
      tile.stop ≠ other.start
  queues : IsFamily st.links (st.spans tid) lists
  mem_queue : ∀ bin slice, slice ∈ lists bin ↔
    slice.segment ∈ owned ∧ ∃ tile ∈ tiles slice.segment,
      tile.start = slice.idx ∧ tile.kind = .free ∧
        sliceBin tile.count = bin

namespace SpanLayout

variable {st st' : State} {tid : ℕ} {owned : Set ℕ}
  {tiles : ℕ → List (Tile SpanKind)} {lists lists' : ℕ → List SlicePtr}
  {segment : ℕ} {before middle middle' after : List (Tile SpanKind)}

theorem count_pos (h : SpanLayout st tid owned tiles lists)
    (howned : segment ∈ owned) {tile : Tile SpanKind}
    (htile : tile ∈ tiles segment) : 0 < tile.count :=
  ((h.tiled segment howned).bounds htile).2.1

theorem stop_le (h : SpanLayout st tid owned tiles lists)
    (howned : segment ∈ owned) {tile : Tile SpanKind}
    (htile : tile ∈ tiles segment) :
    tile.stop ≤ (st.segments segment).sliceEntries :=
  ((h.tiled segment howned).bounds htile).2.2

theorem notMem_queue (h : SpanLayout st tid owned tiles lists)
    {slice : SlicePtr}
    (hnone : ∀ tile ∈ tiles slice.segment, tile.start = slice.idx →
      tile.kind ≠ .free) (bin : ℕ) : slice ∉ lists bin := by
  intro hmem
  obtain ⟨_, tile, htile, hstart, hfree, _⟩ := (h.mem_queue bin slice).mp hmem
  exact hnone tile htile hstart hfree

/-- Rewriting the tiles of `middle` to those of `middle'`: the new tiles
cover the same slices and match their entries, no other entry changes, and
the queues follow. -/
theorem rewrite (h : SpanLayout st tid owned tiles lists)
    (howned : segment ∈ owned)
    (htiles : tiles segment = before ++ middle ++ after)
    (hheader : ∀ s ∈ owned, SameHeader (st.segments s) (st'.segments s))
    (hcover : ∀ a b, Tiles a middle b → Tiles a middle' b)
    (hframe : ∀ slice : SlicePtr,
      (slice.segment = segment → ∀ tile ∈ middle,
        slice.idx < tile.start ∨ tile.stop ≤ slice.idx) →
      SameSpan (st.slices slice) (st'.slices slice))
    (hentry : ∀ tile ∈ middle', SpanEntry st' segment tile)
    (hapart : ∀ tile ∈ middle', tile.kind = .free →
      ∀ other ∈ before ++ middle' ++ after, other.kind = .free →
        tile.stop ≠ other.start ∧ other.stop ≠ tile.start)
    (hinfo : ∀ tile ∈ middle, tile.kind = .used → tile.start = 0 →
      ∃ tile' ∈ middle', tile'.start = 0 ∧ tile'.kind = .used)
    (hqueues : IsFamily st'.links (st'.spans tid) lists')
    (hmem : ∀ bin slice, slice ∈ lists' bin ↔
      (slice ∈ lists bin ∧ ¬ (slice.segment = segment ∧
        ∃ tile ∈ middle, tile.start = slice.idx)) ∨
      (slice.segment = segment ∧ ∃ tile ∈ middle',
        tile.start = slice.idx ∧ tile.kind = .free ∧
          sliceBin tile.count = bin)) :
    SpanLayout st' tid owned
      (Function.update tiles segment (before ++ middle' ++ after))
      lists' := by
  have htiled := h.tiled segment howned
  rw [htiles] at htiled
  have houter : ∀ tile, tile ∈ before ∨ tile ∈ after →
      tile ∈ tiles segment := by
    intro tile htile
    rw [htiles]
    simp only [List.mem_append]
    tauto
  have hother : ∀ s, s ≠ segment →
      Function.update tiles segment (before ++ middle' ++ after) s =
        tiles s := fun s hs => Function.update_of_ne hs _ _
  constructor
  · exact h.thread_ne
  · intro s hs
    exact (hheader s hs).kind.trans (h.kind s hs)
  · intro s hs
    exact (hheader s hs).threadId.trans (h.threadId s hs)
  · intro s hs
    rw [(hheader s hs).sliceEntries]
    by_cases hcase : s = segment
    · subst hcase
      rw [Function.update_self]
      exact htiled.replace hcover
    · rw [hother s hcase]
      exact h.tiled s hs
  · intro s hs tile htile
    by_cases hcase : s = segment
    · subst hcase
      rw [Function.update_self, List.mem_append, List.mem_append] at htile
      have hkept : tile ∈ before ∨ tile ∈ after →
          SpanEntry st' s tile := by
        intro hside
        have hmemTiles := houter tile hside
        apply (h.entry s hs tile hmemTiles).congr (h.count_pos hs hmemTiles)
        intro idx hlo hhi
        apply hframe
        intro _ inner hinner
        have hout := htiled.outside hside hinner
        change idx < inner.start ∨ inner.stop ≤ idx
        omega
      rcases htile with (hb | hm) | ha
      · exact hkept (.inl hb)
      · exact hentry tile hm
      · exact hkept (.inr ha)
    · rw [hother s hcase] at htile
      apply (h.entry s hs tile htile).congr (h.count_pos hs htile)
      intro idx _ _
      exact hframe _ fun heq => absurd heq hcase
  · intro s hs
    by_cases hcase : s = segment
    · subst hcase
      rw [Function.update_self]
      obtain ⟨tile, htile, hstart, hused⟩ := h.info s hs
      rw [htiles, List.mem_append, List.mem_append] at htile
      rcases htile with (hb | hm) | ha
      · exact ⟨tile, by simp [hb], hstart, hused⟩
      · obtain ⟨tile', htile', hstart', hused'⟩ :=
          hinfo tile hm hused hstart
        exact ⟨tile', by simp [htile'], hstart', hused'⟩
      · exact ⟨tile, by simp [ha], hstart, hused⟩
    · rw [hother s hcase]
      exact h.info s hs
  · intro s hs tile htile other hothers hfree hfree'
    by_cases hcase : s = segment
    · subst hcase
      rw [Function.update_self] at htile hothers
      by_cases hm : tile ∈ middle'
      · exact (hapart tile hm hfree other hothers hfree').1
      · by_cases hm' : other ∈ middle'
        · exact (hapart other hm' hfree' tile htile hfree).2
        · simp only [List.mem_append] at htile hothers
          exact h.apart s hs tile (houter tile (by tauto)) other
            (houter other (by tauto)) hfree hfree'
    · rw [hother s hcase] at htile hothers
      exact h.apart s hs tile htile other hothers hfree hfree'
  · exact hqueues
  · intro bin slice
    rw [hmem, h.mem_queue]
    by_cases hcase : slice.segment = segment
    · rw [hcase, Function.update_self]
      constructor
      · rintro (⟨⟨hs, tile, htile, hstart, hfree, hbin⟩, hnone⟩ |
          ⟨-, tile, htile, hrest⟩)
        · refine ⟨hs, tile, ?_, hstart, hfree, hbin⟩
          rw [htiles] at htile
          simp only [List.mem_append] at htile ⊢
          rcases htile with (hb | hm) | ha
          · exact .inl (.inl hb)
          · exact absurd ⟨rfl, tile, hm, hstart⟩ hnone
          · exact .inr ha
        · exact ⟨howned, tile, by simp [htile], hrest⟩
      · rintro ⟨hs, tile, htile, hstart, hfree, hbin⟩
        simp only [List.mem_append] at htile
        by_cases hm : tile ∈ middle'
        · exact .inr ⟨rfl, tile, hm, hstart, hfree, hbin⟩
        · have hside : tile ∈ before ∨ tile ∈ after := by tauto
          refine .inl ⟨⟨hs, tile, houter tile hside, hstart, hfree, hbin⟩,
            ?_⟩
          rintro ⟨-, inner, hinner, hstart'⟩
          have hout := htiled.outside hside hinner
          have hpos := h.count_pos howned (houter tile hside)
          have hpos' := h.count_pos howned
            (show inner ∈ tiles segment by
              rw [htiles]
              simp [hinner])
          simp only [Tile.stop] at hout
          omega
    · rw [hother _ hcase]
      constructor
      · rintro (⟨hleft, -⟩ | ⟨heq, -⟩)
        · exact hleft
        · exact absurd heq hcase
      · intro hleft
        exact .inl ⟨hleft, fun heq => hcase heq.1⟩

/-- The tile list itself may be regrouped where it is detached. -/
theorem regroup (h : SpanLayout st tid owned tiles lists)
    (howned : segment ∈ owned)
    (htiles : tiles segment = before ++ middle ++ after)
    (hcover : ∀ a b, Tiles a middle b → Tiles a middle' b)
    (hdetached : ∀ tile ∈ middle, tile.kind = .detached)
    (hdetached' : ∀ tile ∈ middle', tile.kind = .detached) :
    SpanLayout st tid owned
      (Function.update tiles segment (before ++ middle' ++ after))
      lists := by
  refine h.rewrite howned htiles (fun s _ => .refl _) hcover
    (fun slice _ => .refl _) ?_ ?_ ?_ h.queues ?_
  · intro tile htile
    unfold SpanEntry
    rw [hdetached' tile htile]
    trivial
  · intro tile htile hfree
    rw [hdetached' tile htile] at hfree
    cases hfree
  · intro tile htile hused
    rw [hdetached tile htile] at hused
    cases hused
  · intro bin slice
    constructor
    · intro hmem
      refine .inl ⟨hmem, ?_⟩
      rintro ⟨rfl, inner, hinner, hstart⟩
      obtain ⟨_, tile, htile, hstart', hfree, _⟩ :=
        (h.mem_queue bin slice).mp hmem
      have hsame := (h.tiled _ howned).eq_of_start htile
        (show inner ∈ tiles slice.segment by
          rw [htiles]
          simp [hinner]) (by omega)
      rw [hsame, hdetached inner hinner] at hfree
      cases hfree
    · rintro (⟨hmem, -⟩ | ⟨-, tile, htile, -, hfree, -⟩)
      · exact hmem
      · rw [hdetached' tile htile] at hfree
        cases hfree

end SpanLayout

end Palloc
