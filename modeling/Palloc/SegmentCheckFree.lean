import Palloc.PagePartition
import Palloc.SegmentAbandon
import Palloc.SpanRun

/-!
# Visiting an abandoned segment

`pa_segment_check_free` frees the pages of an abandoned segment that have no
live blocks.  The freed spans merge with the free ones at both sides, also
with one that the loop has not met yet, while no queue is touched.
-/

namespace Palloc

open IndexWalk LinkedQueue IntervalTiling

/-! ## Merging tiles -/

/-- A last tile of `before` that is free joins a range that starts at
`start`. -/
def MergedPrev (before : List (Tile SpanKind)) (start : ℕ)
    (before' : List (Tile SpanKind)) (idx : ℕ) : Prop :=
  (before' = before ∧ idx = start ∧
      ∀ tile, before.getLast? = some tile → tile.kind ≠ .free) ∨
    ∃ tile, before = before' ++ [tile] ∧ tile.kind = .free ∧
      idx = tile.start

/-- A first tile of `after` that is free joins a range that ends at `stop`. -/
def MergedNext (after : List (Tile SpanKind)) (stop : ℕ)
    (after' : List (Tile SpanKind)) (stop' : ℕ) : Prop :=
  (after' = after ∧ stop' = stop ∧
      ∀ tile, after.head? = some tile → tile.kind ≠ .free) ∨
    ∃ tile, after = tile :: after' ∧ tile.kind = .free ∧ stop' = tile.stop

/-- The range of `count` entries from `start` on becomes one free tile
together with its free neighbours. -/
structure Merged (before : List (Tile SpanKind)) (start count : ℕ)
    (after before' : List (Tile SpanKind)) (idx total : ℕ)
    (after' : List (Tile SpanKind)) : Prop where
  prev : MergedPrev before start before' idx
  next : MergedNext after (start + count) after' (idx + total)

section Merge

variable {before after before' after' : List (Tile SpanKind)}
  {start count idx total stop : ℕ}

theorem Merged.bounds
    (h : Merged before start count after before' idx total after')
    (hbefore : Tiles 0 before start) (hafter : Tiles (start + count) after stop)
    (hcount : 0 < count) :
    Tiles 0 before' idx ∧ Tiles (idx + total) after' stop ∧ idx ≤ start ∧
      start + count ≤ idx + total ∧ 0 < total := by
  have hfirst : Tiles 0 before' idx ∧ idx ≤ start := by
    rcases h.prev with ⟨rfl, rfl, -⟩ | ⟨tile, rfl, -, rfl⟩
    · exact ⟨hbefore, le_rfl⟩
    · obtain ⟨mid, hmid, hstart, -, hstop⟩ := tiles_append.mp hbefore
      simp only [tiles_nil, Tile.stop] at hstop
      exact ⟨hstart ▸ hmid, by omega⟩
  have hlast : Tiles (idx + total) after' stop ∧
      start + count ≤ idx + total := by
    rcases h.next with ⟨rfl, heq, -⟩ | ⟨tile, rfl, -, heq⟩
    · rw [heq]
      exact ⟨hafter, le_rfl⟩
    · rw [heq]
      refine ⟨hafter.2.2, ?_⟩
      have hstart := hafter.1
      simp only [Tile.stop]
      omega
  exact ⟨hfirst.1, hlast.1, hfirst.2, hlast.2, by omega⟩

theorem Merged.tiled
    (h : Merged before start count after before' idx total after')
    (hbefore : Tiles 0 before start) (hafter : Tiles (start + count) after stop)
    (hcount : 0 < count) :
    Tiles 0 (before' ++ [⟨idx, total, .free⟩] ++ after') stop := by
  obtain ⟨hfirst, hlast, -, -, hpos⟩ := h.bounds hbefore hafter hcount
  rw [List.append_assoc]
  exact tiles_append.mpr ⟨idx, hfirst, rfl, hpos, hlast⟩

theorem Merged.kept
    (h : Merged before start count after before' idx total after')
    {tile : Tile SpanKind} :
    (tile ∈ before' → tile ∈ before) ∧ (tile ∈ after' → tile ∈ after) := by
  constructor
  · rcases h.prev with ⟨rfl, -, -⟩ | ⟨merged, rfl, -, -⟩
    · exact id
    · exact fun htile => List.mem_append_left _ htile
  · rcases h.next with ⟨rfl, -, -⟩ | ⟨merged, rfl, -, -⟩
    · exact id
    · exact fun htile => List.mem_cons_of_mem _ htile

theorem Merged.mem_used
    (h : Merged before start count after before' idx total after')
    {tile : Tile SpanKind} (hused : tile.kind = .used) :
    (tile ∈ before ↔ tile ∈ before') ∧ (tile ∈ after ↔ tile ∈ after') := by
  have hne : ∀ merged : Tile SpanKind, merged.kind = .free →
      tile ≠ merged := by
    rintro merged hfree rfl
    rw [hused] at hfree
    cases hfree
  constructor
  · rcases h.prev with ⟨rfl, -, -⟩ | ⟨merged, rfl, hfree, -⟩
    · rfl
    · simp [hne merged hfree]
  · rcases h.next with ⟨rfl, -, -⟩ | ⟨merged, rfl, hfree, -⟩
    · rfl
    · simp [hne merged hfree]

theorem Merged.usedCount_eq
    (h : Merged before start count after before' idx total after') :
    usedCount before' = usedCount before ∧
      usedCount after' = usedCount after := by
  constructor
  · rcases h.prev with ⟨rfl, -, -⟩ | ⟨merged, rfl, hfree, -⟩
    · rfl
    · simp [hfree]
  · rcases h.next with ⟨rfl, -, -⟩ | ⟨merged, rfl, hfree, -⟩
    · rfl
    · simp [hfree]

theorem Merged.free_le
    (h : Merged before start count after before' idx total after')
    (hbefore : Tiles 0 before start) (hafter : Tiles (start + count) after stop)
    {tile : Tile SpanKind} :
    (tile ∈ before → tile ∈ before' ∨ tile.count ≤ total) ∧
      (tile ∈ after → tile ∈ after' ∨ tile.count ≤ total) := by
  have hle : start + count ≤ idx + total ∧ idx ≤ start := by
    constructor
    · rcases h.next with ⟨-, heq, -⟩ | ⟨merged, rfl, -, heq⟩
      · exact heq.ge
      · have hstart := hafter.1
        simp only [Tile.stop] at heq
        omega
    · rcases h.prev with ⟨-, rfl, -⟩ | ⟨merged, rfl, -, rfl⟩
      · exact le_rfl
      · obtain ⟨mid, -, -, -, hstop⟩ := tiles_append.mp hbefore
        simp only [tiles_nil, Tile.stop] at hstop
        omega
  constructor
  · rcases h.prev with ⟨rfl, -, -⟩ | ⟨merged, rfl, -, hidx⟩
    · exact Or.inl
    · intro htile
      rw [List.mem_append, List.mem_singleton] at htile
      rcases htile with hmem | rfl
      · exact Or.inl hmem
      · obtain ⟨mid, -, -, -, hstop⟩ := tiles_append.mp hbefore
        simp only [tiles_nil, Tile.stop] at hstop
        right
        omega
  · rcases h.next with ⟨rfl, -, -⟩ | ⟨merged, rfl, -, heq⟩
    · exact Or.inl
    · intro htile
      rw [List.mem_cons] at htile
      rcases htile with rfl | hmem
      · have hstart := hafter.1
        simp only [Tile.stop] at heq
        right
        omega
      · exact Or.inl hmem

theorem tiles_getLast {l : List (Tile SpanKind)} {lo hi : ℕ}
    (h : Tiles lo l hi) {tile : Tile SpanKind} (htile : tile ∈ l)
    (hstop : tile.stop = hi) : l.getLast? = some tile := by
  cases l using List.reverseRecOn with
  | nil => cases htile
  | append_singleton earlier last _ =>
      obtain ⟨mid, hearlier, hstart, hpos, hlast⟩ := tiles_append.mp h
      rw [List.getLast?_concat, Option.some.injEq]
      rw [List.mem_append, List.mem_singleton] at htile
      rcases htile with hmem | rfl
      · have hbounds := hearlier.bounds hmem
        simp only [tiles_nil, Tile.stop] at hlast hbounds hstop
        omega
      · rfl

theorem Merged.apart
    (h : Merged before start count after before' idx total after')
    (hbefore : Tiles 0 before start) (hafter : Tiles (start + count) after stop)
    (hapart : ∀ tile, tile ∈ before ∨ tile ∈ after →
      ∀ other, other ∈ before ∨ other ∈ after →
        tile.kind = .free → other.kind = .free → tile.stop ≠ other.start)
    {tile : Tile SpanKind} (hfree : tile.kind = .free) :
    (tile ∈ before' → tile.stop ≠ idx) ∧
      (tile ∈ after' → tile.start ≠ idx + total) := by
  constructor
  · intro htile
    rcases h.prev with ⟨rfl, rfl, hlast⟩ | ⟨merged, rfl, hmerged, rfl⟩
    · exact fun hstop => hlast tile (tiles_getLast hbefore htile hstop) hfree
    · exact hapart tile (.inl (by simp [htile])) merged (.inl (by simp)) hfree
        hmerged
  · intro htile
    rcases h.next with ⟨rfl, heq, hhead⟩ | ⟨merged, rfl, hmerged, heq⟩
    · rw [heq]
      intro hstart
      cases after' with
      | nil => cases htile
      | cons first rest =>
          have hsame := hafter.eq_of_start htile List.mem_cons_self
            (hstart.trans hafter.1.symm)
          exact hhead first rfl (hsame ▸ hfree)
    · rw [heq]
      exact (hapart merged (.inr (by simp)) tile (.inr (by simp [htile]))
        hmerged hfree).symm

end Merge

/-! ## What coalescing writes -/

section Writes

variable {st : State} {segment idx count : ℕ} {slice other : SlicePtr}

theorem setFreeSpan_slices_other
    (hfits : idx + count ≤ (st.segments segment).sliceEntries)
    (hhead : other ≠ ⟨segment, idx⟩)
    (hlast : other ≠ ⟨segment, idx + count - 1⟩) :
    (st.setFreeSpan segment idx count).slices other = st.slices other := by
  have hclip : ¬ (st.segments segment).sliceEntries < idx + count - 1 := by
    omega
  unfold State.setFreeSpan
  simp only [if_neg hclip]
  split
  · rw [State.setSlice_ne _ _ hlast, State.setSlice_ne _ _ hhead]
  · rw [State.setSlice_ne _ _ hhead]

theorem segmentSpanFree_slices_other (cfg : Config) (tid : ℕ)
    (allowPurge : Bool) (hcount : 0 < count)
    (hfits : idx + count ≤ (st.segments segment).sliceEntries)
    (hhead : other ≠ ⟨segment, idx⟩)
    (hlast : other ≠ ⟨segment, idx + count - 1⟩) :
    (segmentSpanFree cfg st tid segment idx count allowPurge).slices other =
      st.slices other := by
  have hspan := setFreeSpan_slices_other hfits hhead hlast
  unfold segmentSpanFree
  rw [if_neg hcount.ne']
  dsimp only
  cases allowPurge with
  | false =>
      simp only [Bool.false_eq_true, if_false]
      split
      · exact (State.setSlice_ne _ _ hhead).trans hspan
      · exact (State.setSlice_ne _ _ hhead).trans hspan
  | true =>
      simp only [if_true]
      split
      · exact (State.setSlice_ne _ _ hhead).trans hspan
      · exact (State.setSlice_ne _ _ hhead).trans hspan

theorem coalescePrev_slices_other (tid : ℕ) (hslice : other ≠ slice)
    (hprev : other ≠ (coalescePrev st tid slice count).1) :
    (coalescePrev st tid slice count).2.2.slices other = st.slices other := by
  unfold coalescePrev at hprev ⊢
  dsimp only at hprev ⊢
  split
  · rfl
  · rename_i hidx
    rw [if_neg hidx] at hprev
    split
    · rename_i hfree
      rw [if_pos hfree] at hprev
      split
      · exact State.setSlice_ne _ _ hslice
      · rw [segmentSpanRemoveFromQueue_slices _ tid hprev]
        exact State.setSlice_ne _ _ hslice
    · rfl

end Writes

/-! ## Coalescing in an abandoned segment -/

/-- What `pa_segment_span_free` does to a span of an abandoned segment. -/
structure SpanFreedUnowned (st st' : State) (segment idx count : ℕ) :
    Prop where
  commit : OnlyCommit st st'
  others : ∀ s, s ≠ segment → st'.segments s = st.segments s
  links : st'.links = st.links
  spans : st'.spans = st.spans
  span : FreeSpan st' segment idx count
  frame : ∀ slice : SlicePtr, slice ≠ ⟨segment, idx⟩ →
    slice ≠ ⟨segment, idx + count - 1⟩ → st'.slices slice = st.slices slice

theorem segmentSpanFree_unowned (cfg : Config) {st : State} (tid : ℕ)
    {segment idx count : ℕ}
    (hthread : (st.segments segment).threadId = 0) (hcount : 0 < count)
    (hfits : idx + count ≤ (st.segments segment).sliceEntries) :
    SpanFreedUnowned st (segmentSpanFree cfg st tid segment idx count true)
      segment idx count := by
  obtain ⟨hsegments, hlinks, hspans, hos, hheadCount, hheadOffset, hlast,
    -⟩ := setFreeSpan_slices hfits
  have hresult : segmentSpanFree cfg st tid segment idx count true =
      ((st.setFreeSpan segment idx count).setCommit segment
        (segmentSchedulePurge cfg (st.segments segment)
          (st.setFreeSpan segment idx count).os segment
          (SlicePtr.mk segment idx).start
          (count * segmentSliceSize))).setBlockSize ⟨segment, idx⟩ 0 := by
    simp only [segmentSpanFree, if_neg hcount.ne', hthread, or_true, if_true]
  have hframe : ∀ slice : SlicePtr, slice ≠ ⟨segment, idx⟩ →
      slice ≠ ⟨segment, idx + count - 1⟩ →
      (segmentSpanFree cfg st tid segment idx count true).slices slice =
        st.slices slice := fun slice hhead hlast =>
    segmentSpanFree_slices_other cfg tid true hcount hfits hhead hlast
  rw [hresult] at hframe ⊢
  set st₁ := st.setFreeSpan segment idx count with hst₁
  generalize segmentSchedulePurge cfg (st.segments segment) st₁.os segment
    (SlicePtr.mk segment idx).start (count * segmentSliceSize) = result
    at hframe ⊢
  have hself : (((st₁.setCommit segment result).setBlockSize
      ⟨segment, idx⟩ 0).slices ⟨segment, idx⟩) =
        (st₁.slices ⟨segment, idx⟩).withSpan
          (st₁.slices ⟨segment, idx⟩).sliceCount
          (st₁.slices ⟨segment, idx⟩).sliceOffset 0 :=
    State.setSlice_self _ _ _
  have hother : ∀ slice : SlicePtr, slice ≠ ⟨segment, idx⟩ →
      ((st₁.setCommit segment result).setBlockSize
        ⟨segment, idx⟩ 0).slices slice = st₁.slices slice := fun slice hne =>
    State.setSlice_ne _ _ hne
  refine ⟨?_, ?_, hlinks, hspans, ⟨?_, ?_, ?_, ?_, ?_⟩, hframe⟩
  · exact (OnlyCommit.of_eq hsegments).trans
      ((onlyCommit_setCommit st₁ segment result).trans (.of_eq rfl))
  · intro s hs
    rw [← hsegments]
    exact State.setSegment_ne st₁ _ hs
  · rw [hself]
    exact hheadCount
  · rw [hself]
    exact hheadOffset
  · rw [hself]
    rfl
  · by_cases hone : 1 < count
    · rw [hother]
      · exact (hlast hone).1
      · simp only [ne_eq, SlicePtr.mk.injEq, true_and]
        omega
    · have hidx : idx + count - 1 = idx := by omega
      rw [hidx, hself]
      simp only [PageFields.withSpan_sliceOffset]
      omega
  · intro hone
    rw [hother]
    · exact (hlast hone).2
    · simp only [ne_eq, SlicePtr.mk.injEq, true_and]
      omega

section Unowned

variable {st : State} {segment start count : ℕ}
  {before after : List (Tile SpanKind)}

theorem coalesceNext_unowned (tid : ℕ)
    (hthread : (st.segments segment).threadId = 0)
    (hafter : Tiles (start + count) after (st.segments segment).sliceEntries)
    (hentry : ∀ tile ∈ after,
      tile.kind ≠ .detached ∧ SpanEntry st segment tile) :
    ∃ after' n, coalesceNext st tid ⟨segment, start⟩ count = (n, st) ∧
      MergedNext after (start + count) after' (start + n) ∧ count ≤ n := by
  cases after with
  | nil =>
      have hend : start + count = (st.segments segment).sliceEntries := hafter
      refine ⟨[], count, ?_, .inl ⟨rfl, rfl, by simp⟩, le_rfl⟩
      simp [coalesceNext, hend]
  | cons next rest =>
      obtain ⟨hdetached, hspan⟩ := hentry next (by simp)
      obtain ⟨hcount, -, hfree⟩ := hspan.head hdetached
      have hstart : next.start = start + count := hafter.1
      have hfits := hafter.2.2.le
      have hpos := hafter.2.1
      rw [hstart] at hcount hfree
      simp only [Tile.stop] at hfits
      by_cases hnextFree : next.kind = .free
      · refine ⟨rest, count + next.count, ?_,
          .inr ⟨next, rfl, hnextFree, ?_⟩, by omega⟩
        · have hlt : start + count < (st.segments segment).sliceEntries := by
            omega
          simp [coalesceNext, hfree.mpr hnextFree, hthread, hcount, hlt]
        · simp only [Tile.stop]
          omega
      · refine ⟨next :: rest, count, ?_, .inl ⟨rfl, rfl, ?_⟩, le_rfl⟩
        · simp only [coalesceNext]
          rw [if_neg fun hand => hnextFree (hfree.mp hand.2)]
        · intro tile htile
          cases htile
          exact hnextFree

theorem coalescePrev_unowned (tid n : ℕ)
    (hthread : (st.segments segment).threadId = 0)
    (hbefore : Tiles 0 before start)
    (hentry : ∀ tile ∈ before,
      tile.kind ≠ .detached ∧ SpanEntry st segment tile) :
    ∃ before' idx total st',
      coalescePrev st tid ⟨segment, start⟩ n = (⟨segment, idx⟩, total, st') ∧
      MergedPrev before start before' idx ∧ idx + total = start + n ∧
      (st'.segments = st.segments ∧ st'.links = st.links ∧
        st'.spans = st.spans) ∧
      ∀ other, other ≠ ⟨segment, start⟩ →
        st'.slices other = st.slices other := by
  cases before using List.reverseRecOn with
  | nil =>
      have hzero : start = 0 := (show 0 = start from hbefore).symm
      refine ⟨[], start, n, st, ?_, .inl ⟨rfl, rfl, by simp⟩, rfl,
        ⟨rfl, rfl, rfl⟩, fun _ _ => rfl⟩
      simp [coalescePrev, hzero]
  | append_singleton earlier prev _ =>
      obtain ⟨mid, hearlier, hstart, hpos, hstop⟩ := tiles_append.mp hbefore
      have hstop' : prev.stop = start := hstop
      obtain ⟨hdetached, hspan⟩ := hentry prev (by simp)
      obtain ⟨hcount, -, hfree⟩ := hspan.head hdetached
      have hlookup := hspan.last hdetached hpos
      rw [hstop'] at hlookup
      simp only [Tile.stop] at hstop'
      have hne : start ≠ 0 := by omega
      by_cases hprevFree : prev.kind = .free
      · refine ⟨earlier, prev.start, n + prev.count,
          st.setSlice ⟨segment, start⟩
            ((st.slices ⟨segment, start⟩).withSpan 0 (start - prev.start)
              (st.slices ⟨segment, start⟩).blockSize), ?_,
          .inr ⟨prev, rfl, hprevFree, rfl⟩, by omega, ⟨rfl, rfl, rfl⟩, ?_⟩
        · simp [coalescePrev, hne, hlookup, hfree.mpr hprevFree, hcount,
            hthread]
        · intro other hother
          exact State.setSlice_ne _ _ hother
      · refine ⟨earlier ++ [prev], start, n, st, ?_, .inl ⟨rfl, rfl, ?_⟩,
          rfl, ⟨rfl, rfl, rfl⟩, fun _ _ => rfl⟩
        · simp only [coalescePrev, hne, if_false, hlookup]
          rw [if_neg fun hzero => hprevFree (hfree.mp hzero)]
        · intro tile htile
          rw [List.getLast?_concat, Option.some.injEq] at htile
          exact htile ▸ hprevFree

structure MergedUnowned (st st' : State) (segment idx total : ℕ) :
    Prop where
  commit : OnlyCommit st st'
  others : ∀ s, s ≠ segment → st'.segments s = st.segments s
  links : st'.links = st.links
  spans : st'.spans = st.spans
  span : FreeSpan st' segment idx total
  frame : ∀ slice : SlicePtr, (slice.segment = segment →
      slice.idx < idx ∨ idx + total ≤ slice.idx) →
    st'.slices slice = st.slices slice

/-- Coalescing in an abandoned segment touches no queue and writes only inside
the merged span. -/
theorem coalesce_unowned (cfg : Config) (tid : ℕ)
    (hkind : (st.segments segment).kind = .normal)
    (hthread : (st.segments segment).threadId = 0)
    (hbefore : Tiles 0 before start)
    (hafter : Tiles (start + count) after (st.segments segment).sliceEntries)
    (hcount : 0 < count)
    (hhead : (st.slices ⟨segment, start⟩).sliceCount = count)
    (hentry : ∀ tile, tile ∈ before ∨ tile ∈ after →
      tile.kind ≠ .detached ∧ SpanEntry st segment tile) :
    ∃ before' idx total after' st',
      segmentSpanFreeCoalesce cfg st tid ⟨segment, start⟩ =
        (⟨segment, idx⟩, st') ∧
      Merged before start count after before' idx total after' ∧
      MergedUnowned st st' segment idx total := by
  have hnormal : (st.segments segment).kind ≠ .huge := by
    rw [hkind]
    decide
  obtain ⟨after', n, hnextEq, hnext, hle⟩ := coalesceNext_unowned tid hthread
    hafter fun tile htile => hentry tile (.inr htile)
  obtain ⟨before', idx, total, st₁, hprevEq, hprev, hsum,
    ⟨hsegments, hlinks, hspans⟩, hframe⟩ := coalescePrev_unowned tid n hthread
    hbefore fun tile htile => hentry tile (.inl htile)
  have hmerged : Merged before start count after before' idx total after' :=
    ⟨hprev, by rw [hsum]; exact hnext⟩
  obtain ⟨-, hlast, hidx, hend, hpos⟩ := hmerged.bounds hbefore hafter hcount
  have hthread₁ : (st₁.segments segment).threadId = 0 := by
    rw [hsegments]
    exact hthread
  have hfreed := segmentSpanFree_unowned cfg tid hthread₁ hpos
    (show idx + total ≤ (st₁.segments segment).sliceEntries by
      rw [hsegments]
      exact hlast.le)
  refine ⟨before', idx, total, after', _, ?_, hmerged, ?_, ?_, ?_, ?_,
    hfreed.span, ?_⟩
  · simp only [segmentSpanFreeCoalesce, if_neg hnormal, hhead, hnextEq,
      hprevEq]
  · exact (OnlyCommit.of_eq hsegments).trans hfreed.commit
  · intro s hs
    rw [hfreed.others s hs, hsegments]
  · exact hfreed.links.trans hlinks
  · exact hfreed.spans.trans hspans
  · intro slice hout
    have hskip : ∀ i, idx ≤ i → i < idx + total → slice ≠ ⟨segment, i⟩ := by
      rintro i hlo hhi rfl
      have hcase := hout rfl
      simp only at hcase
      omega
    rw [hfreed.frame slice (hskip idx le_rfl (by omega))
      (hskip (idx + total - 1) (by omega) (by omega))]
    exact hframe slice (hskip start hidx (by omega))

end Unowned

/-! ## Pages of an abandoned segment -/

namespace AbandonedSegment

variable {st st' : State} {segment : ℕ} {tiles done ahead : List (Tile SpanKind)}
  {tile : Tile SpanKind}

theorem head (h : AbandonedSegment st segment tiles) (htile : tile ∈ tiles) :
    (st.slices ⟨segment, tile.start⟩).sliceCount = tile.count ∧
      (st.slices ⟨segment, tile.start⟩).sliceOffset = 0 ∧
      ((st.slices ⟨segment, tile.start⟩).blockSize = 0 ↔
        tile.kind = .free) :=
  (h.entry tile htile).head (h.kinds tile htile)

theorem used_iff (h : AbandonedSegment st segment tiles)
    (htile : tile ∈ tiles) :
    tile.kind = .used ↔ 0 < (st.slices ⟨segment, tile.start⟩).blockSize := by
  have hfree := (h.head htile).2.2
  have hkind := h.kinds tile htile
  rw [Nat.pos_iff_ne_zero, ne_eq, hfree]
  cases hcase : tile.kind with
  | used => simp
  | free => simp
  | detached => exact absurd hcase hkind

theorem setPage (h : AbandonedSegment st segment tiles) {slice : SlicePtr}
    {page : PageFields} (hsame : SameSpan (st.slices slice) page) :
    AbandonedSegment (st.setSlice slice page) segment tiles := by
  have hslices : ∀ other,
      SameSpan (st.slices other) ((st.setSlice slice page).slices other) := by
    intro other
    by_cases hother : other = slice
    · subst hother
      rw [State.setSlice_self]
      exact hsame
    · exact sameSpan_setSlice hother
  have hentry : ∀ tile ∈ tiles,
      SpanEntry (st.setSlice slice page) segment tile := fun tile htile =>
    (h.entry tile htile).congr (h.tiled.bounds htile).2.1 fun _ _ _ => hslices _
  refine ⟨h.kind, h.threadId, h.tiled, h.kinds, hentry, h.info, h.apart, ?_,
    h.used, h.abandoned⟩
  intro tile htile hfree
  exact ⟨(hentry tile htile).free hfree, (h.parked tile htile hfree).next,
    (h.parked tile htile hfree).prev⟩

structure PageCleared (st st' : State) (segment idx total : ℕ) : Prop where
  frame : ∀ slice : SlicePtr, (slice.segment = segment →
      slice.idx < idx ∨ idx + total ≤ slice.idx) →
    st'.slices slice = st.slices slice ∧
      st'.links.next slice = st.links.next slice ∧
      st'.links.prev slice = st.links.prev slice
  others : ∀ s, s ≠ segment → st'.segments s = st.segments s
  spans : st'.spans = st.spans
  sliceEntries : (st'.segments segment).sliceEntries =
    (st.segments segment).sliceEntries
  dontFree : (st'.segments segment).dontFree =
    (st.segments segment).dontFree

theorem pageClear (cfg : Config) (tid : ℕ)
    (h : AbandonedSegment st segment (done ++ tile :: ahead))
    (hused : tile.kind = .used) (hfirst : tile.start ≠ 0) :
    ∃ before' idx total after' st',
      segmentPageClear cfg (st.unabandonPage segment) tid
        ⟨segment, tile.start⟩ = (⟨segment, idx⟩, st') ∧
      Merged done tile.start tile.count ahead before' idx total after' ∧
      AbandonedSegment st' segment
        (before' ++ [⟨idx, total, .free⟩] ++ after') ∧
      PageCleared st st' segment idx total := by
  have htile : tile ∈ done ++ tile :: ahead := by simp
  obtain ⟨hdone, hcount, hahead⟩ := h.tiled.split
  have hside : ∀ other, other ∈ done ∨ other ∈ ahead →
      other ∈ done ++ tile :: ahead := by
    intro other hother
    simp only [List.mem_append, List.mem_cons]
    tauto
  have hout : ∀ other, other ∈ done ∨ other ∈ ahead →
      other.stop ≤ tile.start ∨ tile.stop ≤ other.start := by
    intro other hother
    have htiled := h.tiled
    rw [← List.singleton_append, ← List.append_assoc] at htiled
    exact htiled.outside hother (List.mem_singleton_self tile)
  set slice : SlicePtr := ⟨segment, tile.start⟩ with hslice
  set st₁ := (st.unabandonPage segment).writePage slice
    ((st.unabandonPage segment).slices slice).clear none none st.os with hst₁
  have hother₁ : ∀ other, other ≠ slice →
      st₁.slices other = st.slices other := fun other hne =>
    State.setSlice_ne _ _ hne
  have hself₁ : st₁.slices slice = (st.slices slice).clear :=
    State.setSlice_self _ _ _
  have hsegment₁ : st₁.segments segment =
      { st.segments segment with
        abandoned := (st.segments segment).abandoned - 1 } :=
    State.setSegment_self _ _ _
  have hentry : ∀ other, other ∈ done ∨ other ∈ ahead →
      other.kind ≠ .detached ∧ SpanEntry st₁ segment other := by
    intro other hother
    have hmem := hside other hother
    refine ⟨h.kinds other hmem, ?_⟩
    apply (h.entry other hmem).congr (h.tiled.bounds hmem).2.1
    intro i hlo hhi
    rw [hother₁]
    · exact .refl _
    · have hapart := hout other hother
      have hpos := hcount
      intro heq
      have hidx := congrArg SlicePtr.idx heq
      simp only [hslice, Tile.stop] at hidx hhi hapart
      omega
  obtain ⟨before', idx, total, after', st₂, hcoalesce, hmerged, hrest⟩ :=
    coalesce_unowned cfg tid
      (show (st₁.segments segment).kind = .normal by
        rw [hsegment₁]
        exact h.kind)
      (show (st₁.segments segment).threadId = 0 by
        rw [hsegment₁]
        exact h.threadId)
      hdone
      (show Tiles (tile.start + tile.count) ahead
          (st₁.segments segment).sliceEntries by
        rw [hsegment₁]
        exact hahead)
      hcount
      (show (st₁.slices ⟨segment, tile.start⟩).sliceCount = tile.count by
        rw [← hslice, hself₁]
        exact (h.head htile).1)
      hentry
  obtain ⟨hfirst', hlast', hidx, hend, htotal⟩ :=
    hmerged.bounds hdone hahead hcount
  set st' := st₂.setSegment segment { st₂.segments segment with
    used := (st₂.segments segment).used - 1
    freeIsZero := false } with hst'
  have hresult : segmentPageClear cfg (st.unabandonPage segment) tid slice =
      (⟨segment, idx⟩, st') := by
    have hclear : segmentPageClear cfg (st.unabandonPage segment) tid slice =
        ((segmentSpanFreeCoalesce cfg st₁ tid slice).1,
          (segmentSpanFreeCoalesce cfg st₁ tid slice).2.setSegment segment
            { (segmentSpanFreeCoalesce cfg st₁ tid slice).2.segments
                segment with
              used := ((segmentSpanFreeCoalesce cfg st₁ tid slice).2.segments
                segment).used - 1
              freeIsZero := false }) := rfl
    rw [hclear, hcoalesce]
  obtain ⟨commit, hcommit⟩ := hrest.commit segment
  have hself' : st'.segments segment =
      { (st.segments segment).withCommit commit with
        abandoned := (st.segments segment).abandoned - 1
        used := (st.segments segment).used - 1
        freeIsZero := false } := by
    rw [hst', State.setSegment_self, hcommit, hsegment₁]
    rfl
  have hkept : ∀ other, other ∈ before' ∨ other ∈ after' →
      other ∈ done ∨ other ∈ ahead := fun other hother =>
    hother.imp hmerged.kept.1 hmerged.kept.2
  have hbeyond : ∀ other, other ∈ before' ∨ other ∈ after' →
      0 < other.count ∧ (other.stop ≤ idx ∨ idx + total ≤ other.start) := by
    rintro other (hb | ha)
    · exact ⟨(hfirst'.bounds hb).2.1, .inl (hfirst'.bounds hb).2.2⟩
    · exact ⟨(hlast'.bounds ha).2.1, .inr (hlast'.bounds ha).1⟩
  have hnew : ∀ other, other ∈ before' ++ [⟨idx, total, .free⟩] ++ after' →
      (other ∈ before' ∨ other ∈ after') ∨ other = ⟨idx, total, .free⟩ := by
    intro other hother
    simp only [List.mem_append, List.mem_singleton] at hother
    tauto
  have hlinks : ∀ other, other ≠ slice →
      st'.links.next other = st.links.next other ∧
        st'.links.prev other = st.links.prev other := by
    intro other hne
    rw [show st'.links = st₁.links from hrest.links]
    simp [hst₁, State.writePage, Links.next_setNext, Links.prev_setPrev,
      hne.symm, State.unabandonPage, State.setSegment]
  have hnone : st'.links.next slice = none ∧ st'.links.prev slice = none := by
    rw [show st'.links = st₁.links from hrest.links]
    simp [hst₁, State.writePage, Links.next_setNext, Links.prev_setPrev]
  have hentry' : ∀ other ∈ before' ++ [⟨idx, total, .free⟩] ++ after',
      SpanEntry st' segment other := by
    intro other hother
    rcases hnew other hother with hside' | rfl
    · obtain ⟨hpos, hbounds⟩ := hbeyond other hside'
      apply (hentry other (hkept other hside')).2.congr hpos
      intro i hlo hhi
      rw [show st'.slices _ = _ from hrest.frame ⟨segment, i⟩ fun _ => by
        simp only [Tile.stop] at hhi hbounds
        simp only
        omega]
      exact .refl _
    · have hspan : SpanEntry st₂ segment ⟨idx, total, .free⟩ := hrest.span
      exact hspan.congr htotal fun _ _ _ => .refl _
  refine ⟨before', idx, total, after', st', hresult, hmerged, ?_, ?_⟩
  · refine ⟨?_, ?_, ?_, ?_, hentry', ?_, ?_, ?_, ?_, ?_⟩
    · rw [hself']
      exact h.kind
    · rw [hself']
      exact h.threadId
    · rw [hself']
      exact hmerged.tiled hdone hahead hcount
    · intro other hother
      rcases hnew other hother with hside' | rfl
      · exact h.kinds other (hside other (hkept other hside'))
      · simp
    · obtain ⟨info, hinfo, hzero, hkind⟩ := h.info
      refine ⟨info, ?_, hzero, hkind⟩
      simp only [List.mem_append, List.mem_cons] at hinfo ⊢
      obtain ⟨hmemDone, hmemAhead⟩ := hmerged.mem_used hkind
      rcases hinfo with hd | rfl | ha
      · exact .inl (.inl (hmemDone.mp hd))
      · exact absurd hzero hfirst
      · exact .inr (hmemAhead.mp ha)
    · have hold : ∀ t, t ∈ done ∨ t ∈ ahead → ∀ o, o ∈ done ∨ o ∈ ahead →
          t.kind = .free → o.kind = .free → t.stop ≠ o.start :=
        fun t ht o ho => h.apart t (hside t ht) o (hside o ho)
      intro t ht o ho htfree hofree
      have htouch := hmerged.apart hdone hahead hold htfree
      have hotouch := hmerged.apart hdone hahead hold hofree
      rcases hnew t ht with htside | rfl
      · rcases hnew o ho with hoside | rfl
        · exact hold t (hkept t htside) o (hkept o hoside) htfree hofree
        · rcases htside with hb | ha
          · exact htouch.1 hb
          · have hbounds := hlast'.bounds ha
            simp only [Tile.stop] at hbounds ⊢
            omega
      · rcases hnew o ho with hoside | rfl
        · rcases hoside with hb | ha
          · have hbounds := hfirst'.bounds hb
            simp only [Tile.stop] at hbounds ⊢
            omega
          · exact (hotouch.2 ha).symm
        · simp only [Tile.stop]
          omega
    · intro other hother hfree
      suffices hunlinked : st'.links.next ⟨segment, other.start⟩ = none ∧
          st'.links.prev ⟨segment, other.start⟩ = none from
        ⟨(hentry' other hother).free hfree, hunlinked.1, hunlinked.2⟩
      rcases hnew other hother with hside' | rfl
      · have hold := h.parked other (hside other (hkept other hside')) hfree
        obtain ⟨hpos, hbounds⟩ := hbeyond other hside'
        obtain ⟨hnext, hprev⟩ := hlinks ⟨segment, other.start⟩ (by
          simp only [hslice, ne_eq, SlicePtr.mk.injEq, true_and]
          simp only [Tile.stop] at hbounds
          omega)
        exact ⟨hnext.trans hold.next, hprev.trans hold.prev⟩
      · rcases hmerged.prev with ⟨-, rfl, -⟩ | ⟨merged, hdoneEq, hmfree, rfl⟩
        · exact hnone
        · have hmem : merged ∈ done := by
            rw [hdoneEq]
            simp
          have hold := h.parked merged (hside merged (.inl hmem)) hmfree
          have hbounds := hdone.bounds hmem
          obtain ⟨hnext, hprev⟩ := hlinks ⟨segment, merged.start⟩ (by
            simp only [hslice, ne_eq, SlicePtr.mk.injEq, true_and]
            simp only [Tile.stop] at hbounds
            omega)
          exact ⟨hnext.trans hold.next, hprev.trans hold.prev⟩
    · have hcounts := hmerged.usedCount_eq
      have hold := h.used
      obtain ⟨info, hinfo, hzero, hkind⟩ := h.info
      have hpos : 0 < usedCount done + usedCount ahead := by
        simp only [List.mem_append, List.mem_cons] at hinfo
        rcases hinfo with hd | rfl | ha
        · exact Nat.add_pos_left (usedCount_pos hd hkind) _
        · exact absurd hzero hfirst
        · exact Nat.add_pos_right _ (usedCount_pos ha hkind)
      rw [hself']
      simp only [usedCount_append, usedCount_cons, usedCount_nil, hused,
        if_true, reduceCtorEq, if_false] at hold ⊢
      omega
    · rw [hself']
      simp only [h.abandoned]
  · refine ⟨?_, ?_, hrest.spans, by rw [hself']; rfl, by rw [hself']; rfl⟩
    · intro other hout'
      have hne : other ≠ slice := by
        rintro rfl
        have hcase := hout' rfl
        simp only [hslice] at hcase
        omega
      exact ⟨(hrest.frame other hout').trans (hother₁ other hne),
        hlinks other hne⟩
    · intro s hs
      rw [hst', State.setSegment_ne _ _ hs, hrest.others s hs]
      exact State.setSegment_ne _ _ hs

end AbandonedSegment

/-! ## The loop -/

theorem pageThreadFreeCollect_span (page : PageFields) :
    SameSpan page (pageThreadFreeCollect page) := by
  unfold pageThreadFreeCollect
  cases page.xthreadFree.block with
  | none => exact ⟨rfl, rfl, rfl⟩
  | some head =>
      dsimp only
      split
      · exact ⟨rfl, rfl, rfl⟩
      · exact ⟨rfl, rfl, rfl⟩

theorem pageFreeCollect_span {page page' : PageFields} {force : Bool}
    (h : pageFreeCollect page force = some page') : SameSpan page page' := by
  have hfirst : ∃ p : PageFields,
      (if force ∨ page.xthreadFree.block ≠ none then
        pageThreadFreeCollect page else page) = p ∧ SameSpan page p := by
    split
    · exact ⟨_, rfl, pageThreadFreeCollect_span page⟩
    · exact ⟨_, rfl, .refl page⟩
  obtain ⟨p, hp, hspan⟩ := hfirst
  simp only [pageFreeCollect, hp] at h
  split at h
  · cases h
    exact hspan
  · split at h
    · cases h
      exact hspan.trans ⟨rfl, rfl, rfl⟩
    · split at h
      · split at h
        · cases h
        · cases h
          exact hspan.trans ⟨rfl, rfl, rfl⟩
      · cases h
        exact hspan

/-- The pages of `l` hold the blocks of `live`; those that other threads have
freed are not collected yet. -/
def HoldsPages (st : State) (segment : ℕ) (live : ℕ → List Addr)
    (l : List (Tile SpanKind)) : Prop :=
  ∀ tile ∈ l, tile.kind = .used → tile.start ≠ 0 →
    ∃ free localFree thread, PagePartition (st.slices ⟨segment, tile.start⟩)
      (live tile.start) free localFree thread

/-- A used tile whose page still has a live block, or the info span. -/
def KeptTile (live : ℕ → List Addr) (tile : Tile SpanKind) : Prop :=
  tile.kind = .used ∧ (tile.start = 0 ∨ live tile.start ≠ [])

/-- A span that can serve: it is free and has enough slices, or it is a page
of the block size with a block that can be had. -/
def Serves (st : State) (segment slicesNeeded blockSize : ℕ)
    (tile : Tile SpanKind) : Prop :=
  tile.kind = .free ∧ slicesNeeded ≤ tile.count ∨
    tile.kind = .used ∧ tile.start ≠ 0 ∧
      (st.slices ⟨segment, tile.start⟩).blockSize = blockSize ∧
      pageHasAnyAvailable (st.slices ⟨segment, tile.start⟩) = true

theorem Serves.congr {st st' : State}
    {segment slicesNeeded blockSize : ℕ} {tile : Tile SpanKind}
    (h : Serves st segment slicesNeeded blockSize tile)
    (hsame : tile.kind = .used → st'.slices ⟨segment, tile.start⟩ =
      st.slices ⟨segment, tile.start⟩) :
    Serves st' segment slicesNeeded blockSize tile := by
  rcases h with hfree | ⟨hused, hrest⟩
  · exact .inl hfree
  · refine .inr ⟨hused, ?_⟩
    rw [hsame hused]
    exact hrest

structure CheckingFree (st₀ : State) (segment : ℕ)
    (tiles : List (Tile SpanKind)) (live : ℕ → List Addr)
    (slicesNeeded blockSize idx : ℕ) (st : State) (hasPage : Bool)
    (old done ahead : List (Tile SpanKind)) : Prop where
  pos : 0 < idx
  split : tiles = old ++ ahead
  tiled : AbandonedSegment st segment (done ++ ahead)
  entries : (st.segments segment).sliceEntries =
    (st₀.segments segment).sliceEntries
  dontFree : (st.segments segment).dontFree =
    (st₀.segments segment).dontFree
  before : Tiles 0 done idx
  after : Tiles idx ahead (st₀.segments segment).sliceEntries
  kept : ∀ tile : Tile SpanKind, tile.kind = .used →
    (tile ∈ done ↔ tile ∈ old ∧ KeptTile live tile)
  unvisited : ∀ tile ∈ ahead, tile.kind = .used →
    st.slices ⟨segment, tile.start⟩ = st₀.slices ⟨segment, tile.start⟩
  visited : ∀ tile ∈ done, tile.kind = .used → tile.start ≠ 0 →
    ∃ free localFree, PagePartition (st.slices ⟨segment, tile.start⟩)
      (live tile.start) free localFree []
  hasPage : hasPage = true ↔
    ∃ tile ∈ done, Serves st segment slicesNeeded blockSize tile
  frame : ∀ slice : SlicePtr, slice.segment ≠ segment →
    st.slices slice = st₀.slices slice ∧
      st.links.next slice = st₀.links.next slice ∧
      st.links.prev slice = st₀.links.prev slice
  others : ∀ s, s ≠ segment → st.segments s = st₀.segments s
  spans : st.spans = st₀.spans

namespace CheckingFree

variable {st₀ st : State} {segment : ℕ}
  {tiles : List (Tile SpanKind)} {live : ℕ → List Addr}
  {slicesNeeded blockSize idx : ℕ} {hasPage : Bool}
  {old done ahead : List (Tile SpanKind)} {tile : Tile SpanKind}

theorem skipFree (h : CheckingFree st₀ segment tiles live slicesNeeded
      blockSize idx st hasPage old done (tile :: ahead))
    (hfree : tile.kind = .free) :
    CheckingFree st₀ segment tiles live slicesNeeded blockSize tile.stop st
      (hasPage || decide (slicesNeeded ≤ tile.count)) (old ++ [tile])
      (done ++ [tile]) ahead := by
  have hmem : ∀ other : Tile SpanKind, other.kind = .used →
      other ≠ tile := by
    rintro other hused rfl
    rw [hfree] at hused
    cases hused
  have hstart : tile.start = idx := h.after.1
  refine
    { pos := by
        have hpos := h.pos
        simp only [Tile.stop]
        omega
      split := by rw [h.split]; simp
      tiled := by simpa using h.tiled
      entries := h.entries
      dontFree := h.dontFree
      before := tiles_append.mpr ⟨idx, h.before, hstart, h.after.2.1, rfl⟩
      after := h.after.2.2
      kept := fun other hused => by
        simpa [hmem other hused] using h.kept other hused
      unvisited := fun other hother => h.unvisited other (by simp [hother])
      visited := ?_
      hasPage := ?_
      frame := h.frame
      others := h.others
      spans := h.spans }
  · intro other hother hused
    rw [List.mem_append, List.mem_singleton] at hother
    exact h.visited other (hother.resolve_right (hmem other hused)) hused
  · rw [Bool.or_eq_true, h.hasPage, decide_eq_true_eq]
    simp only [List.mem_append, List.mem_singleton, or_and_right, exists_or,
      exists_eq_left]
    simp [Serves, hfree]

theorem keepPage (h : CheckingFree st₀ segment tiles live slicesNeeded
      blockSize idx st hasPage old done (tile :: ahead))
    (hused : tile.kind = .used) (hlive : live tile.start ≠ [])
    {page : PageFields}
    (hsame : SameSpan (st.slices ⟨segment, tile.start⟩) page)
    {free localFree : List Addr}
    (hpage : PagePartition page (live tile.start) free localFree []) :
    CheckingFree st₀ segment tiles live slicesNeeded blockSize tile.stop
      (st.setSlice ⟨segment, tile.start⟩ page)
      (hasPage || (page.blockSize == blockSize && pageHasAnyAvailable page))
      (old ++ [tile]) (done ++ [tile]) ahead := by
  have hstart : tile.start = idx := h.after.1
  have hpos := h.pos
  have hself : (st.setSlice ⟨segment, tile.start⟩ page).slices
      ⟨segment, tile.start⟩ = page := State.setSlice_self _ _ _
  have htiled : AbandonedSegment (st.setSlice ⟨segment, tile.start⟩ page)
      segment (done ++ tile :: ahead) := h.tiled.setPage hsame
  have hne : ∀ other ∈ done ++ ahead,
      (⟨segment, other.start⟩ : SlicePtr) ≠ ⟨segment, tile.start⟩ := by
    intro other hother heq
    have hbounds : other.stop ≤ tile.start ∨ tile.stop ≤ other.start := by
      have hall := h.tiled.tiled
      rw [← List.singleton_append, ← List.append_assoc] at hall
      exact hall.outside (List.mem_append.mp hother)
        (List.mem_singleton_self tile)
    have hmem : tile ∈ done ++ tile :: ahead := by simp
    have hmem' : other ∈ done ++ tile :: ahead := by
      rw [List.mem_append] at hother ⊢
      exact hother.imp_right (List.mem_cons_of_mem _)
    have hcount := (h.tiled.tiled.bounds hmem).2.1
    have hcount' := (h.tiled.tiled.bounds hmem').2.1
    injection heq with _ hsameStart
    simp only [Tile.stop] at hbounds
    omega
  have hslices : ∀ other ∈ done ++ ahead,
      (st.setSlice ⟨segment, tile.start⟩ page).slices
        ⟨segment, other.start⟩ = st.slices ⟨segment, other.start⟩ :=
    fun other hother => State.setSlice_ne _ _ (hne other hother)
  refine
    { pos := by
        simp only [Tile.stop]
        omega
      split := by rw [h.split]; simp
      tiled := by simpa using htiled
      entries := h.entries
      dontFree := h.dontFree
      before := tiles_append.mpr ⟨idx, h.before, hstart, h.after.2.1, rfl⟩
      after := h.after.2.2
      kept := ?_
      unvisited := ?_
      visited := ?_
      hasPage := ?_
      frame := ?_
      others := h.others
      spans := h.spans }
  · intro other hotherUsed
    simp only [List.mem_append, List.mem_singleton, h.kept other hotherUsed]
    constructor
    · rintro (⟨hold, hkept⟩ | rfl)
      · exact ⟨.inl hold, hkept⟩
      · exact ⟨.inr rfl, hused, .inr hlive⟩
    · rintro ⟨hold | rfl, hkept⟩
      · exact .inl ⟨hold, hkept⟩
      · exact .inr rfl
  · intro other hother hotherUsed
    rw [hslices other (List.mem_append_right _ hother)]
    exact h.unvisited other (List.mem_cons_of_mem _ hother) hotherUsed
  · intro other hother hotherUsed hfirst
    rw [List.mem_append, List.mem_singleton] at hother
    rcases hother with hdone | rfl
    · rw [hslices other (List.mem_append_left _ hdone)]
      exact h.visited other hdone hotherUsed hfirst
    · rw [hself]
      exact ⟨free, localFree, hpage⟩
  · have hdone : ∀ other ∈ done,
        Serves (st.setSlice ⟨segment, tile.start⟩ page) segment slicesNeeded
          blockSize other ↔
        Serves st segment slicesNeeded blockSize other := by
      intro other hother
      have heq := hslices other (List.mem_append_left _ hother)
      exact ⟨fun hserves => hserves.congr fun _ => heq.symm,
        fun hserves => hserves.congr fun _ => heq⟩
    have htile : Serves (st.setSlice ⟨segment, tile.start⟩ page) segment
        slicesNeeded blockSize tile ↔
        page.blockSize = blockSize ∧ pageHasAnyAvailable page = true := by
      have hfirst : tile.start ≠ 0 := by omega
      simp [Serves, hused, hfirst]
    simp only [Bool.or_eq_true, h.hasPage, Bool.and_eq_true, beq_iff_eq,
      List.mem_append, List.mem_singleton, or_and_right, exists_or,
      exists_eq_left, htile]
    constructor
    · rintro (⟨other, hother, hserves⟩ | hpage)
      · exact .inl ⟨other, hother, (hdone other hother).mpr hserves⟩
      · exact .inr hpage
    · rintro (⟨other, hother, hserves⟩ | hpage)
      · exact .inl ⟨other, hother, (hdone other hother).mp hserves⟩
      · exact .inr hpage
  · intro slice hslice
    have hother : slice ≠ ⟨segment, tile.start⟩ := by
      rintro rfl
      exact hslice rfl
    rw [State.setSlice_ne _ _ hother]
    exact h.frame slice hslice

theorem clearPage (cfg : Config) (tid : ℕ)
    (h : CheckingFree st₀ segment tiles live slicesNeeded
      blockSize idx st hasPage old done (tile :: ahead))
    (hused : tile.kind = .used) (hlive : live tile.start = [])
    {page : PageFields}
    (hsame : SameSpan (st.slices ⟨segment, tile.start⟩) page) :
    ∃ first total st' old' done' ahead',
      segmentPageClear cfg ((st.setSlice ⟨segment, tile.start⟩
        page).unabandonPage segment) tid ⟨segment, tile.start⟩ =
          (⟨segment, first⟩, st') ∧
      (st'.slices ⟨segment, first⟩).sliceCount = total ∧
      idx < first + total ∧
      CheckingFree st₀ segment tiles live slicesNeeded blockSize
        (first + total) st' (hasPage || decide (slicesNeeded ≤ total))
        old' done' ahead' := by
  have hstart : tile.start = idx := h.after.1
  have hpos := h.pos
  have htiled := h.tiled.setPage hsame
  obtain ⟨before', first, total, after', st', hclear, hmerged, hnew,
    hrest⟩ := htiled.pageClear cfg tid hused (by omega)
  have hbefore : Tiles 0 done tile.start := hstart ▸ h.before
  have hafter : Tiles (tile.start + tile.count) ahead
      (st₀.segments segment).sliceEntries := h.after.2.2
  obtain ⟨hfirst, hlast, hle, hge, htotal⟩ :=
    hmerged.bounds hbefore hafter h.after.2.1
  have hfreed : (⟨first, total, .free⟩ : Tile SpanKind) ∈
      before' ++ [⟨first, total, .free⟩] ++ after' := by
    simp
  have hcount : (st'.slices ⟨segment, first⟩).sliceCount = total :=
    (hnew.head hfreed).1
  -- the used spans at both sides keep their pages
  have hslices : ∀ other : Tile SpanKind,
      other ∈ before' ∨ other ∈ after' →
      st'.slices ⟨segment, other.start⟩ = st.slices ⟨segment, other.start⟩ := by
    intro other hother
    have hout : other.start < first ∨ first + total ≤ other.start := by
      rcases hother with hleft | hright
      · have hbounds := hfirst.bounds hleft
        simp only [Tile.stop] at hbounds
        omega
      · have hbounds := hlast.bounds hright
        omega
    rw [(hrest.frame ⟨segment, other.start⟩ fun _ => hout).1]
    apply State.setSlice_ne
    intro heq
    injection heq with _ hidx
    have hcount := h.after.2.1
    omega
  -- the tiles that the loop has passed
  obtain ⟨passed, hpassed, hpassedFree⟩ : ∃ passed : List (Tile SpanKind),
      ahead = passed ++ after' ∧ ∀ other ∈ passed, other.kind = .free := by
    rcases hmerged.next with ⟨rfl, -, -⟩ | ⟨merged, rfl, hfree, -⟩
    · exact ⟨[], rfl, by simp⟩
    · exact ⟨[merged], rfl, by simpa using hfree⟩
  have hdone : ∀ other : Tile SpanKind, other.kind = .used →
      (other ∈ before' ++ [⟨first, total, .free⟩] ↔ other ∈ done) := by
    intro other hotherUsed
    have hne : other ≠ ⟨first, total, .free⟩ := by
      rintro rfl
      cases hotherUsed
    simp [hne, (hmerged.mem_used hotherUsed).1]
  refine ⟨first, total, st', old ++ tile :: passed,
    before' ++ [⟨first, total, .free⟩], after', hclear, hcount, by
      have hcount := h.after.2.1
      omega, ?_⟩
  refine
    { pos := by omega
      split := by rw [h.split, hpassed]; simp
      tiled := by simpa using hnew
      entries := hrest.sliceEntries.trans h.entries
      dontFree := hrest.dontFree.trans h.dontFree
      before := tiles_append.mpr ⟨first, hfirst, rfl, htotal, rfl⟩
      after := hlast
      kept := ?_
      unvisited := ?_
      visited := ?_
      hasPage := ?_
      frame := ?_
      others := ?_
      spans := hrest.spans.trans h.spans }
  · intro other hotherUsed
    rw [hdone other hotherUsed, h.kept other hotherUsed]
    constructor
    · rintro ⟨hold, hkept⟩
      exact ⟨by simp [hold], hkept⟩
    · rintro ⟨hold, hkept⟩
      refine ⟨?_, hkept⟩
      rw [List.mem_append, List.mem_cons] at hold
      rcases hold with hold | rfl | hgone
      · exact hold
      · rcases hkept.2 with hzero | hmore
        · omega
        · exact absurd hlive hmore
      · have hfree := hpassedFree other hgone
        rw [hotherUsed] at hfree
        cases hfree
  · intro other hother hotherUsed
    rw [hslices other (.inr hother)]
    apply h.unvisited other _ hotherUsed
    rw [hpassed]
    simp [hother]
  · intro other hother hotherUsed hzero
    have hold := (hdone other hotherUsed).mp hother
    rw [hslices other (.inl ((hmerged.mem_used hotherUsed).1.mp hold))]
    exact h.visited other hold hotherUsed hzero
  · rw [Bool.or_eq_true, h.hasPage, decide_eq_true_eq]
    constructor
    · rintro (⟨other, hother, hserves⟩ | henough)
      · rcases (hmerged.free_le hbefore hafter).1 hother with hkept | hmore
        · exact ⟨other, List.mem_append_left _ hkept,
            hserves.congr fun _ => hslices other (.inl hkept)⟩
        · rcases hserves with ⟨-, henough⟩ | ⟨hotherUsed, hserves⟩
          · exact ⟨_, List.mem_append_right _ (List.mem_singleton_self _),
              .inl ⟨rfl, henough.trans hmore⟩⟩
          · have hkept := (hmerged.mem_used hotherUsed).1.mp hother
            exact ⟨other, List.mem_append_left _ hkept,
              Serves.congr (.inr ⟨hotherUsed, hserves⟩) fun _ =>
                hslices other (.inl hkept)⟩
      · exact ⟨_, List.mem_append_right _ (List.mem_singleton_self _),
          .inl ⟨rfl, henough⟩⟩
    · rintro ⟨other, hother, hserves⟩
      rw [List.mem_append, List.mem_singleton] at hother
      rcases hother with hkept | rfl
      · exact .inl ⟨other, hmerged.kept.1 hkept,
          hserves.congr fun _ => (hslices other (.inl hkept)).symm⟩
      · rcases hserves with ⟨-, henough⟩ | ⟨hotherUsed, -⟩
        · exact .inr henough
        · cases hotherUsed
  · intro slice hslice
    obtain ⟨hslicesEq, hnext, hprev⟩ := hrest.frame slice fun heq =>
      absurd heq hslice
    have hother : slice ≠ ⟨segment, tile.start⟩ := by
      rintro rfl
      exact hslice rfl
    obtain ⟨hframe, hframeNext, hframePrev⟩ := h.frame slice hslice
    refine ⟨?_, hnext.trans hframeNext, hprev.trans hframePrev⟩
    rw [hslicesEq, State.setSlice_ne _ _ hother]
    exact hframe
  · intro s hs
    rw [hrest.others s hs]
    exact h.others s hs

theorem step (cfg : Config) (tid : ℕ)
    (h : CheckingFree st₀ segment tiles live slicesNeeded blockSize
      idx st hasPage old done ahead)
    (hholds : HoldsPages st₀ segment live tiles)
    (hlt : idx < (st₀.segments segment).sliceEntries) :
    ∃ idx' st' hasPage' old' done' ahead',
      checkFreeSpan cfg tid segment slicesNeeded blockSize idx
        (st, hasPage) = some (idx', st', hasPage') ∧ idx < idx' ∧
      CheckingFree st₀ segment tiles live slicesNeeded blockSize idx' st'
        hasPage' old' done' ahead' := by
  cases ahead with
  | nil => exact absurd h.after (by simp only [tiles_nil]; omega)
  | cons tile ahead =>
      have hmem : tile ∈ done ++ tile :: ahead := by simp
      have hstart : tile.start = idx := h.after.1
      have hcount := h.after.2.1
      obtain ⟨hsliceCount, -, hfree⟩ := h.tiled.head hmem
      have hmove : idx < tile.stop := by
        simp only [Tile.stop]
        omega
      have hpos := h.pos
      subst hstart
      by_cases hused : tile.kind = .used
      · have hsize := (h.tiled.used_iff hmem).mp hused
        obtain ⟨free, localFree, thread, hpage⟩ := hholds tile
          (by rw [h.split]; simp) hused (by omega)
        rw [← h.unvisited tile (by simp) hused] at hpage
        obtain ⟨page, free', localFree', hcollect, hcollected, -⟩ :=
          hpage.freeCollect false
        have hsame := pageFreeCollect_span hcollect
        have hcollectedUsed : page.used = (live tile.start).length := by
          simpa using hcollected.used_eq
        have hsame' : page.sliceCount = tile.count :=
          hsame.sliceCount.trans hsliceCount
        by_cases hlive : live tile.start = []
        · obtain ⟨first, total, st', old', done', ahead', hclear, htotal,
            hmore, hnew⟩ := h.clearPage cfg tid hused hlive hsame
          refine ⟨first + total, st', _, old', done', ahead', ?_, hmore, hnew⟩
          have hzero : page.used = 0 := by rw [hcollectedUsed, hlive]; rfl
          simp only [checkFreeSpan, if_pos hsize, hcollect, if_pos hzero,
            hclear, htotal]
        · refine ⟨tile.stop, _, _, old ++ [tile], done ++ [tile], ahead, ?_,
            hmove, h.keepPage hused hlive hsame hcollected⟩
          have hne : page.used ≠ 0 := by
            rw [hcollectedUsed]
            simpa using hlive
          simp only [checkFreeSpan, if_pos hsize, hcollect, if_neg hne, hsame',
            Tile.stop]
      · have hkind : tile.kind = .free := by
          have hne := h.tiled.kinds tile hmem
          cases hcase : tile.kind with
          | used => exact absurd hcase hused
          | free => rfl
          | detached => exact absurd hcase hne
        refine ⟨tile.stop, st, _, old ++ [tile], done ++ [tile], ahead, ?_,
          hmove, h.skipFree hkind⟩
        have hzero := hfree.mpr hkind
        simp only [checkFreeSpan, hzero, Nat.lt_irrefl, if_false, hsliceCount,
          Tile.stop]

end CheckingFree

/-- What `pa_segment_check_free` leaves: exactly the pages with live blocks
stay, with nothing left to collect from other threads, and the rest of the
segment is free. -/
structure SegmentChecked (st st' : State) (segment : ℕ)
    (tiles tiles' : List (Tile SpanKind)) (live : ℕ → List Addr)
    (slicesNeeded blockSize : ℕ) (hasPage : Bool) : Prop where
  segment_tiled : AbandonedSegment st' segment tiles'
  kept : ∀ tile : Tile SpanKind, tile.kind = .used →
    (tile ∈ tiles' ↔ tile ∈ tiles ∧ KeptTile live tile)
  pages : ∀ tile ∈ tiles', tile.kind = .used → tile.start ≠ 0 →
    ∃ free localFree, PagePartition (st'.slices ⟨segment, tile.start⟩)
      (live tile.start) free localFree []
  hasPage : hasPage = true ↔
    ∃ tile ∈ tiles', Serves st' segment slicesNeeded blockSize tile
  empty : (st'.segments segment).used = 0 ↔
    ∀ tile ∈ tiles, tile.kind = .used → tile.start ≠ 0 →
      live tile.start = []
  frame : ∀ slice : SlicePtr, slice.segment ≠ segment →
    st'.slices slice = st.slices slice ∧
      st'.links.next slice = st.links.next slice ∧
      st'.links.prev slice = st.links.prev slice
  others : ∀ s, s ≠ segment → st'.segments s = st.segments s
  spans : st'.spans = st.spans
  dontFree : (st'.segments segment).dontFree =
    (st.segments segment).dontFree
  sliceEntries : (st'.segments segment).sliceEntries =
    (st.segments segment).sliceEntries

theorem SegmentChecked.writes {st st' : State} {segment : ℕ}
    {tiles tiles' : List (Tile SpanKind)} {live : ℕ → List Addr}
    {slicesNeeded blockSize : ℕ} {hasPage : Bool}
    (h : SegmentChecked st st' segment tiles tiles' live slicesNeeded
      blockSize hasPage) (tid : ℕ) : WritesOnly st st' tid segment {segment} :=
  ⟨fun slice hs => (h.frame slice hs).1, h.others,
    fun slice hs => (h.frame slice hs).2, fun t _ => congrFun h.spans t⟩

theorem usedCount_eq_one_iff {l : List (Tile SpanKind)} {lo hi : ℕ}
    (h : Tiles lo l hi) {info : Tile SpanKind} (hinfo : info ∈ l)
    (hkind : info.kind = .used) :
    usedCount l = 1 ↔
      ∀ tile ∈ l, tile.kind = .used → tile.start = info.start := by
  obtain ⟨before, after, rfl⟩ := List.append_of_mem hinfo
  rw [← List.singleton_append, ← List.append_assoc] at h
  have hside : ∀ tile, tile ∈ before ∨ tile ∈ after →
      tile ∈ before ++ info :: after := by
    intro tile htile
    simp only [List.mem_append, List.mem_cons]
    exact htile.imp_right .inr
  have hcount : usedCount (before ++ info :: after) =
      usedCount before + usedCount after + 1 := by
    simp [hkind, Nat.add_assoc]
  rw [hcount]
  constructor
  · intro hone tile htile hused
    simp only [List.mem_append, List.mem_cons] at htile
    rcases htile with hleft | rfl | hright
    · have hpos := usedCount_pos hleft hused
      omega
    · rfl
    · have hpos := usedCount_pos hright hused
      omega
  · intro honly
    have hnone : ∀ l' : List (Tile SpanKind), (∀ tile ∈ l',
        tile ∈ before ∨ tile ∈ after) → usedCount l' = 0 := by
      intro l' hl'
      apply List.countP_eq_zero.mpr
      intro tile htile
      simp only [decide_eq_true_eq]
      intro hused
      have hsame := honly tile (hside tile (hl' tile htile)) hused
      have hout := h.outside (hl' tile htile) (List.mem_singleton_self info)
      have hpos := (h.bounds (show tile ∈ before ++ [info] ++ after by
        simpa using hside tile (hl' tile htile))).2.1
      have hpos' := (h.bounds (show info ∈ before ++ [info] ++ after by
        simp)).2.1
      simp only [Tile.stop] at hout
      omega
    rw [hnone before fun _ htile => .inl htile,
      hnone after fun _ htile => .inr htile]

theorem AbandonedSegment.used_eq_zero_iff {st : State} {segment : ℕ}
    {tiles : List (Tile SpanKind)} (h : AbandonedSegment st segment tiles) :
    (st.segments segment).used = 0 ↔
      ∀ tile ∈ tiles, tile.kind = .used → tile.start = 0 := by
  obtain ⟨info, hinfo, hzero, hkind⟩ := h.info
  have hcount := usedCount_eq_one_iff h.tiled hinfo hkind
  rw [hzero] at hcount
  rw [← hcount, ← h.used]
  simp

/-- Visiting an abandoned segment ends; it frees exactly the pages without
live blocks, keeps the segment in order, and says whether it can serve. -/
theorem segmentCheckFree_checked (cfg : Config) (tid : ℕ)
    {st : State} {segment : ℕ} {tiles : List (Tile SpanKind)}
    {live : ℕ → List Addr}
    (h : AbandonedSegment st segment tiles)
    (hholds : HoldsPages st segment live tiles)
    (slicesNeeded blockSize : ℕ) :
    ∃ st' hasPage tiles',
      segmentCheckFree cfg st tid segment slicesNeeded blockSize =
        some (st', hasPage) ∧
      SegmentChecked st st' segment tiles tiles' live slicesNeeded blockSize
        hasPage := by
  obtain ⟨info, hinfo, hzero, hkind⟩ := h.info
  obtain ⟨ahead, rfl⟩ : ∃ ahead, tiles = info :: ahead := by
    cases tiles with
    | nil => cases hinfo
    | cons first ahead =>
        have hsame := h.tiled.eq_of_start hinfo List.mem_cons_self
          (hzero.trans h.tiled.1.symm)
        exact ⟨ahead, by rw [hsame]⟩
  have hcount := (h.head hinfo).1
  rw [hzero] at hcount
  have hafter := h.tiled.2.2
  have hpos := h.tiled.2.1
  simp only [Tile.stop, hzero, Nat.zero_add] at hafter
  have hstart : CheckingFree st segment (info :: ahead) live slicesNeeded
      blockSize info.count st false [info] [info] ahead :=
    { pos := hpos
      split := rfl
      tiled := h
      entries := rfl
      dontFree := rfl
      before := ⟨hzero, hpos, by simp [Tile.stop, hzero]⟩
      after := hafter
      kept := by
        intro tile hused
        simp only [List.mem_singleton, iff_self_and]
        rintro rfl
        exact ⟨hused, .inl hzero⟩
      unvisited := fun _ _ _ => rfl
      visited := by
        intro tile htile _ hfirst
        rw [List.mem_singleton] at htile
        exact absurd (htile ▸ hzero) hfirst
      hasPage := by simp [Serves, hkind, hzero]
      frame := fun _ _ => ⟨rfl, rfl, rfl⟩
      others := fun _ _ => rfl
      spans := rfl }
  let Inv : ℕ → State × Bool → Prop := fun idx acc =>
    ∃ old done ahead', CheckingFree st segment (info :: ahead) live
      slicesNeeded blockSize idx acc.1 acc.2 old done ahead'
  have hbody : ∀ idx acc, idx < (st.segments segment).sliceEntries →
      Inv idx acc → ∃ idx' acc',
        checkFreeSpan cfg tid segment slicesNeeded blockSize idx acc =
          some (idx', acc') ∧ idx < idx' ∧ Inv idx' acc' := by
    rintro idx acc hlt ⟨old, done, ahead', hinv⟩
    obtain ⟨idx', st', hasPage', old', done', ahead'', hstep, hmove, hnew⟩ :=
      hinv.step cfg tid hholds hlt
    exact ⟨idx', (st', hasPage'), hstep, hmove, old', done', ahead'', hnew⟩
  have hfirst : Inv info.count (st, false) := ⟨_, _, _, hstart⟩
  have hfuel : (st.segments segment).sliceEntries - info.count <
      (st.segments segment).sliceEntries + 1 := by
    omega
  obtain ⟨idx, ⟨st', hasPage⟩, hwalk, hstop, old, done, ahead', hend⟩ :=
    walk_induction hbody hfirst hfuel
  simp only at hend
  -- nothing is ahead at the end
  cases ahead' with
  | cons tile rest =>
      have hmem : tile ∈ tile :: rest := List.mem_cons_self
      have hbounds := hend.after.bounds hmem
      simp only [Tile.stop] at hbounds
      omega
  | nil =>
      have hsplit := hend.split
      rw [List.append_nil] at hsplit
      subst hsplit
      have htiled := hend.tiled
      rw [List.append_nil] at htiled
      refine ⟨st', hasPage, done, ?_,
        { segment_tiled := htiled
          kept := hend.kept
          pages := hend.visited
          hasPage := hend.hasPage
          empty := ?_
          frame := hend.frame
          others := hend.others
          spans := hend.spans
          dontFree := hend.dontFree
          sliceEntries := hend.entries }⟩
      · rw [← hwalk]
        simp only [segmentCheckFree, slicesStartIterate, hcount]
      · rw [htiled.used_eq_zero_iff]
        constructor
        · intro honly tile htile hused hfirst
          by_contra hlive
          exact hfirst (honly tile ((hend.kept tile hused).mpr
            ⟨htile, hused, .inr hlive⟩) hused)
        · intro hnone tile htile hused
          obtain ⟨hold, -, hcase⟩ := (hend.kept tile hused).mp htile
          by_contra hfirst
          exact (hcase.resolve_left hfirst) (hnone tile hold hused hfirst)

def Covers (tile : Tile SpanKind) (idx : ℕ) : Prop :=
  tile.start ≤ idx ∧ idx < tile.stop

/-- Visiting an abandoned segment ends and keeps it in order.  Afterwards a
slice is free exactly when it is in no page with live blocks and not in the
info span. -/
theorem segmentCheckFree_spec (cfg : Config) (tid : ℕ)
    {st : State} {segment : ℕ} {tiles : List (Tile SpanKind)}
    {live : ℕ → List Addr} (h : AbandonedSegment st segment tiles)
    (hholds : HoldsPages st segment live tiles)
    (slicesNeeded blockSize : ℕ) :
    ∃ st' hasPage tiles',
      segmentCheckFree cfg st tid segment slicesNeeded blockSize =
        some (st', hasPage) ∧
      SegmentChecked st st' segment tiles tiles' live slicesNeeded blockSize
        hasPage ∧
      ∀ idx < (st.segments segment).sliceEntries,
        ((∃ tile ∈ tiles', tile.kind = .free ∧ Covers tile idx) ↔
          ¬ ∃ tile ∈ tiles, KeptTile live tile ∧ Covers tile idx) := by
  obtain ⟨st', hasPage, tiles', hresult, hchecked⟩ :=
    segmentCheckFree_checked cfg tid h hholds slicesNeeded blockSize
  refine ⟨st', hasPage, tiles', hresult, hchecked, ?_⟩
  intro idx hidx
  have htiled := hchecked.segment_tiled.tiled
  rw [hchecked.sliceEntries] at htiled
  constructor
  · rintro ⟨tile, htile, hfree, hlo, hhi⟩ ⟨other, hother, hkept, hlo', hhi'⟩
    have hmem := (hchecked.kept other hkept.1).mpr ⟨hother, hkept⟩
    have hsame := htiled.eq_of_index htile hmem ⟨hlo, hhi⟩ ⟨hlo', hhi'⟩
    rw [hsame, hkept.1] at hfree
    cases hfree
  · intro hnone
    obtain ⟨tile, htile, hlo, hhi⟩ := htiled.exists_tile (Nat.zero_le idx) hidx
    refine ⟨tile, htile, ?_, hlo, hhi⟩
    cases hkind : tile.kind with
    | free => rfl
    | used =>
        obtain ⟨hold, hkept⟩ := (hchecked.kept tile hkind).mp htile
        exact absurd ⟨tile, hold, hkept, hlo, hhi⟩ hnone
    | detached =>
        exact absurd hkind (hchecked.segment_tiled.kinds tile htile)

/-! ## A segment that was left behind -/

def orphanInfo : SegmentInfo :=
  { firstInfo with
    threadId := 0
    used := 1
    abandoned := 1
    abandonedVisits := 1 }

/-- Its entries: the info slice, a page of eight slices with one live block,
and a free span. -/
def orphanEntry (idx : ℕ) : PageFields :=
  if idx = 0 then { PageFields.zero with sliceCount := 1, blockSize := 1 }
  else if idx = 1 then
    { PageFields.zero with
      sliceCount := 8
      blockSize := 1024
      capacity := 1
      used := 1
      reserved := 512
      pageStart := 65536 }
  else if idx < 9 then
    { PageFields.zero with sliceOffset := idx - 1, blockSize := 1 }
  else if idx = 9 then { PageFields.zero with sliceCount := 503 }
  else if idx = 511 then { PageFields.zero with sliceOffset := 502 }
  else PageFields.zero

def orphanState : State :=
  { emptyState with
    segments := fun _ => orphanInfo
    slices := fun slice => orphanEntry slice.idx }

def orphanTiles : List (Tile SpanKind) :=
  [⟨0, 1, .used⟩, ⟨1, 8, .used⟩, ⟨9, 503, .free⟩]

def orphanLive (start : ℕ) : List Addr := if start = 1 then [65536] else []

theorem orphan_abandoned : AbandonedSegment orphanState 1 orphanTiles := by
  have hfree : FreeSpan orphanState 1 9 503 :=
    ⟨rfl, rfl, rfl, rfl, fun _ => ⟨rfl, rfl⟩⟩
  have hinfo : UsedSpan orphanState 1 0 1 := by
    refine ⟨rfl, rfl, by decide, ?_⟩
    intro i hpos hlt
    omega
  have hpage : UsedSpan orphanState 1 1 8 := by
    refine ⟨rfl, rfl, by decide, ?_⟩
    intro i hpos hlt _
    have hentry : orphanState.slices ⟨1, 1 + i⟩ =
        { PageFields.zero with sliceOffset := 1 + i - 1, blockSize := 1 } := by
      change orphanEntry (1 + i) = _
      unfold orphanEntry
      rw [if_neg (by omega), if_neg (by omega), if_pos (by omega)]
    rw [hentry]
    exact ⟨Nat.add_sub_cancel_left 1 i, rfl, rfl⟩
  refine ⟨rfl, rfl, ?_, ?_, ?_, ?_, ?_, ?_, rfl, rfl⟩
  · exact ⟨rfl, by decide, rfl, by decide, rfl, by decide, rfl⟩
  · decide
  · intro tile htile
    simp only [orphanTiles, List.mem_cons, List.not_mem_nil, or_false]
      at htile
    rcases htile with rfl | rfl | rfl
    · exact hinfo
    · exact hpage
    · exact hfree
  · exact ⟨_, List.mem_cons_self, rfl, rfl⟩
  · decide
  · intro tile htile hkind
    simp only [orphanTiles, List.mem_cons, List.not_mem_nil, or_false]
      at htile
    rcases htile with rfl | rfl | rfl
    · cases hkind
    · cases hkind
    · exact ⟨hfree, rfl, rfl⟩

theorem orphan_pages : HoldsPages orphanState 1 orphanLive orphanTiles := by
  intro tile htile hused hfirst
  simp only [orphanTiles, List.mem_cons, List.not_mem_nil, or_false] at htile
  rcases htile with rfl | rfl | rfl
  · exact absurd rfl hfirst
  · refine ⟨[], [], [], ?_⟩
    exact
      { free_chain := rfl
        local_chain := rfl
        thread_chain := rfl
        blocks := List.Perm.refl _
        used_eq := rfl
        capacity_le := by decide
        reserved_lt := by decide
        blockSize_pos := by decide }
  · cases hused

theorem segmentCheckFree_orphan : ∃ st' hasPage tiles',
    segmentCheckFree {} orphanState 2 1 1 1024 = some (st', hasPage) ∧
      SegmentChecked orphanState st' 1 orphanTiles tiles' orphanLive 1 1024
        hasPage ∧
      ∀ idx < slicesPerSegment,
        ((∃ tile ∈ tiles', tile.kind = .free ∧ Covers tile idx) ↔
          ¬ ∃ tile ∈ orphanTiles, KeptTile orphanLive tile ∧
            Covers tile idx) :=
  segmentCheckFree_spec {} 2 orphan_abandoned orphan_pages 1 1024

end Palloc
