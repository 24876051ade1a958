import Palloc.ReclaimSpans

/-!
# Spans of a thread

The operations on the spans of a thread, with what they leave alone: other
segments, the queues of other threads, and the pages of the same segment.
-/

namespace Palloc

open LinkedQueue IntervalTiling

/-- The pages of a segment after a step, apart from one place: they are the
same, with the same data. -/
structure PagesKept (st st' : State) (segment idx : ℕ)
    (ts ts' : List (Tile SpanKind)) : Prop where
  tiles : ∀ tile : Tile SpanKind, tile.kind = .used → tile.start ≠ idx →
    (tile ∈ ts' ↔ tile ∈ ts)
  data : ∀ tile ∈ ts', tile.kind = .used → tile.start ≠ idx →
    st'.slices ⟨segment, tile.start⟩ = st.slices ⟨segment, tile.start⟩
  abandoned : (st'.segments segment).abandoned =
    (st.segments segment).abandoned
  dontFree : (st'.segments segment).dontFree =
    (st.segments segment).dontFree

section

variable {st st' : State} {tid count : ℕ} {slice : SlicePtr} {owned : Set ℕ}
  {tiles : ℕ → List (Tile SpanKind)} {lists : ℕ → List SlicePtr}
  {before after : List (Tile SpanKind)}

/-- `pa_segment_page_clear` in a segment of a thread. -/
theorem SpanInvariant.clear (cfg : Config)
    (h : SpanInvariant st .idle tid owned tiles lists)
    (howned : slice.segment ∈ owned)
    (htiles : tiles slice.segment =
      before ++ [⟨slice.idx, count, .used⟩] ++ after)
    (hidx : slice.idx ≠ 0) :
    ∃ first st' ts' lists', segmentPageClear cfg st tid slice = (first, st') ∧
      SpanInvariant st' .idle tid owned
        (Function.update tiles slice.segment ts') lists' ∧
      (∀ tile ∈ ts', tile.kind = .used → tile.start ≠ slice.idx) ∧
      PagesKept st st' slice.segment slice.idx (tiles slice.segment) ts' ∧
      WritesOnly st st' tid slice.segment owned := by
  have hmem : (⟨slice.idx, count, .used⟩ : Tile SpanKind) ∈
      tiles slice.segment := by
    rw [htiles]
    simp
  have hentry := (h.layout.entry _ howned _ hmem).used rfl
  have hkinds : ∀ tile, tile ∈ before ∨ tile ∈ after →
      tile.kind ≠ .detached := by
    intro tile htile
    apply h.not_detached howned
    rw [htiles]
    simp only [List.mem_append]
    tauto
  have htiled := h.layout.tiled _ howned
  rw [htiles] at htiled
  set st₁ := st.writePage slice (st.slices slice).clear none none st.os
    with hst₁
  have hself₁ : st₁.slices slice = (st.slices slice).clear :=
    State.setSlice_self st slice _
  have hother₁ : ∀ other, other ≠ slice →
      st₁.slices other = st.slices other :=
    fun other hne => State.setSlice_ne st _ hne
  have hdetached := h.layout.writePage howned htiles
    (show SpanKind.detached ≠ .free by simp) (fun heq => absurd heq hidx)
    (st.slices slice).clear none none st.os trivial
  obtain ⟨before', first, total, after', st₂, lists', hcoalesce, hmerged,
    hcommit, hjoined⟩ := coalesce_queued cfg hdetached howned
      (Function.update_self _ _ _) (fun tile htile => hkinds tile (.inl htile))
      (fun tile htile => hkinds tile (.inr htile))
      (show (st₁.slices slice).sliceCount = count by
        rw [hself₁]
        exact hentry.sliceCount)
  have hlayout := hjoined.layout
  rw [Function.update_idem] at hlayout
  set ts' := before' ++ [(⟨first, total, .free⟩ : Tile SpanKind)] ++ after'
    with hts'
  set st' := st₂.setSegment slice.segment
    { st₂.segments slice.segment with
      used := (st₂.segments slice.segment).used - 1
      freeIsZero := false } with hst'
  have hresult : segmentPageClear cfg st tid slice =
      (⟨slice.segment, first⟩, st') := by
    have hclear : segmentPageClear cfg st tid slice =
        ((segmentSpanFreeCoalesce cfg st₁ tid slice).1,
          (segmentSpanFreeCoalesce cfg st₁ tid slice).2.setSegment
            slice.segment
            { (segmentSpanFreeCoalesce cfg st₁ tid slice).2.segments
                slice.segment with
              used := ((segmentSpanFreeCoalesce cfg st₁ tid
                slice).2.segments slice.segment).used - 1
              freeIsZero := false }) := rfl
    rw [hclear, hcoalesce]
  obtain ⟨commit, hinfo₂⟩ := hcommit slice.segment
  have hinfo : st'.segments slice.segment =
      { (st.segments slice.segment).withCommit commit with
        used := (st.segments slice.segment).used - 1
        freeIsZero := false } := by
    rw [hst', State.setSegment_self, hinfo₂]
    rfl
  have hothers : ∀ s, s ≠ slice.segment →
      st'.segments s = st.segments s := by
    intro s hs
    rw [hst', State.setSegment_ne _ _ hs, hjoined.others s hs]
    rfl
  -- the used tiles are those of both sides
  have hused : ∀ tile : Tile SpanKind, tile.kind = .used →
      (tile ∈ ts' ↔ tile ∈ before ∨ tile ∈ after) := by
    intro tile hkind
    have hne : tile ≠ ⟨first, total, .free⟩ := by
      rintro rfl
      cases hkind
    simp [hts', hne, hmerged.mem_used hkind]
  have hsides : ∀ tile : Tile SpanKind, tile ∈ before ∨ tile ∈ after →
      tile.start ≠ slice.idx := by
    intro tile htile hstart
    have hpos : 0 < count := h.layout.count_pos howned hmem
    have hbounds : 0 < tile.count := by
      apply h.layout.count_pos howned
      rw [htiles]
      simp only [List.mem_append]
      tauto
    have hcase := htiled.outside htile (List.mem_singleton_self _)
    simp only [Tile.stop] at hcase
    omega
  refine ⟨_, st', ts', lists', hresult, ⟨hlayout.congr (fun _ => .refl _) ?_
    rfl rfl, ?_, ?_, ?_, ?_⟩, ?_, ⟨?_, ?_, ?_, ?_⟩, ⟨?_, hothers, ?_, ?_⟩⟩
  · intro s _
    by_cases hs : s = slice.segment
    · rw [hs, hst', State.setSegment_self]
      exact ⟨rfl, rfl, rfl⟩
    · rw [hst', State.setSegment_ne _ _ hs]
      exact .refl _
  · intro s hs
    by_cases hcase : s = slice.segment
    · subst hcase
      have hcount := h.used _ hs
      have hcounts := hmerged.usedCount_eq
      -- the info span is still there
      obtain ⟨info, hmemInfo, -, hkind⟩ := hlayout.info _ hs
      rw [Function.update_self] at hmemInfo
      have hpos := usedCount_pos hmemInfo hkind
      rw [htiles] at hcount
      rw [Function.update_self, hinfo]
      simp only [usedCount_append, usedCount_cons, usedCount_nil, hts',
        reduceCtorEq, if_false, if_true, hcounts] at hcount hpos ⊢
      omega
    · rw [Function.update_of_ne hcase, hothers s hcase]
      exact h.used s hs
  · intro s hs tile htile hkind
    by_cases hcase : s = slice.segment
    · subst hcase
      rw [Function.update_self, hts'] at htile
      simp only [List.mem_append, List.mem_singleton] at htile
      rcases htile with (hmem | rfl) | hmem
      · exact absurd hkind (hkinds tile (.inl (hmerged.kept.1 hmem)))
      · cases hkind
      · exact absurd hkind (hkinds tile (.inr (hmerged.kept.2 hmem)))
    · rw [Function.update_of_ne hcase] at htile
      exact h.detached s hs tile htile hkind
  · intro other hother
    cases hother
  · intro other hother
    cases hother
  · exact fun tile htile hkind => hsides tile ((hused tile hkind).mp htile)
  · intro tile hkind hstart
    rw [hused tile hkind, htiles]
    have hne : tile ≠ ⟨slice.idx, count, .used⟩ := by
      rintro rfl
      exact hstart rfl
    simp [hne]
  · intro tile htile hkind hstart
    have hnewTiled := hlayout.tiled _ howned
    rw [Function.update_self, hts'] at hnewTiled
    have hside : tile ∈ before' ∨ tile ∈ after' :=
      ((hused tile hkind).mp htile).imp (hmerged.mem_used hkind).1.mp
        (hmerged.mem_used hkind).2.mp
    have hcase := hnewTiled.outside hside (List.mem_singleton_self _)
    have hpos : 0 < tile.count := (hnewTiled.bounds htile).2.1
    have hne : (⟨slice.segment, tile.start⟩ : SlicePtr) ≠ slice := by
      intro heq
      exact hstart (congrArg SlicePtr.idx heq)
    refine (hjoined.frame _ fun _ => ?_).trans (hother₁ _ hne)
    simp only [Tile.stop] at hcase ⊢
    omega
  · rw [hinfo]
    rfl
  · rw [hinfo]
    rfl
  · intro other hother
    have hne : other ≠ slice := by
      rintro rfl
      exact hother rfl
    exact (hjoined.frame other fun heq => absurd heq hother).trans
      (hother₁ other hne)
  · intro other hother
    have hne : other ≠ slice := by
      rintro rfl
      exact hother howned
    have hhead : other ≠ ⟨slice.segment, first⟩ := by
      rintro rfl
      exact hother howned
    obtain ⟨hnext, hprev⟩ := hjoined.links other hhead
      (hdetached.notMem_of_notOwned hother)
    constructor
    · refine hnext.trans ?_
      simp [State.writePage, Links.next_setNext, Ne.symm hne]
    · refine hprev.trans ?_
      simp [State.writePage, Links.prev_setPrev, Ne.symm hne]
  · intro t ht
    exact (hjoined.spans t ht).trans rfl

end

end Palloc
