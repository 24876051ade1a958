import Palloc.ThreadSpans

/-!
# The span that a thread finds for a page

A free span leaves its queue and is cut to size; then it becomes a page, or,
when the slices cannot be committed, goes back.  Outside of the span and the
free ones next to it nothing changes.
-/

namespace Palloc

open LinkedQueue IntervalTiling

theorem PagesKept.trans {st st₁ st₂ : State} {segment idx : ℕ}
    {ts ts₁ ts₂ : List (Tile SpanKind)}
    (h : PagesKept st st₁ segment idx ts ts₁)
    (h' : PagesKept st₁ st₂ segment idx ts₁ ts₂) :
    PagesKept st st₂ segment idx ts ts₂ := by
  refine ⟨?_, ?_, h'.abandoned.trans h.abandoned,
    h'.dontFree.trans h.dontFree⟩
  · intro tile hused hstart
    exact (h'.tiles tile hused hstart).trans (h.tiles tile hused hstart)
  · intro tile htile hused hstart
    exact (h'.data tile htile hused hstart).trans
      (h.data tile ((h'.tiles tile hused hstart).mp htile) hused hstart)

section FreeTiles

variable {before middle after : List (Tile SpanKind)} {tile : Tile SpanKind}

theorem usedCount_of_free (hfree : ∀ tile ∈ middle, tile.kind = .free) :
    usedCount middle = 0 := by
  rw [usedCount, List.countP_eq_zero]
  intro tile hmem
  rw [hfree tile hmem]
  simp

theorem used_notMem_free (hfree : ∀ tile ∈ middle, tile.kind = .free)
    (hused : tile.kind = .used) : tile ∉ middle := by
  intro hmem
  rw [hfree tile hmem] at hused
  cases hused

theorem used_mem_around_free (hfree : ∀ tile ∈ middle, tile.kind = .free)
    (hused : tile.kind = .used) :
    tile ∈ before ++ middle ++ after ↔ tile ∈ before ∨ tile ∈ after := by
  simp [used_notMem_free hfree hused]

end FreeTiles

/-- A free span of `total` slices has left its queue.  Its first `count` slices
are in no span, and what lies outside of it is as in `st`. -/
structure SpanInHand (st st' : State) (tid : ℕ) (owned : Set ℕ)
    (tiles : ℕ → List (Tile SpanKind)) (slice : SlicePtr) (total : ℕ)
    (before : List (Tile SpanKind)) (count : ℕ)
    (after : List (Tile SpanKind)) (lists : ℕ → List SlicePtr) : Prop where
  layout : SpanLayout st' tid owned (Function.update tiles slice.segment
    (before ++ [⟨slice.idx, count, .detached⟩] ++ after)) lists
  head : (st'.slices slice).sliceCount = count
  commit : OnlyCommit st st'
  writes : WritesOnly st st' tid slice.segment owned
  frame : ∀ other : SlicePtr, (other.segment = slice.segment →
      other.idx < slice.idx ∨ slice.idx + total ≤ other.idx) →
    st'.slices other = st.slices other

section

variable {st st' : State} {tid total count : ℕ} {slice : SlicePtr}
  {owned : Set ℕ} {tiles : ℕ → List (Tile SpanKind)}
  {lists : ℕ → List SlicePtr} {before after : List (Tile SpanKind)}

theorem SpanInvariant.unlink
    (h : SpanInvariant st .idle tid owned tiles lists)
    (howned : slice.segment ∈ owned)
    (htiles : tiles slice.segment =
      before ++ [⟨slice.idx, total, .free⟩] ++ after) :
    ∃ lists', SpanInHand st (segmentSpanRemoveFromQueue st tid slice) tid
      owned tiles slice total before total after lists' := by
  have hmem : (⟨slice.idx, total, .free⟩ : Tile SpanKind) ∈
      tiles slice.segment := by
    rw [htiles]
    simp
  have hpos : 0 < total := h.layout.count_pos howned hmem
  obtain ⟨hcount, -, -⟩ := h.head howned hmem
  refine ⟨_, h.layout.remove howned htiles rfl,
    (spanQueueDelete_head st tid _ slice).1.trans hcount, .of_eq rfl,
    ⟨?_, fun _ _ => rfl, ?_, ?_⟩, ?_⟩
  · intro other hother
    apply segmentSpanRemoveFromQueue_slices
    rintro rfl
    exact hother rfl
  · intro other hother
    exact h.layout.remove_links howned hmem rfl other
      (h.layout.notMem_of_notOwned hother)
  · intro t ht
    exact Function.update_of_ne ht _ _
  · intro other hother
    apply segmentSpanRemoveFromQueue_slices
    rintro rfl
    have hcase := hother rfl
    omega

theorem SpanInHand.cut (cfg : Config)
    (h : SpanInHand st st' tid owned tiles slice total before total after
      lists)
    (howned : slice.segment ∈ owned) (hpos : 0 < count) (hlt : count < total)
    (hapart : ∀ tile ∈ after, tile.kind = .free →
      tile.start ≠ slice.idx + total) :
    ∃ lists', SpanInHand st (segmentSliceSplit cfg st' tid slice count) tid
      owned tiles slice total before count
      ([⟨slice.idx + count, total - count, .free⟩] ++ after) lists' := by
  obtain ⟨hlayout, hcommit, hhead, -, -⟩ := h.layout.split howned
    (Function.update_self _ _ _) h.head hpos hlt hapart cfg
  rw [Function.update_idem] at hlayout
  have hfits : slice.idx + count + (total - count) ≤
      (st'.segments slice.segment).sliceEntries := by
    have hstop := h.layout.stop_le howned
      (show (⟨slice.idx, total, .detached⟩ : Tile SpanKind) ∈ _ by
        rw [Function.update_self]
        simp)
    simp only [Tile.stop] at hstop
    omega
  have hresult : segmentSliceSplit cfg st' tid slice count =
      (segmentSpanFree cfg st' tid slice.segment (slice.idx + count)
        (total - count) false).setSlice slice
        (((segmentSpanFree cfg st' tid slice.segment (slice.idx + count)
          (total - count) false).slices slice).withSpan count
          ((segmentSpanFree cfg st' tid slice.segment (slice.idx + count)
            (total - count) false).slices slice).sliceOffset
          ((segmentSpanFree cfg st' tid slice.segment (slice.idx + count)
            (total - count) false).slices slice).blockSize) := by
    unfold segmentSliceSplit
    simp only [h.head, if_neg hlt.not_ge]
  have hslices : ∀ other : SlicePtr, (other.segment = slice.segment →
      other.idx < slice.idx ∨ slice.idx + total ≤ other.idx) →
        (segmentSliceSplit cfg st' tid slice count).slices other =
          st'.slices other := by
    intro other hother
    have hne : ∀ i, i < total → other ≠ ⟨slice.segment, slice.idx + i⟩ := by
      rintro i hi rfl
      have hcase := hother rfl
      simp only at hcase
      omega
    have hhead : other ≠ slice := hne 0 (by omega)
    rw [hresult, State.setSlice_ne _ _ hhead]
    apply segmentSpanFree_slices_other cfg tid false (by omega) hfits
      (hne count hlt)
    have hlast : slice.idx + count + (total - count) - 1 =
        slice.idx + (total - 1) := by omega
    rw [hlast]
    exact hne (total - 1) (by omega)
  refine ⟨_, hlayout, hhead, h.commit.trans hcommit,
    h.writes.trans ⟨?_, ?_, ?_, ?_⟩, ?_⟩
  · exact fun other hother => hslices other fun heq => absurd heq hother
  · intro s hs
    rw [hresult]
    exact segmentSpanFree_segments_other cfg tid false hs
  · intro other hother
    rw [hresult]
    apply segmentSpanFree_links _ cfg h.layout howned
    · rintro rfl
      exact hother howned
    · exact h.layout.notMem_of_notOwned hother
  · intro t ht
    rw [hresult]
    exact segmentSpanFree_spans_other cfg false ht
  · exact fun other hother =>
      (hslices other hother).trans (h.frame other hother)

/-- The span that the search has found is taken and cut to size. -/
theorem SpanInvariant.takeFound (cfg : Config)
    (h : SpanInvariant st .idle tid owned tiles lists)
    (howned : slice.segment ∈ owned)
    (htiles : tiles slice.segment =
      before ++ [⟨slice.idx, total, .free⟩] ++ after)
    (hpos : 0 < count) (hle : count ≤ total) {bin : ℕ}
    (hbin : sliceBin total = bin) :
    ∃ middle lists', (∀ tile ∈ middle, tile.kind = .free) ∧
      SpanInHand st
        (let st := spanQueueDelete st tid bin slice
        if count < (st.slices slice).sliceCount then
          segmentSliceSplit cfg st tid slice count
        else st)
        tid owned tiles slice total before count (middle ++ after) lists' := by
  have hmem : (⟨slice.idx, total, .free⟩ : Tile SpanKind) ∈
      tiles slice.segment := by
    rw [htiles]
    simp
  obtain ⟨hcount, -, -⟩ := h.head howned hmem
  have hcount' : (st.slices slice).sliceCount = total := hcount
  obtain ⟨lists₁, htaken⟩ := h.unlink howned htiles
  rw [segmentSpanRemoveFromQueue, hcount', hbin] at htaken
  simp only [htaken.head]
  split
  · next hlt =>
      have hapart : ∀ tile ∈ after, tile.kind = .free →
          tile.start ≠ slice.idx + total := by
        intro tile htile hfree heq
        apply h.layout.apart _ howned _ hmem tile _ rfl hfree heq.symm
        rw [htiles]
        simp [htile]
      obtain ⟨lists₂, hcut⟩ := htaken.cut cfg howned hpos hlt hapart
      exact ⟨_, lists₂, by simp, hcut⟩
  · next hnot =>
      obtain rfl : count = total := by omega
      exact ⟨[], lists₁, by simp, htaken⟩

/-! ## The page, or the span given back -/

theorem SpanInHand.setCommit
    (h : SpanInHand st st' tid owned tiles slice total before count after
      lists) (commit : CommitState × Os) :
    SpanInHand st (st'.setCommit slice.segment commit) tid owned tiles slice
      total before count after lists := by
  have hcommit := onlyCommit_setCommit st' slice.segment commit
  refine ⟨h.layout.congr (fun _ => .refl _) (fun s _ => hcommit.header s) rfl
    rfl, h.head, h.commit.trans hcommit,
    h.writes.trans ⟨fun _ _ => rfl, ?_, fun _ _ => ⟨rfl, rfl⟩,
      fun _ _ => rfl⟩, h.frame⟩
  exact fun s hs => State.setSegment_ne _ _ hs

/-- The pages beside a span in hand are neither at its head nor in it. -/
theorem SpanInvariant.beside
    (h : SpanInvariant st .idle tid owned tiles lists)
    (howned : slice.segment ∈ owned)
    (htiles : tiles slice.segment =
      before ++ [⟨slice.idx, total, .free⟩] ++ after)
    {tile : Tile SpanKind} (htile : tile ∈ before ∨ tile ∈ after) :
    tile.start < slice.idx ∨ slice.idx + total ≤ tile.start := by
  have htiled := h.layout.tiled _ howned
  rw [htiles] at htiled
  have hpos : 0 < tile.count := by
    apply h.layout.count_pos howned
    rw [htiles]
    simp only [List.mem_append]
    tauto
  have hcase := htiled.outside htile (List.mem_singleton_self _)
  simp only [Tile.stop] at hcase
  omega

theorem SpanInvariant.sides_not_detached
    (h : SpanInvariant st .idle tid owned tiles lists)
    (howned : slice.segment ∈ owned)
    (htiles : tiles slice.segment =
      before ++ [⟨slice.idx, total, .free⟩] ++ after)
    {tile : Tile SpanKind} (htile : tile ∈ before ∨ tile ∈ after) :
    tile.kind ≠ .detached := by
  apply h.not_detached howned
  rw [htiles]
  simp only [List.mem_append]
  tauto

/-- The span in hand becomes a page. -/
theorem SpanInHand.becomePage
    (hidle : SpanInvariant st .idle tid owned tiles lists)
    {middle : List (Tile SpanKind)} {lists' : ℕ → List SlicePtr}
    (h : SpanInHand st st' tid owned tiles slice total before count
      (middle ++ after) lists')
    (howned : slice.segment ∈ owned)
    (htiles : tiles slice.segment =
      before ++ [⟨slice.idx, total, .free⟩] ++ after)
    (hmiddle : ∀ tile ∈ middle, tile.kind = .free) (hpos : 0 < count)
    (hle : count ≤ total) (isZeroInit : Bool) :
    let st₁ := st'.setUsedSpan slice.segment slice.idx count isZeroInit
    let st₂ := st₁.setSegment slice.segment
      ((st₁.segments slice.segment).withUsed
        ((st₁.segments slice.segment).used + 1))
    ∃ ts', SpanInvariant st₂ .idle tid owned
        (Function.update tiles slice.segment ts') lists' ∧
      PagesKept st st₂ slice.segment slice.idx (tiles slice.segment) ts' ∧
      WritesOnly st st₂ tid slice.segment owned ∧
      ⟨slice.idx, count, .used⟩ ∈ ts' := by
  intro st₁ st₂
  have hinHand : (⟨slice.idx, count, .detached⟩ : Tile SpanKind) ∈
      Function.update tiles slice.segment
        (before ++ [⟨slice.idx, count, .detached⟩] ++ (middle ++ after))
        slice.segment := by
    rw [Function.update_self]
    simp
  obtain ⟨-, hsegments, hlinks, hspans, -, hframe⟩ := setUsedSpan_spec
    isZeroInit hpos (h.layout.stop_le howned hinHand)
  have hlayout := h.layout.setUsed howned (Function.update_self _ _ _)
    isZeroInit
  rw [Function.update_idem] at hlayout
  set ts' := before ++ [(⟨slice.idx, count, .used⟩ : Tile SpanKind)] ++
    (middle ++ after) with hts'
  obtain ⟨commit, hinfo⟩ := h.commit slice.segment
  have hinfo₂ : st₂.segments slice.segment =
      ((st.segments slice.segment).withCommit commit).withUsed
        ((st.segments slice.segment).used + 1) := by
    rw [State.setSegment_self, hsegments, hinfo]
    rfl
  have hothers : ∀ s, s ≠ slice.segment →
      st₂.segments s = st.segments s := by
    intro s hs
    rw [State.setSegment_ne _ _ hs, hsegments]
    exact h.writes.segments s hs
  -- the used tiles beside the span
  have hmem : ∀ tile : Tile SpanKind, tile.kind = .used →
      tile.start ≠ slice.idx →
      (tile ∈ ts' ↔ tile ∈ before ∨ tile ∈ after) := by
    intro tile hkind hstart
    have hne : tile ≠ ⟨slice.idx, count, .used⟩ := by
      rintro rfl
      exact hstart rfl
    simp [hts', hne, used_notMem_free hmiddle hkind]
  refine ⟨ts', hidle.toIdle (hlayout.congr (fun _ => .refl _) ?_ rfl rfl)
    (fun _ hnone => by cases hnone) ?_ ?_ ?_, ⟨?_, ?_, ?_, ?_⟩,
    h.writes.trans ⟨?_, ?_, ?_, ?_⟩, by simp [hts']⟩
  · intro s _
    by_cases hs : s = slice.segment
    · rw [hs, State.setSegment_self]
      exact ⟨rfl, rfl, rfl⟩
    · rw [State.setSegment_ne _ _ hs]
      exact .refl _
  · intro tile htile
    simp only [hts', List.mem_append, List.mem_singleton] at htile
    rcases htile with (hb | rfl) | (hm | ha)
    · exact hidle.sides_not_detached howned htiles (.inl hb)
    · simp
    · rw [hmiddle tile hm]
      simp
    · exact hidle.sides_not_detached howned htiles (.inr ha)
  · intro _
    have hused := hidle.used _ howned
    have hnone := usedCount_of_free hmiddle
    rw [htiles] at hused
    rw [hinfo₂, SegmentInfo.withUsed_used]
    simp only [usedCount_append, usedCount_cons, usedCount_nil, hts', hnone,
      reduceCtorEq, if_false, if_true] at hused ⊢
    omega
  · intro s hs
    rw [hothers s hs]
  · intro tile hkind hstart
    rw [hmem tile hkind hstart, htiles, used_mem_around_free (by simp) hkind]
  · intro tile htile hkind hstart
    have hbeside := hidle.beside howned htiles
      ((hmem tile hkind hstart).mp htile)
    exact (hframe _ fun _ => by simp only; omega).trans
      (h.frame _ fun _ => hbeside)
  · rw [hinfo₂]
    rfl
  · rw [hinfo₂]
    rfl
  · exact fun other hother => hframe other fun heq => absurd heq hother
  · intro s hs
    rw [hothers s hs]
    exact (h.writes.segments s hs).symm
  · intro other _
    exact ⟨congrArg (fun links => links.next other) hlinks,
      congrArg (fun links => links.prev other) hlinks⟩
  · intro t _
    exact congrFun hspans t

/-- The span in hand is given back. -/
theorem SpanInHand.giveBack (cfg : Config)
    (hidle : SpanInvariant st .idle tid owned tiles lists)
    {middle : List (Tile SpanKind)} {lists₁ : ℕ → List SlicePtr}
    (h : SpanInHand st st' tid owned tiles slice total before count
      (middle ++ after) lists₁)
    (howned : slice.segment ∈ owned)
    (htiles : tiles slice.segment =
      before ++ [⟨slice.idx, total, .free⟩] ++ after)
    (hmiddle : ∀ tile ∈ middle, tile.kind = .free) :
    ∃ st₂ ts' lists', (segmentSpanFreeCoalesce cfg st' tid slice).2 = st₂ ∧
      SpanInvariant st₂ .idle tid owned
        (Function.update tiles slice.segment ts') lists' ∧
      PagesKept st st₂ slice.segment slice.idx (tiles slice.segment) ts' ∧
      WritesOnly st st₂ tid slice.segment owned ∧
      ∀ tile ∈ ts', tile.kind = .used → tile.start ≠ slice.idx := by
  have hsides : ∀ tile ∈ middle ++ after, tile.kind ≠ .detached := by
    intro tile htile
    rcases List.mem_append.mp htile with hm | ha
    · rw [hmiddle tile hm]
      simp
    · exact hidle.sides_not_detached howned htiles (.inr ha)
  obtain ⟨before', first, total', after', st₂, lists', hresult, hmerged,
    hcommit, hjoined⟩ := coalesce_queued cfg h.layout howned
      (Function.update_self _ _ _)
      (fun tile hb => hidle.sides_not_detached howned htiles (.inl hb))
      hsides h.head
  have hlayout := hjoined.layout
  rw [Function.update_idem] at hlayout
  set ts' := before' ++ [(⟨first, total', .free⟩ : Tile SpanKind)] ++ after'
    with hts'
  have hcommitted := h.commit.trans hcommit
  obtain ⟨commit, hinfo⟩ := hcommitted slice.segment
  have hmem : ∀ tile : Tile SpanKind, tile.kind = .used →
      (tile ∈ ts' ↔ tile ∈ before ∨ tile ∈ after) := by
    intro tile hkind
    obtain ⟨hbefore, hafter⟩ := hmerged.mem_used hkind
    rw [List.mem_append, or_iff_right (used_notMem_free hmiddle hkind)]
      at hafter
    rw [hts', used_mem_around_free (by simp) hkind, hbefore, hafter]
  have hstart : ∀ tile ∈ ts', tile.kind = .used →
      tile.start < slice.idx ∨ slice.idx + total ≤ tile.start :=
    fun tile htile hkind =>
      hidle.beside howned htiles ((hmem tile hkind).mp htile)
  have hspan : (⟨slice.idx, total, .free⟩ : Tile SpanKind) ∈
      tiles slice.segment := by
    rw [htiles]
    simp
  have hpos : 0 < total := hidle.layout.count_pos howned hspan
  refine ⟨st₂, ts', lists', congrArg Prod.snd hresult,
    hidle.toIdle hlayout (fun _ hnone => by cases hnone) ?_ ?_ ?_,
    ⟨?_, ?_, ?_, ?_⟩,
    h.writes.trans ⟨?_, hjoined.others, ?_, hjoined.spans⟩, ?_⟩
  · intro tile htile
    simp only [hts', List.mem_append, List.mem_singleton] at htile
    rcases htile with (hb | rfl) | ha
    · exact hidle.sides_not_detached howned htiles
        (.inl (hmerged.kept.1 hb))
    · simp
    · exact hsides tile (hmerged.kept.2 ha)
  · intro _
    have hused := hidle.used _ howned
    have hcounts := hmerged.usedCount_eq
    have hnone := usedCount_of_free hmiddle
    rw [htiles] at hused
    rw [hcommitted.used]
    simp only [usedCount_append, usedCount_cons, usedCount_nil, hts', hnone,
      reduceCtorEq, if_false, hcounts] at hused ⊢
    omega
  · intro s _
    exact hcommitted.used s
  · intro tile hkind _
    rw [hmem tile hkind, htiles, used_mem_around_free (by simp) hkind]
  · intro tile htile hkind _
    have hnewTiled := hlayout.tiled _ howned
    rw [Function.update_self, hts'] at hnewTiled
    have hside : tile ∈ before' ∨ tile ∈ after' :=
      (used_mem_around_free (by simp) hkind).mp htile
    have hcase := hnewTiled.outside hside (List.mem_singleton_self _)
    have hcount : 0 < tile.count := (hnewTiled.bounds htile).2.1
    refine (hjoined.frame _ fun _ => ?_).trans
      (h.frame _ fun _ => hstart tile htile hkind)
    simp only [Tile.stop] at hcase ⊢
    omega
  · rw [hinfo]
    rfl
  · rw [hinfo]
    rfl
  · intro other hother
    exact hjoined.frame other fun heq => absurd heq hother
  · intro other hother
    apply hjoined.links
    · rintro rfl
      exact hother howned
    · exact h.layout.notMem_of_notOwned hother
  · intro tile htile hkind heq
    have hcase := hstart tile htile hkind
    omega

/-- The span that the search has found becomes a page at its first slices, or
it goes back when they cannot be committed. -/
theorem SpanInvariant.allocateFound (cfg : Config)
    (h : SpanInvariant st .idle tid owned tiles lists)
    (howned : slice.segment ∈ owned) (hhead : FreeHead st slice) {bin : ℕ}
    (hbin : sliceBin (st.slices slice).sliceCount = bin) (hpos : 0 < count)
    (hle : count ≤ (st.slices slice).sliceCount) :
    (∀ tile ∈ tiles slice.segment, tile.kind = .used →
      tile.start ≠ slice.idx) ∧
    ∃ ok st' ts' lists',
      Palloc.allocateFound cfg st tid bin slice count =
        (if ok then some slice else none, st') ∧
      SpanInvariant st' .idle tid owned
        (Function.update tiles slice.segment ts') lists' ∧
      PagesKept st st' slice.segment slice.idx (tiles slice.segment) ts' ∧
      WritesOnly st st' tid slice.segment owned ∧
      ((∃ tile ∈ ts', tile.kind = .used ∧ tile.start = slice.idx) ↔
        ok = true) := by
  obtain ⟨before, after, total, htiles, htotal⟩ :=
    h.freeHead_tile howned hhead
  rw [htotal] at hbin hle
  obtain ⟨middle, lists₁, hmiddle, hfound⟩ :=
    h.takeFound cfg howned htiles hpos hle hbin
  refine ⟨?_, ?_⟩
  · intro tile htile hkind heq
    have hmem : (⟨slice.idx, total, .free⟩ : Tile SpanKind) ∈
        tiles slice.segment := by
      rw [htiles]
      simp
    have hsame := (h.layout.tiled _ howned).eq_of_start htile hmem heq
    rw [hsame] at hkind
    cases hkind
  unfold Palloc.allocateFound
  dsimp only at hfound ⊢
  set st₁ := if count < ((spanQueueDelete st tid bin slice).slices
      slice).sliceCount then
    segmentSliceSplit cfg (spanQueueDelete st tid bin slice) tid slice count
    else spanQueueDelete st tid bin slice with hst₁
  rw [hfound.head]
  obtain ⟨commit, zero, hcases⟩ := segmentSpanAllocate_cases cfg st₁
    slice.segment slice.idx count
  have hcommitted := hfound.setCommit commit
  rcases hcases with hfailed | hdone
  · obtain ⟨st', ts', lists', hresult, hnew, hkept, hwrites, hgone⟩ :=
      hcommitted.giveBack cfg h howned htiles hmiddle
    refine ⟨false, st', ts', lists', ?_, hnew, hkept, hwrites, ?_⟩
    · rw [hfailed]
      simp only [Bool.false_eq_true, if_false, hresult]
    · simp only [Bool.false_eq_true, iff_false]
      rintro ⟨tile, htile, hkind, hstart⟩
      exact hgone tile htile hkind hstart
  · obtain ⟨ts', hnew, hkept, hwrites, hpage⟩ :=
      hcommitted.becomePage h howned htiles hmiddle hpos hle zero
    refine ⟨true, _, ts', lists₁, ?_, hnew, hkept, hwrites, ?_⟩
    · rw [hdone]
      rfl
    · exact iff_of_true ⟨_, hpage, rfl, rfl⟩ rfl

/-- `pa_segments_page_find_and_allocate`, with any outcome of the commit. -/
theorem SpanInvariant.findAndAllocate {cfg : Config}
    (h : SpanInvariant st .idle tid owned tiles lists)
    {fuel sliceCount reqArenaId : ℕ} {result : Option SlicePtr}
    (hresult : segmentsPageFindAndAllocate cfg fuel st tid sliceCount
      reqArenaId = some (result, st')) :
    result = none ∧ st' = st ∨
    ∃ (slice : SlicePtr) (ts' : List (Tile SpanKind))
      (lists' : ℕ → List SlicePtr), slice.segment ∈ owned ∧
      (∀ tile ∈ tiles slice.segment, tile.kind = .used →
        tile.start ≠ slice.idx) ∧
      (result = none ∨ result = some slice) ∧
      SpanInvariant st' .idle tid owned
        (Function.update tiles slice.segment ts') lists' ∧
      PagesKept st st' slice.segment slice.idx (tiles slice.segment) ts' ∧
      WritesOnly st st' tid slice.segment owned ∧
      ((∃ tile ∈ ts', tile.kind = .used ∧ tile.start = slice.idx) ↔
        result = some slice) := by
  unfold segmentsPageFindAndAllocate at hresult
  simp only at hresult
  split at hresult
  · cases hresult
  · simp only [Option.some.injEq, Prod.mk.injEq] at hresult
    exact .inl ⟨hresult.1.symm, hresult.2.symm⟩
  · next bin slice hfound =>
      simp only [Option.some.injEq] at hresult
      obtain ⟨hmem, hle⟩ := findSpan_found h.layout.queues hfound
      obtain ⟨howned, hhead, hbin⟩ := h.freeHead_of_mem hmem
      have hpos : 0 < if sliceCount = 0 then 1 else sliceCount := by
        split <;> omega
      obtain ⟨hfree, ok, st₁, ts', lists', hfoundEq, hnew, hkept, hwrites,
        hpage⟩ := h.allocateFound cfg howned hhead hbin hpos hle
      rw [hfoundEq] at hresult
      cases hresult
      refine .inr ⟨slice, ts', lists', howned, hfree, ?_, hnew, hkept,
        hwrites, ?_⟩
      · cases ok
        · exact .inl rfl
        · exact .inr rfl
      · rw [hpage]
        cases ok <;> simp

/-- The data of a page of the thread changes. -/
theorem SpanInvariant.setPage
    (h : SpanInvariant st .idle tid owned tiles lists)
    (howned : slice.segment ∈ owned) {tile : Tile SpanKind}
    (htile : tile ∈ tiles slice.segment) (hused : tile.kind = .used)
    (hstart : tile.start = slice.idx) {page : PageFields}
    (hcount : page.sliceCount = (st.slices slice).sliceCount)
    (hoffset : page.sliceOffset = (st.slices slice).sliceOffset)
    (hsize : 0 < page.blockSize) :
    SpanInvariant (st.setSlice slice page) .idle tid owned tiles lists := by
  have hentry := ((h.layout.entry _ howned tile htile).used hused).blockSize_pos
  rw [hstart] at hentry
  have hhead : UsedHead st slice :=
    ⟨(h.spanHead_iff howned _).mpr ⟨tile, htile, hstart⟩, hentry⟩
  have hwrite := h.usePage howned hhead (st.links.next slice)
    (st.links.prev slice) st.os hcount hoffset hsize
  have hsame : st.writePage slice page (st.links.next slice)
      (st.links.prev slice) st.os = st.setSlice slice page := by
    unfold State.writePage State.setSlice
    simp [Links.setNext, Links.setPrev]
  rw [hsame] at hwrite
  exact hwrite

end

end Palloc
