import Palloc.SpanLayout

/-!
# The span operations keep the slice structure

One lemma per operation of `segment.c`: which tiles it rewrites, under which
condition on the tiles next to them.  Taking a span out of its queue leaves a
detached range; freeing makes a detached range one free span; allocation
makes it a used span; coalescing first detaches the free neighbours.
-/

namespace Palloc

open LinkedQueue IntervalTiling

def OnlyCommit (st st' : State) : Prop :=
  ∀ s, ∃ commit, st'.segments s = (st.segments s).withCommit commit

theorem OnlyCommit.of_eq {st st' : State}
    (h : st'.segments = st.segments) : OnlyCommit st st' := by
  intro s
  exact ⟨(st.segments s).commit, by rw [h]; rfl⟩

theorem OnlyCommit.trans {st st' st'' : State} (h : OnlyCommit st st')
    (h' : OnlyCommit st' st'') : OnlyCommit st st'' := by
  intro s
  obtain ⟨commit, heq⟩ := h s
  obtain ⟨commit', heq'⟩ := h' s
  exact ⟨commit', by rw [heq', heq]; rfl⟩

theorem OnlyCommit.header {st st' : State} (h : OnlyCommit st st') (s : ℕ) :
    SameHeader (st.segments s) (st'.segments s) := by
  obtain ⟨commit, heq⟩ := h s
  rw [heq]
  exact ⟨rfl, rfl, rfl⟩

theorem OnlyCommit.used {st st' : State} (h : OnlyCommit st st') (s : ℕ) :
    (st'.segments s).used = (st.segments s).used := by
  obtain ⟨commit, heq⟩ := h s
  rw [heq]
  rfl

theorem onlyCommit_setCommit (st : State) (segment : ℕ)
    (result : CommitState × Os) :
    OnlyCommit st (st.setCommit segment result) := by
  intro s
  by_cases hs : s = segment
  · subst hs
    exact ⟨result.1, by simp [State.setCommit, State.setSegment]⟩
  · exact ⟨(st.segments s).commit, by
      simp [State.setCommit, State.setSegment, Function.update, hs,
        SegmentInfo.withCommit]⟩

/-! ## Entries written by the operations -/

theorem sameSpan_setSlice {st : State} {slice other : SlicePtr}
    {page : PageFields} (hne : other ≠ slice) :
    SameSpan (st.slices other) ((st.setSlice slice page).slices other) := by
  rw [State.setSlice_ne st page hne]
  exact .refl _

theorem spanQueuePush_head (st : State) (tid bin : ℕ) (slice : SlicePtr) :
    ((spanQueuePush st tid bin slice).slices slice).sliceCount =
        (st.slices slice).sliceCount ∧
      ((spanQueuePush st tid bin slice).slices slice).sliceOffset =
        (st.slices slice).sliceOffset ∧
      ((spanQueuePush st tid bin slice).slices slice).blockSize = 0 := by
  simp [spanQueuePush, State.setBlockSize]

theorem spanQueuePush_frame (st : State) (tid bin : ℕ)
    {slice other : SlicePtr} (hne : other ≠ slice) :
    SameSpan (st.slices other)
      ((spanQueuePush st tid bin slice).slices other) := by
  simp only [spanQueuePush, State.setBlockSize]
  rw [State.setSlice_ne _ _ hne]
  exact .refl _

theorem spanQueueDelete_head (st : State) (tid bin : ℕ) (slice : SlicePtr) :
    ((spanQueueDelete st tid bin slice).slices slice).sliceCount =
        (st.slices slice).sliceCount ∧
      ((spanQueueDelete st tid bin slice).slices slice).sliceOffset =
        (st.slices slice).sliceOffset ∧
      ((spanQueueDelete st tid bin slice).slices slice).blockSize = 1 := by
  simp [spanQueueDelete, State.setBlockSize]

theorem spanQueueDelete_frame (st : State) (tid bin : ℕ)
    {slice other : SlicePtr} (hne : other ≠ slice) :
    (spanQueueDelete st tid bin slice).slices other = st.slices other := by
  simp only [spanQueueDelete, State.setBlockSize]
  exact State.setSlice_ne _ _ hne

/-- The entries of a free span of `count` slices, before its head is marked
as free. -/
theorem setFreeSpan_slices {st : State} {segment idx count : ℕ}
    (hfits : idx + count ≤ (st.segments segment).sliceEntries) :
    let st' := st.setFreeSpan segment idx count
    st'.segments = st.segments ∧ st'.links = st.links ∧
      st'.spans = st.spans ∧ st'.os = st.os ∧
      (st'.slices ⟨segment, idx⟩).sliceCount = count ∧
      (st'.slices ⟨segment, idx⟩).sliceOffset = 0 ∧
      (1 < count →
        (st'.slices ⟨segment, idx + count - 1⟩).sliceOffset = count - 1 ∧
        (st'.slices ⟨segment, idx + count - 1⟩).sliceCount = 0 ∧
        (st'.slices ⟨segment, idx + count - 1⟩).blockSize = 0) ∧
      ∀ slice : SlicePtr, slice ≠ ⟨segment, idx⟩ →
        slice ≠ ⟨segment, idx + count - 1⟩ →
          SameSpan (st.slices slice) (st'.slices slice) := by
  intro st'
  by_cases hone : 1 < count
  · have hlast : ¬ (st.segments segment).sliceEntries <
        idx + count - 1 := by omega
    have hne : (⟨segment, idx⟩ : SlicePtr) ≠ ⟨segment, idx + count - 1⟩ := by
      intro heq
      simp only [SlicePtr.mk.injEq, true_and] at heq
      omega
    have hst' : st' = (st.setSlice ⟨segment, idx⟩
        ((st.slices ⟨segment, idx⟩).withSpan count 0
          (st.slices ⟨segment, idx⟩).blockSize)).setSlice
        ⟨segment, idx + count - 1⟩
        ((st.slices ⟨segment, idx + count - 1⟩).withSpan 0 (count - 1)
          0) := by
      change State.setFreeSpan st segment idx count = _
      simp only [State.setFreeSpan, if_pos hone, if_neg hlast]
      rw [State.setSlice_ne st _ hne.symm]
    rw [hst']
    refine ⟨rfl, rfl, rfl, rfl, ?_, ?_, ?_, ?_⟩
    · rw [State.setSlice_ne _ _ hne, State.setSlice_self]
      rfl
    · rw [State.setSlice_ne _ _ hne, State.setSlice_self]
      rfl
    · intro _
      rw [State.setSlice_self]
      exact ⟨rfl, rfl, rfl⟩
    · intro slice hhead htail
      exact (sameSpan_setSlice hhead).trans (sameSpan_setSlice htail)
  · have hst' : st' = st.setSlice ⟨segment, idx⟩
        ((st.slices ⟨segment, idx⟩).withSpan count 0
          (st.slices ⟨segment, idx⟩).blockSize) := by
      change State.setFreeSpan st segment idx count = _
      simp only [State.setFreeSpan, if_neg hone]
    rw [hst']
    refine ⟨rfl, rfl, rfl, rfl, ?_, ?_, fun h => absurd h hone, ?_⟩
    · rw [State.setSlice_self]
      rfl
    · rw [State.setSlice_self]
      rfl
    · intro slice hhead _
      exact sameSpan_setSlice hhead

structure SpanFreed (st st' : State) (tid segment idx count : ℕ) : Prop where
  commit : OnlyCommit st st'
  links : st'.links =
    pushLinks st.links (st.spans tid (sliceBin count)) ⟨segment, idx⟩
  spans : st'.spans = Function.update st.spans tid
    (Function.update (st.spans tid) (sliceBin count)
      (pushEnds (st.spans tid (sliceBin count)) ⟨segment, idx⟩))
  span : FreeSpan st' segment idx count
  frame : ∀ slice : SlicePtr, slice ≠ ⟨segment, idx⟩ →
    slice ≠ ⟨segment, idx + count - 1⟩ →
      SameSpan (st.slices slice) (st'.slices slice)

theorem segmentSpanFree_spec (cfg : Config) {st : State}
    (tid : ℕ) {segment idx count : ℕ} (allowPurge : Bool)
    (hkind : (st.segments segment).kind = .normal)
    (hthread : (st.segments segment).threadId ≠ 0) (hcount : 0 < count)
    (hfits : idx + count ≤ (st.segments segment).sliceEntries) :
    SpanFreed st
      (segmentSpanFree cfg st tid segment idx count allowPurge)
      tid segment idx count := by
  obtain ⟨hsegments, hlinks, hspans, hos, hheadCount, hheadOffset, hlast,
    hframe⟩ := setFreeSpan_slices hfits
  set st₁ := st.setFreeSpan segment idx count with hst₁
  -- a scheduled purge touches the commit fields only
  obtain ⟨st₂, hst₂, hcommit, hslices₂, hlinks₂, hspans₂⟩ : ∃ st₂ : State,
      (if allowPurge then
        st₁.setCommit segment
          (segmentSchedulePurge cfg (st.segments segment) st₁.os segment
            (SlicePtr.mk segment idx).start (count * segmentSliceSize))
      else st₁) = st₂ ∧ OnlyCommit st₁ st₂ ∧ st₂.slices = st₁.slices ∧
        st₂.links = st₁.links ∧ st₂.spans = st₁.spans := by
    cases allowPurge with
    | false => exact ⟨st₁, by simp, .of_eq rfl, rfl, rfl, rfl⟩
    | true =>
        exact ⟨_, if_pos rfl, onlyCommit_setCommit _ _ _, rfl, rfl, rfl⟩
  have hsq : ¬ ((st.segments segment).kind = .huge ∨
      (st.segments segment).threadId = 0) := by
    rw [hkind]
    simp [hthread]
  have hresult : segmentSpanFree cfg st tid segment idx count allowPurge =
      spanQueuePush st₂ tid (sliceBin count) ⟨segment, idx⟩ := by
    have hne : count ≠ 0 := by omega
    simp only [segmentSpanFree, if_neg hsq, if_neg hne]
    rw [← hst₁, hst₂]
  rw [hresult]
  have hother : ∀ slice : SlicePtr, slice ≠ ⟨segment, idx⟩ →
      SameSpan (st₁.slices slice)
        ((spanQueuePush st₂ tid (sliceBin count)
          ⟨segment, idx⟩).slices slice) := by
    intro slice hne
    rw [← hslices₂]
    exact spanQueuePush_frame st₂ tid _ hne
  constructor
  · exact (OnlyCommit.of_eq hsegments).trans
      (hcommit.trans (.of_eq rfl))
  · rw [← hlinks, ← hspans, ← hlinks₂, ← hspans₂]
    rfl
  · rw [← hspans, ← hspans₂]
    rfl
  · obtain ⟨hcount', hoffset', hbsize'⟩ :=
      spanQueuePush_head st₂ tid (sliceBin count) ⟨segment, idx⟩
    rw [hslices₂] at hcount' hoffset'
    refine ⟨hcount'.trans hheadCount, hoffset'.trans hheadOffset, hbsize',
      ?_, ?_⟩
    · by_cases hone : 1 < count
      · have hne : (⟨segment, idx + count - 1⟩ : SlicePtr) ≠
            ⟨segment, idx⟩ := by
          intro heq
          simp only [SlicePtr.mk.injEq, true_and] at heq
          omega
        exact (hother _ hne).sliceOffset.trans (hlast hone).1
      · have hsame : idx + count - 1 = idx := by omega
        rw [hsame]
        have hzero : count - 1 = 0 := by omega
        rw [hzero]
        exact hoffset'.trans hheadOffset
    · intro hone
      have hne : (⟨segment, idx + count - 1⟩ : SlicePtr) ≠
          ⟨segment, idx⟩ := by
        intro heq
        simp only [SlicePtr.mk.injEq, true_and] at heq
        omega
      exact ⟨(hother _ hne).sliceCount.trans (hlast hone).2.1,
        (hother _ hne).blockSize.trans (hlast hone).2.2⟩
  · intro slice hhead htail
    exact (hframe slice hhead htail).trans (hother slice hhead)

/-! ## Entries of used spans -/

theorem setBackOffsets_at (slices : SlicePtr → PageFields)
    (segment first offset : ℕ) {count i : ℕ} (hi : i < count) :
    setBackOffsets slices segment first offset count
        ⟨segment, first + i⟩ =
      (slices ⟨segment, first + i⟩).withSpan 0 (offset + i) 1 := by
  induction count with
  | zero => omega
  | succ count ih =>
      unfold setBackOffsets
      by_cases hcase : i = count
      · subst hcase
        have hbelow : ∀ n ≤ i, setBackOffsets slices segment first offset n
            ⟨segment, first + i⟩ = slices ⟨segment, first + i⟩ := by
          intro n hn
          induction n with
          | zero => rfl
          | succ n ihn =>
              have hne : (⟨segment, first + i⟩ : SlicePtr) ≠
                  ⟨segment, first + n⟩ := by
                intro heq
                simp only [SlicePtr.mk.injEq, true_and] at heq
                omega
              unfold setBackOffsets
              simp only [Function.update_of_ne hne]
              exact ihn (by omega)
        simp only [Function.update_self, hbelow i le_rfl]
      · have hne : (⟨segment, first + i⟩ : SlicePtr) ≠
            ⟨segment, first + count⟩ := by
          intro heq
          simp only [SlicePtr.mk.injEq, true_and] at heq
          omega
        simp only [Function.update_of_ne hne]
        exact ih (by omega)

theorem setBackOffsets_frame (slices : SlicePtr → PageFields)
    (segment first offset count : ℕ) {slice : SlicePtr}
    (hout : slice.segment = segment →
      slice.idx < first ∨ first + count ≤ slice.idx) :
    setBackOffsets slices segment first offset count slice =
      slices slice := by
  induction count with
  | zero => rfl
  | succ count ih =>
      have hne : slice ≠ ⟨segment, first + count⟩ := by
        rintro rfl
        have hcase := hout rfl
        simp only at hcase
        omega
      unfold setBackOffsets
      simp only [Function.update_of_ne hne]
      apply ih
      intro heq
      have hcase := hout heq
      omega

theorem setUsedSpan_spec {st : State} {segment idx count : ℕ}
    (isZeroInit : Bool) (hcount : 0 < count)
    (hfits : idx + count ≤ (st.segments segment).sliceEntries) :
    let st' := st.setUsedSpan segment idx count isZeroInit
    UsedSpan st' segment idx count ∧
      st'.segments = st.segments ∧ st'.links = st.links ∧
      st'.spans = st.spans ∧ st'.os = st.os ∧
      ∀ slice : SlicePtr, (slice.segment = segment →
        slice.idx < idx ∨ idx + count ≤ slice.idx) →
          st'.slices slice = st.slices slice := by
  intro st'
  set head : SlicePtr := ⟨segment, idx⟩ with hhead
  set last : SlicePtr := ⟨segment, idx + count - 1⟩ with hlast
  set extra := min maxSliceOffsetCount (count - 1) with hextra
  set page := st.slices head with hpage
  set slices₁ := Function.update st.slices head
    (page.withSpan count 0 (count * segmentSliceSize)) with hslices₁
  set slices₂ := setBackOffsets slices₁ segment (idx + 1) 1 extra
    with hslices₂
  set slices₃ := if 1 < count then
    Function.update slices₂ last ((slices₂ last).withSpan 0 (count - 1) 1)
    else slices₂ with hslices₃
  have hst' : st' =
      { st with
        slices := Function.update slices₃ head
          { slices₃ head with
            isCommitted := true
            isZeroInit := isZeroInit
            isHuge := (st.segments segment).kind = .huge } } := by
    have hclip : ¬ (st.segments segment).sliceEntries ≤ idx + extra := by
      omega
    have hclip' : ¬ (st.segments segment).sliceEntries <
        idx + count - 1 := by omega
    have hmin : (if maxSliceOffsetCount < count - 1 then maxSliceOffsetCount
        else count - 1) = extra := by
      rw [hextra]
      split <;> omega
    have hdiff : idx + count - 1 - idx = count - 1 := by omega
    change State.setUsedSpan st segment idx count isZeroInit = _
    simp only [State.setUsedSpan, hmin, if_neg hclip, if_neg hclip', hdiff]
    by_cases hone : 1 < count
    · have hlt : idx < idx + count - 1 := by omega
      rw [if_pos hlt, hslices₃, if_pos hone]
      rfl
    · have hlt : ¬ idx < idx + count - 1 := by omega
      rw [if_neg hlt, hslices₃, if_neg hone]
      rfl
  have hslices : st'.slices = Function.update slices₃ head
      { slices₃ head with
        isCommitted := true
        isZeroInit := isZeroInit
        isHuge := (st.segments segment).kind = .huge } := by
    rw [hst']
  have hne : ∀ i, 0 < i → (⟨segment, idx + i⟩ : SlicePtr) ≠ head := by
    intro i hi heq
    simp only [hhead, SlicePtr.mk.injEq, true_and] at heq
    omega
  -- the head is written first and not touched by the later writes
  have hheadEntry : slices₃ head =
      page.withSpan count 0 (count * segmentSliceSize) := by
    have h2 : slices₂ head =
        page.withSpan count 0 (count * segmentSliceSize) := by
      rw [hslices₂, setBackOffsets_frame, hslices₁, Function.update_self]
      intro _
      simp only [hhead]
      omega
    rw [hslices₃]
    split
    · rw [Function.update_of_ne, h2]
      have hcase := hne (count - 1) (by omega)
      rw [show idx + (count - 1) = idx + count - 1 by omega] at hcase
      exact hcase.symm
    · exact h2
  have hback : ∀ i, 0 < i → i < count →
      i ≤ maxSliceOffsetCount ∨ i + 1 = count →
      (slices₃ ⟨segment, idx + i⟩).sliceOffset = i ∧
        (slices₃ ⟨segment, idx + i⟩).sliceCount = 0 ∧
          (slices₃ ⟨segment, idx + i⟩).blockSize = 1 := by
    intro i hpos hi hcase
    have hone : 1 < count := by omega
    rw [hslices₃, if_pos hone]
    by_cases hend : i + 1 = count
    · have hidx : (⟨segment, idx + i⟩ : SlicePtr) = last := by
        simp only [hlast, SlicePtr.mk.injEq, true_and]
        omega
      rw [hidx, Function.update_self]
      refine ⟨?_, rfl, rfl⟩
      simp only [PageFields.withSpan_sliceOffset]
      omega
    · have hneLast : (⟨segment, idx + i⟩ : SlicePtr) ≠ last := by
        intro heq
        simp only [hlast, SlicePtr.mk.injEq, true_and] at heq
        omega
      have hat := setBackOffsets_at slices₁ segment (idx + 1) 1
        (show i - 1 < extra by omega)
      rw [show idx + 1 + (i - 1) = idx + i by omega,
        show 1 + (i - 1) = i by omega] at hat
      rw [Function.update_of_ne hneLast, hslices₂, hat]
      exact ⟨rfl, rfl, rfl⟩
  refine ⟨⟨?_, ?_, ?_, ?_⟩, by rw [hst'], by rw [hst'], by rw [hst'],
    by rw [hst'], ?_⟩
  · rw [hslices, Function.update_self]
    simp only [hheadEntry, PageFields.withSpan_sliceCount]
  · rw [hslices, Function.update_self]
    simp only [hheadEntry, PageFields.withSpan_sliceOffset]
  · rw [hslices, Function.update_self]
    simp only [hheadEntry, PageFields.withSpan_blockSize]
    exact Nat.mul_pos hcount (by decide)
  · intro i hpos hi hcase
    rw [hslices, Function.update_of_ne (hne i hpos)]
    exact hback i hpos hi hcase
  · intro slice hout
    have hneHead : slice ≠ head := by
      rintro rfl
      have hcase := hout rfl
      simp only [hhead] at hcase
      omega
    have hneLast : slice ≠ last := by
      rintro rfl
      have hcase := hout rfl
      simp only [hlast] at hcase
      omega
    have h2 : slices₂ slice = st.slices slice := by
      rw [hslices₂, setBackOffsets_frame, hslices₁,
        Function.update_of_ne hneHead]
      intro heq
      have hcase := hout heq
      omega
    rw [hslices, Function.update_of_ne hneHead, hslices₃]
    split
    · rw [Function.update_of_ne hneLast, h2]
    · exact h2

theorem segmentSpanAllocate_cases (cfg : Config) (st : State)
    (segment idx count : ℕ) :
    ∃ (commit : CommitState × Os) (isZeroInit : Bool),
      let st₁ := st.setCommit segment commit
      let st₂ := st₁.setUsedSpan segment idx count isZeroInit
      segmentSpanAllocate cfg st segment idx count = (false, st₁) ∨
      segmentSpanAllocate cfg st segment idx count =
        (true, st₂.setSegment segment ((st₂.segments segment).withUsed
          ((st₂.segments segment).used + 1))) := by
  unfold segmentSpanAllocate
  simp only
  generalize segmentEnsureCommitted cfg (st.segments segment) st.os segment
    _ (count * segmentSliceSize) = result
  refine ⟨(result.commit, result.os),
    (st.segments segment).freeIsZero || result.isZero, ?_⟩
  cases result.ok with
  | false => exact .inl rfl
  | true => exact .inr rfl

namespace SpanLayout

variable {st : State} {tid : ℕ} {owned : Set ℕ}
  {tiles : ℕ → List (Tile SpanKind)} {lists : ℕ → List SlicePtr}
  {segment : ℕ} {before middle after : List (Tile SpanKind)}
  {tile : Tile SpanKind}

theorem headCount (h : SpanLayout st tid owned tiles lists)
    (howned : segment ∈ owned) (htile : tile ∈ tiles segment)
    (hkind : tile.kind ≠ .detached) :
    (st.slices ⟨segment, tile.start⟩).sliceCount = tile.count :=
  ((h.entry segment howned tile htile).head hkind).1

theorem head_free_iff (h : SpanLayout st tid owned tiles lists)
    (howned : segment ∈ owned) (htile : tile ∈ tiles segment)
    (hkind : tile.kind ≠ .detached) :
    (st.slices ⟨segment, tile.start⟩).blockSize = 0 ↔ tile.kind = .free :=
  ((h.entry segment howned tile htile).head hkind).2.2

theorem start_ne (h : SpanLayout st tid owned tiles lists)
    (howned : segment ∈ owned)
    (htiles : tiles segment = before ++ middle ++ after)
    {inner : Tile SpanKind} (hinner : inner ∈ middle)
    (htile : tile ∈ before ∨ tile ∈ after) : tile.start ≠ inner.start := by
  intro hstart
  have htiled := h.tiled segment howned
  have hmem : tile ∈ tiles segment ∧ inner ∈ tiles segment := by
    rw [htiles]
    simp only [List.mem_append]
    tauto
  have hpos := h.count_pos howned hmem.1
  have hpos' := h.count_pos howned hmem.2
  rw [htiles] at htiled
  have hout := htiled.outside htile hinner
  simp only [Tile.stop] at hout
  omega

/-- Taking a free span out of its queue. -/
theorem remove (h : SpanLayout st tid owned tiles lists)
    (howned : segment ∈ owned)
    (htiles : tiles segment = before ++ [tile] ++ after)
    (hfree : tile.kind = .free) :
    SpanLayout (segmentSpanRemoveFromQueue st tid ⟨segment, tile.start⟩)
      tid owned
      (Function.update tiles segment
        (before ++ [{ tile with kind := .detached }] ++ after))
      (Function.update lists (sliceBin tile.count)
        ((lists (sliceBin tile.count)).erase ⟨segment, tile.start⟩)) := by
  have htile : tile ∈ tiles segment := by
    rw [htiles]
    simp
  have hpos := h.count_pos howned htile
  have hcount := h.headCount howned htile (by rw [hfree]; decide)
  have hmem : (⟨segment, tile.start⟩ : SlicePtr) ∈
      lists (sliceBin tile.count) :=
    (h.mem_queue _ _).mpr ⟨howned, tile, htile, rfl, hfree, rfl⟩
  have hremove : segmentSpanRemoveFromQueue st tid ⟨segment, tile.start⟩ =
      spanQueueDelete st tid (sliceBin tile.count) ⟨segment, tile.start⟩ := by
    rw [segmentSpanRemoveFromQueue, hcount]
  rw [hremove]
  refine h.rewrite howned htiles (fun s _ => .refl _) ?_ ?_ ?_ ?_ ?_ ?_ ?_
  · intro a b hcover
    simpa [Tile.stop] using hcover
  · intro slice hout
    rw [spanQueueDelete_frame]
    · exact .refl _
    · rintro rfl
      have hcase := hout rfl tile (by simp)
      simp only [Tile.stop] at hcase
      omega
  · intro tile' htile'
    rw [List.mem_singleton] at htile'
    subst htile'
    trivial
  · intro tile' htile' hfree'
    rw [List.mem_singleton] at htile'
    subst htile'
    cases hfree'
  · intro tile' htile' hused
    rw [List.mem_singleton] at htile'
    subst htile'
    rw [hfree] at hused
    cases hused
  · have hfamily := h.queues.delete hmem
    have hspans : (spanQueueDelete st tid (sliceBin tile.count)
        ⟨segment, tile.start⟩).spans tid =
          Function.update (st.spans tid) (sliceBin tile.count)
            (deleteEnds st.links (st.spans tid (sliceBin tile.count))
              ⟨segment, tile.start⟩) := by
      simp [spanQueueDelete, State.setBlockSize]
    rw [hspans]
    exact hfamily
  · intro bin slice
    have hhead : (slice.segment = segment ∧
        ∃ inner ∈ [tile], inner.start = slice.idx) ↔
          slice = ⟨segment, tile.start⟩ := by
      simp only [List.mem_singleton, exists_eq_left, SlicePtr.ext_iff]
      constructor <;> rintro ⟨h1, h2⟩ <;> exact ⟨h1, h2.symm⟩
    have hnone : ¬ (slice.segment = segment ∧
        ∃ inner ∈ [{ tile with kind := SpanKind.detached }],
          inner.start = slice.idx ∧ inner.kind = .free ∧
            sliceBin inner.count = bin) := by
      rintro ⟨-, inner, hinner, -, hfree', -⟩
      rw [List.mem_singleton] at hinner
      subst hinner
      cases hfree'
    rw [hhead, or_iff_left hnone]
    by_cases hbin : bin = sliceBin tile.count
    · subst hbin
      rw [Function.update_self,
        (h.queues.queue _).nodup.mem_erase_iff, and_comm]
    · rw [Function.update_of_ne hbin]
      constructor
      · intro hslice
        refine ⟨hslice, ?_⟩
        rintro rfl
        exact hbin (h.queues.disjoint _ _ _ hslice hmem)
      · exact fun hslice => hslice.1

/-- Freeing a detached range that no free span touches. -/
theorem free (h : SpanLayout st tid owned tiles lists)
    (howned : segment ∈ owned)
    (htiles : tiles segment = before ++ middle ++ after)
    (hdetached : ∀ inner ∈ middle, inner.kind = .detached)
    {idx count : ℕ} (hcover : Tiles idx middle (idx + count))
    (hcount : 0 < count)
    (hneighbours : ∀ other, other ∈ before ∨ other ∈ after →
      other.kind = .free → other.stop ≠ idx ∧ other.start ≠ idx + count)
    (cfg : Config) (allowPurge : Bool) :
    SpanLayout (segmentSpanFree cfg st tid segment idx count allowPurge)
      tid owned
      (Function.update tiles segment
        (before ++ [⟨idx, count, .free⟩] ++ after))
      (Function.update lists (sliceBin count)
        (⟨segment, idx⟩ :: lists (sliceBin count))) := by
  have hne : (st.segments segment).threadId ≠ 0 := by
    rw [h.threadId segment howned]
    exact h.thread_ne
  have htiled := h.tiled segment howned
  rw [htiles, List.append_assoc] at htiled
  obtain ⟨a, -, hrest⟩ := tiles_append.mp htiled
  obtain ⟨b, hmid, hafter⟩ := tiles_append.mp hrest
  have hmiddle : middle ≠ [] := by
    rintro rfl
    have heq : idx = idx + count := hcover
    omega
  obtain ⟨rfl, rfl⟩ := Tiles.ends_eq hmiddle hmid hcover
  have hfits : a + count ≤ (st.segments segment).sliceEntries := hafter.le
  have hfreed := segmentSpanFree_spec cfg tid allowPurge
    (h.kind segment howned) hne hcount hfits
  set st' := segmentSpanFree cfg st tid segment a count allowPurge with hst'
  have hinside : ∀ i, a ≤ i → i < a + count → ∃ inner ∈ middle,
      inner.start ≤ i ∧ i < inner.stop := fun i hlo hhi =>
    hmid.exists_tile hlo hhi
  refine h.rewrite howned htiles (fun s _ => hfreed.commit.header s)
    ?_ ?_ ?_ ?_ ?_ ?_ ?_
  · intro c d hcd
    obtain ⟨rfl, rfl⟩ := Tiles.ends_eq hmiddle hmid hcd
    exact ⟨rfl, hcount, rfl⟩
  · intro slice hout
    have hskip : ∀ i, a ≤ i → i < a + count →
        slice ≠ ⟨segment, i⟩ := by
      intro i hlo hhi heq
      subst heq
      obtain ⟨inner, hinner, hin⟩ := hinside i hlo hhi
      have hcase := hout rfl inner hinner
      simp only at hcase
      omega
    exact hfreed.frame slice (hskip a le_rfl (by omega))
      (hskip (a + count - 1) (by omega) (by omega))
  · intro tile' htile'
    rw [List.mem_singleton] at htile'
    subst htile'
    exact hfreed.span
  · intro tile' htile' _ other hother hfree
    rw [List.mem_singleton] at htile'
    subst htile'
    simp only [List.mem_append, List.mem_singleton] at hother
    have hself : other = ⟨a, count, .free⟩ →
        a + count ≠ other.start ∧ other.stop ≠ a := by
      rintro rfl
      simp only [Tile.stop]
      omega
    have hside : other ∈ before ∨ other ∈ after →
        a + count ≠ other.start ∧ other.stop ≠ a := by
      intro hside
      obtain ⟨h1, h2⟩ := hneighbours other hside hfree
      exact ⟨h2.symm, h1⟩
    rcases hother with (hb | hs) | ha
    · exact hside (.inl hb)
    · exact hself hs
    · exact hside (.inr ha)
  · intro inner hinner hused
    rw [hdetached inner hinner] at hused
    cases hused
  · have hnotMem : ∀ j, (⟨segment, a⟩ : SlicePtr) ∉ lists j := by
      intro j
      apply h.notMem_queue
      intro tile htile hstart hfree
      obtain ⟨inner, hinner, hlo, hhi⟩ := hinside a le_rfl (by omega)
      have hmem : inner ∈ tiles segment := by
        rw [htiles]
        simp [hinner]
      have hbounds := (hmid.bounds hinner).1
      have heq := (h.tiled segment howned).eq_of_start htile hmem
        (by
          simp only at hstart
          omega)
      rw [heq, hdetached inner hinner] at hfree
      cases hfree
    rw [hfreed.links, hfreed.spans, Function.update_self]
    exact h.queues.push (sliceBin count) hnotMem
  · intro bin slice
    have hhead : (slice.segment = segment ∧
        ∃ inner ∈ [(⟨a, count, .free⟩ : Tile SpanKind)],
          inner.start = slice.idx ∧ inner.kind = .free ∧
            sliceBin inner.count = bin) ↔
        slice = ⟨segment, a⟩ ∧ sliceBin count = bin := by
      simp only [List.mem_singleton, exists_eq_left, SlicePtr.ext_iff,
        true_and]
      constructor
      · rintro ⟨h1, h2, h3⟩
        exact ⟨⟨h1, h2.symm⟩, h3⟩
      · rintro ⟨⟨h1, h2⟩, h3⟩
        exact ⟨h1, h2.symm, h3⟩
    have hkeep : slice ∈ lists bin → ¬ (slice.segment = segment ∧
        ∃ inner ∈ middle, inner.start = slice.idx) := by
      rintro hslice ⟨rfl, inner, hinner, hstart⟩
      obtain ⟨_, tile, htile, hstart', hfree, _⟩ :=
        (h.mem_queue bin slice).mp hslice
      have heq := (h.tiled _ howned).eq_of_start htile
        (show inner ∈ tiles slice.segment by
          rw [htiles]
          simp [hinner]) (by omega)
      rw [heq, hdetached inner hinner] at hfree
      cases hfree
    rw [hhead, and_iff_left_of_imp hkeep]
    by_cases hbin : bin = sliceBin count
    · subst hbin
      rw [Function.update_self, List.mem_cons]
      tauto
    · rw [Function.update_of_ne hbin]
      constructor
      · exact fun hslice => .inl hslice
      · rintro (hslice | ⟨-, heq⟩)
        · exact hslice
        · exact absurd heq.symm hbin

/-- Detached ranges and used spans are rewritten without touching the
queues. -/
theorem rewrite_unqueued {st' : State} {middle' : List (Tile SpanKind)}
    (h : SpanLayout st tid owned tiles lists)
    (howned : segment ∈ owned)
    (htiles : tiles segment = before ++ middle ++ after)
    (hheader : ∀ s ∈ owned, SameHeader (st.segments s) (st'.segments s))
    (hcover : ∀ a b, Tiles a middle b → Tiles a middle' b)
    (hframe : ∀ slice : SlicePtr,
      (slice.segment = segment → ∀ inner ∈ middle,
        slice.idx < inner.start ∨ inner.stop ≤ slice.idx) →
      SameSpan (st.slices slice) (st'.slices slice))
    (hentry : ∀ inner ∈ middle', SpanEntry st' segment inner)
    (hinfo : ∀ inner ∈ middle, inner.kind = .used → inner.start = 0 →
      ∃ inner' ∈ middle', inner'.start = 0 ∧ inner'.kind = .used)
    (hkind : ∀ inner ∈ middle, inner.kind ≠ .free)
    (hkind' : ∀ inner ∈ middle', inner.kind ≠ .free)
    (hlinks : ∀ bin, ∀ slice ∈ lists bin,
      st'.links.next slice = st.links.next slice ∧
        st'.links.prev slice = st.links.prev slice)
    (hspans : st'.spans tid = st.spans tid) :
    SpanLayout st' tid owned
      (Function.update tiles segment (before ++ middle' ++ after))
      lists := by
  refine h.rewrite howned htiles hheader hcover hframe hentry ?_ hinfo ?_ ?_
  · intro inner hinner hfree
    exact absurd hfree (hkind' inner hinner)
  · rw [hspans]
    exact h.queues.congr hlinks
  · intro bin slice
    have hnone : ¬ (slice.segment = segment ∧ ∃ inner ∈ middle',
        inner.start = slice.idx ∧ inner.kind = .free ∧
          sliceBin inner.count = bin) := by
      rintro ⟨-, inner, hinner, -, hfree, -⟩
      exact hkind' inner hinner hfree
    rw [or_iff_left hnone, iff_self_and]
    rintro hslice ⟨rfl, inner, hinner, hstart⟩
    obtain ⟨_, other, hother, hstart', hfree, _⟩ :=
      (h.mem_queue bin slice).mp hslice
    have heq := (h.tiled _ howned).eq_of_start hother
      (show inner ∈ tiles slice.segment by
        rw [htiles]
        simp [hinner]) (by omega)
    exact hkind inner hinner (heq ▸ hfree)

/-- Turning a detached range into a page. -/
theorem setUsed (h : SpanLayout st tid owned tiles lists)
    (howned : segment ∈ owned) {idx count : ℕ}
    (htiles : tiles segment =
      before ++ [⟨idx, count, .detached⟩] ++ after) (isZeroInit : Bool) :
    SpanLayout (st.setUsedSpan segment idx count isZeroInit) tid owned
      (Function.update tiles segment
        (before ++ [⟨idx, count, .used⟩] ++ after)) lists := by
  have htile : (⟨idx, count, .detached⟩ : Tile SpanKind) ∈
      tiles segment := by
    rw [htiles]
    simp
  obtain ⟨hused, hsegments, hlinks, hspans, -, hframe⟩ :=
    setUsedSpan_spec isZeroInit (h.count_pos howned htile)
      (h.stop_le howned htile)
  refine h.rewrite_unqueued howned htiles ?_ ?_ ?_ ?_ ?_ ?_ ?_ ?_ ?_
  · intro s _
    rw [hsegments]
    exact .refl _
  · intro a b hab
    exact hab
  · intro slice hout
    rw [hframe slice]
    · exact .refl _
    · intro heq
      have hcase := hout heq _ (List.mem_singleton_self _)
      simpa [Tile.stop] using hcase
  · intro inner hinner
    rw [List.mem_singleton] at hinner
    subst hinner
    exact hused
  · intro inner hinner hkind
    rw [List.mem_singleton] at hinner
    subst hinner
    cases hkind
  · intro inner hinner
    rw [List.mem_singleton] at hinner
    subst hinner
    simp
  · intro inner hinner
    rw [List.mem_singleton] at hinner
    subst hinner
    simp
  · intro bin slice _
    rw [hlinks]
    exact ⟨rfl, rfl⟩
  · rw [hspans]

end SpanLayout

end Palloc
