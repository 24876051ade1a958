import Palloc.SegmentAlloc
import Palloc.SpanInvariant
import Mathlib.Data.Finset.Lattice.Fold

/-!
# Finding and allocating spans

The search over the span queues returns a free span that is large enough,
and ends because the queues are finite.  Allocation then takes the span,
splits it, turns it into a page, and gives it back when the commit fails; all
of these keep the slice structure.  The last part of `pa_segment_alloc` sets
up the structure of a new segment.
-/

namespace Palloc

open LinkedQueue IntervalTiling

/-! ## The search -/

section Search

variable {st : State} {sliceCount reqArenaId : ℕ}

theorem findInQueue_none (fuel : ℕ) :
    findInQueue st sliceCount reqArenaId fuel none = some none := by
  cases fuel <;> rfl

theorem findInQueue_found {before : Option SlicePtr} {l : List SlicePtr}
    (hlinked : Linked st.links before l none) {fuel : ℕ} {slice : SlicePtr}
    (hfound : findInQueue st sliceCount reqArenaId fuel l.head? =
      some (some slice)) :
    slice ∈ l ∧ sliceCount ≤ (st.slices slice).sliceCount := by
  induction l generalizing before fuel with
  | nil =>
      rw [List.head?_nil, findInQueue_none] at hfound
      cases hfound
  | cons head rest ih =>
      obtain ⟨-, hnext, hrest⟩ := hlinked
      rw [List.head?_cons] at hfound
      cases fuel with
      | zero => cases hfound
      | succ fuel =>
          unfold findInQueue at hfound
          split at hfound
          · next hfits =>
              simp only [Option.some.injEq] at hfound
              subst hfound
              exact ⟨by simp, hfits.1⟩
          · rw [hnext, Option.or_none] at hfound
            obtain ⟨hmem, hle⟩ := ih hrest hfound
            exact ⟨by simp [hmem], hle⟩

variable {tid : ℕ} {lists : ℕ → List SlicePtr}

theorem findSpan_found (hqueues : IsFamily st.links (st.spans tid) lists)
    {fuel bins bin found : ℕ} {slice : SlicePtr}
    (hfound : findSpan st tid sliceCount reqArenaId fuel bins bin =
      some (some (found, slice))) :
    slice ∈ lists found ∧ sliceCount ≤ (st.slices slice).sliceCount := by
  induction bins generalizing bin with
  | zero => cases hfound
  | succ bins ih =>
      unfold findSpan at hfound
      rw [(hqueues.queue bin).first] at hfound
      split at hfound
      · cases hfound
      · next slice' hslice =>
          simp only [Option.some.injEq, Prod.mk.injEq] at hfound
          obtain ⟨rfl, rfl⟩ := hfound
          exact findInQueue_found (hqueues.queue bin).linked hslice
      · exact ih hfound

end Search

/-! ## Allocation -/

namespace SpanInvariant

variable {st st' : State} {tid : ℕ} {owned : Set ℕ}
  {tiles : ℕ → List (Tile SpanKind)} {lists : ℕ → List SlicePtr}

theorem freeHead_of_mem (h : SpanInvariant st .idle tid owned tiles lists)
    {bin : ℕ} {slice : SlicePtr} (hmem : slice ∈ lists bin) :
    slice.segment ∈ owned ∧ FreeHead st slice ∧
      sliceBin (st.slices slice).sliceCount = bin := by
  obtain ⟨howned, tile, htile, hstart, hfree, hbin⟩ :=
    (h.layout.mem_queue bin slice).mp hmem
  obtain ⟨hcount, -, hsize⟩ := h.head howned htile
  rw [hstart] at hcount hsize
  refine ⟨howned, ⟨?_, hsize.mpr hfree⟩, ?_⟩
  · exact (h.spanHead_iff howned _).mpr ⟨tile, htile, hstart⟩
  · rw [← hbin, ← hcount]

end SpanInvariant

/-- What the four smaller steps of an allocation keep, the whole allocation
keeps too. -/
structure AllocationRules (cfg : Config) (tid : ℕ) (owned : Set ℕ)
    (P : State → Pending → Prop) : Prop where
  spans : ∀ {st pending}, P st pending →
    ∃ tiles lists, SpanInvariant st pending tid owned tiles lists
  take : ∀ {st slice}, P st .idle → slice.segment ∈ owned →
    FreeHead st slice →
      P (segmentSpanRemoveFromQueue st tid slice) (.taken slice)
  split : ∀ {st slice sliceCount}, P st (.taken slice) → 0 < sliceCount →
    P (segmentSliceSplit cfg st tid slice sliceCount) (.cut slice)
  allocate : ∀ {st st' pending slice ok}, P st pending →
    pending.slice = some slice →
    segmentSpanAllocate cfg st slice.segment slice.idx
      (st.slices slice).sliceCount = (ok, st') →
      P st' (if ok then .idle else pending)
  giveBack : ∀ {st pending slice}, P st pending →
    pending.slice = some slice →
      P (segmentSpanFreeCoalesce cfg st tid slice).2 .idle

namespace AllocationRules

variable {cfg : Config} {tid : ℕ} {owned : Set ℕ}
  {P : State → Pending → Prop} {st st' : State}

theorem allocateFound (hrules : AllocationRules cfg tid owned P)
    (hstart : P st .idle) {bin : ℕ} {slice : SlicePtr}
    (howned : slice.segment ∈ owned) (hhead : FreeHead st slice)
    (hbin : sliceBin (st.slices slice).sliceCount = bin) {sliceCount : ℕ}
    (hcount : 0 < sliceCount) :
    P (Palloc.allocateFound cfg st tid bin slice sliceCount).2 .idle := by
  have htaken := hrules.take hstart howned hhead
  rw [segmentSpanRemoveFromQueue, hbin] at htaken
  unfold Palloc.allocateFound
  simp only
  set st₁ := spanQueueDelete st tid bin slice with hst₁
  have hsplit : ∃ pending, pending.slice = some slice ∧
      P (if sliceCount < (st₁.slices slice).sliceCount then
          segmentSliceSplit cfg st₁ tid slice sliceCount
        else st₁) pending := by
    split
    · exact ⟨.cut slice, rfl, hrules.split htaken hcount⟩
    · exact ⟨.taken slice, rfl, htaken⟩
  rcases hsplit with ⟨pending, hpending, hcut⟩
  set st₂ := if sliceCount < (st₁.slices slice).sliceCount then
      segmentSliceSplit cfg st₁ tid slice sliceCount
    else st₁ with hst₂
  rcases hresult : segmentSpanAllocate cfg st₂ slice.segment slice.idx
    (st₂.slices slice).sliceCount with ⟨ok, st₃⟩
  have hallocated := hrules.allocate hcut hpending hresult
  cases ok with
  | true => simpa using hallocated
  | false =>
      simp only [Bool.false_eq_true, if_false] at hallocated ⊢
      exact hrules.giveBack hallocated hpending

/-- `pa_segments_page_find_and_allocate`, with any outcome of the commit. -/
theorem pageAlloc (hrules : AllocationRules cfg tid owned P)
    (hstart : P st .idle) {fuel sliceCount reqArenaId : ℕ}
    {result : Option SlicePtr}
    (hresult : segmentsPageFindAndAllocate cfg fuel st tid sliceCount
      reqArenaId = some (result, st')) : P st' .idle := by
  rcases hrules.spans hstart with ⟨tiles, lists, h⟩
  unfold segmentsPageFindAndAllocate at hresult
  simp only at hresult
  split at hresult
  · cases hresult
  · simp only [Option.some.injEq, Prod.mk.injEq] at hresult
    rw [← hresult.2]
    exact hstart
  · next bin slice hfound =>
      simp only [Option.some.injEq] at hresult
      have hmem := (findSpan_found h.layout.queues hfound).1
      rcases h.freeHead_of_mem hmem with ⟨howned, hhead, hbin⟩
      have hpos : 0 < if sliceCount = 0 then 1 else sliceCount := by
        split <;> omega
      have hstep := hrules.allocateFound hstart howned hhead hbin hpos
      rw [hresult] at hstep
      exact hstep

end AllocationRules

theorem spanInvariant_allocationRules (cfg : Config) (tid : ℕ)
    (owned : Set ℕ) :
    AllocationRules cfg tid owned fun st pending =>
      ∃ tiles lists, SpanInvariant st pending tid owned tiles lists := by
  constructor
  · intro st pending h
    exact h
  · intro st slice h howned hhead
    rcases h with ⟨tiles, lists, h⟩
    rcases h.take howned hhead with ⟨tiles', lists', htaken, -⟩
    exact ⟨tiles', lists', htaken⟩
  · intro st slice sliceCount h hcount
    rcases h with ⟨tiles, lists, h⟩
    rcases h.split cfg hcount with ⟨tiles', lists', hcut, -⟩
    exact ⟨tiles', lists', hcut⟩
  · intro st st' pending slice ok h hpending hresult
    rcases h with ⟨tiles, lists, h⟩
    rcases h.allocate hpending hresult with ⟨tiles', hallocated, -⟩
    exact ⟨tiles', lists, hallocated⟩
  · intro st pending slice h hpending
    rcases h with ⟨tiles, lists, h⟩
    rcases h.giveBack hpending cfg with ⟨-, tiles', lists', hback, -⟩
    exact ⟨tiles', lists', hback⟩

namespace SpanInvariant

variable {st st' : State} {tid : ℕ} {owned : Set ℕ}
  {tiles : ℕ → List (Tile SpanKind)} {lists : ℕ → List SlicePtr}

theorem pageAlloc (h : SpanInvariant st .idle tid owned tiles lists)
    {cfg : Config} {fuel sliceCount reqArenaId : ℕ}
    {result : Option SlicePtr}
    (hresult : segmentsPageFindAndAllocate cfg fuel st tid sliceCount
      reqArenaId = some (result, st')) :
    ∃ tiles' lists', SpanInvariant st' .idle tid owned tiles' lists' :=
  (spanInvariant_allocationRules cfg tid owned).pageAlloc
    ⟨tiles, lists, h⟩ hresult

end SpanInvariant

/-! ## New segments -/

/-- A new segment joins: its info span is used and the rest detached. -/
theorem SpanLayout.adopt {st st' : State} {tid segment n : ℕ}
    {owned : Set ℕ} {tiles : ℕ → List (Tile SpanKind)}
    {lists : ℕ → List SlicePtr} (h : SpanLayout st tid owned tiles lists)
    (hnew : segment ∉ owned)
    (hkind : (st'.segments segment).kind = .normal)
    (hthread : (st'.segments segment).threadId = tid) (hpos : 0 < n)
    (hlt : n < (st'.segments segment).sliceEntries)
    (hused : UsedSpan st' segment 0 n)
    (hslices : ∀ slice : SlicePtr, slice.segment ≠ segment →
      st'.slices slice = st.slices slice)
    (hsegments : ∀ s, s ≠ segment → st'.segments s = st.segments s)
    (hlinks : st'.links = st.links) (hspans : st'.spans = st.spans) :
    SpanLayout st' tid (insert segment owned)
      (Function.update tiles segment [⟨0, n, .used⟩,
        ⟨n, (st'.segments segment).sliceEntries - n, .detached⟩])
      lists := by
  have hne : ∀ s ∈ owned, s ≠ segment := by
    rintro s hs rfl
    exact hnew hs
  have hother : ∀ s ∈ owned, Function.update tiles segment
      [⟨0, n, .used⟩, ⟨n, (st'.segments segment).sliceEntries - n,
        .detached⟩] s = tiles s := fun s hs =>
    Function.update_of_ne (hne s hs) _ _
  constructor
  · exact h.thread_ne
  · rintro s (rfl | hs)
    · exact hkind
    · rw [hsegments s (hne s hs)]
      exact h.kind s hs
  · rintro s (rfl | hs)
    · exact hthread
    · rw [hsegments s (hne s hs)]
      exact h.threadId s hs
  · rintro s (rfl | hs)
    · rw [Function.update_self]
      refine ⟨rfl, hpos, by simp [Tile.stop], by simp only; omega, ?_⟩
      simp only [tiles_nil, Tile.stop]
      omega
    · rw [hother s hs, hsegments s (hne s hs)]
      exact h.tiled s hs
  · rintro s (rfl | hs) tile htile
    · rw [Function.update_self] at htile
      simp only [List.mem_cons, List.not_mem_nil, or_false] at htile
      rcases htile with rfl | rfl
      · exact hused
      · trivial
    · rw [hother s hs] at htile
      apply (h.entry s hs tile htile).congr (h.count_pos hs htile)
      intro idx _ _
      rw [hslices _ (hne s hs)]
      exact .refl _
  · rintro s (rfl | hs)
    · rw [Function.update_self]
      exact ⟨_, List.mem_cons_self, rfl, rfl⟩
    · rw [hother s hs]
      exact h.info s hs
  · rintro s (rfl | hs) tile htile other hothers hfree hfree'
    · rw [Function.update_self] at htile
      simp only [List.mem_cons, List.not_mem_nil, or_false] at htile
      rcases htile with rfl | rfl <;> cases hfree
    · rw [hother s hs] at htile hothers
      exact h.apart s hs tile htile other hothers hfree hfree'
  · rw [hlinks, hspans]
    exact h.queues
  · intro bin slice
    rw [h.mem_queue]
    by_cases hcase : slice.segment = segment
    · rw [hcase, Function.update_self]
      constructor
      · rintro ⟨hs, -⟩
        exact absurd hs hnew
      · rintro ⟨-, tile, htile, -, hfree, -⟩
        simp only [List.mem_cons, List.not_mem_nil, or_false] at htile
        rcases htile with rfl | rfl <;> cases hfree
    · rw [Function.update_of_ne hcase, Set.mem_insert_iff,
        or_iff_right hcase]

/-- The info span of a new normal segment is reserved; what is left to do is
to free the rest. -/
theorem SpanInvariant.reserveInfo {st st' : State} {tid segment : ℕ}
    {owned : Set ℕ} {tiles : ℕ → List (Tile SpanKind)}
    {lists : ℕ → List SlicePtr}
    (h : SpanInvariant st .idle tid owned tiles lists)
    (hnew : segment ∉ owned)
    (hkind : (st.segments segment).kind = .normal)
    (hthread : (st.segments segment).threadId = tid)
    (hpos : 0 < (st.segments segment).segmentInfoSlices)
    (hlt : (st.segments segment).segmentInfoSlices <
      (st.segments segment).sliceEntries)
    {cfg : Config} {guardSlices : ℕ} {page : Option SlicePtr}
    (hresult : segmentInitSpans cfg st tid segment guardSlices =
      some (page, st')) :
    ∃ st₁ commit,
      SpanLayout st₁ tid (insert segment owned)
        (Function.update tiles segment
          [⟨0, (st.segments segment).segmentInfoSlices, .used⟩,
            ⟨(st.segments segment).segmentInfoSlices,
              (st.segments segment).sliceEntries -
                (st.segments segment).segmentInfoSlices, .detached⟩])
        lists ∧
      st' = segmentSpanFree cfg st₁ tid segment
        (st.segments segment).segmentInfoSlices
        ((st.segments segment).sliceEntries -
          (st.segments segment).segmentInfoSlices) false ∧
      st₁.segments segment =
        ((st.segments segment).withCommit commit).withUsed 0 ∧
      (∀ s, s ≠ segment → st₁.segments s = st.segments s) ∧
      (∀ slice : SlicePtr, slice.segment ≠ segment →
        st₁.slices slice = st.slices slice) ∧
      st₁.links = st.links ∧ st₁.spans = st.spans := by
  set n := (st.segments segment).segmentInfoSlices with hn
  obtain ⟨commit, zero, hcases⟩ := segmentSpanAllocate_cases cfg st segment
    0 n
  set st₁ := st.setCommit segment commit with hst₁
  have hcommit : OnlyCommit st st₁ := onlyCommit_setCommit _ _ _
  have hinfo : st₁.segments segment =
      (st.segments segment).withCommit commit.1 := by
    simp [hst₁, State.setCommit]
  obtain ⟨hused, hsegments, hlinks, hspans, -, hframe⟩ :=
    setUsedSpan_spec zero hpos (show 0 + n ≤
      (st₁.segments segment).sliceEntries by
        rw [(hcommit.header segment).sliceEntries]
        omega)
  set st₂ := st₁.setUsedSpan segment 0 n zero with hst₂
  set info := ((st.segments segment).withCommit commit.1).withUsed 0
    with hinfoDef
  have hresult' : st' = segmentSpanFree cfg (st₂.setSegment segment info) tid
      segment n ((st.segments segment).sliceEntries - n) false := by
    unfold segmentInitSpans at hresult
    rcases hcases with hfailed | hdone
    · simp [← hn, hfailed] at hresult
    · simp only [← hn, hdone, ← hst₂, not_true_eq_false, if_false,
        State.setSegment_self, State.setSegment_setSegment,
        SegmentInfo.withUsed_withUsed, hsegments, hinfo, ← hinfoDef]
        at hresult
      have hnormal : info.kind = .normal := hkind
      simp only [hnormal, Option.some.injEq, Prod.mk.injEq] at hresult
      exact hresult.2.symm
  set st₃ := st₂.setSegment segment info with hst₃
  have hdata : st₃.segments segment = info := by simp [hst₃]
  have hothers : ∀ s, s ≠ segment → st₃.segments s = st.segments s := by
    intro s hs
    rw [hst₃, State.setSegment_ne _ _ hs, hsegments, hst₁]
    simp [State.setCommit, State.setSegment, Function.update, hs]
  have hslices : ∀ slice : SlicePtr, slice.segment ≠ segment →
      st₃.slices slice = st.slices slice := by
    intro slice hne
    exact hframe slice fun heq => absurd heq hne
  have hentries : (st₃.segments segment).sliceEntries =
      (st.segments segment).sliceEntries := by
    rw [hdata]
    rfl
  have hjoined := h.layout.adopt hnew
    (show (st₃.segments segment).kind = .normal by rw [hdata]; exact hkind)
    (show (st₃.segments segment).threadId = tid by
      rw [hdata]
      exact hthread) hpos
    (show n < (st₃.segments segment).sliceEntries by
      rw [hdata]
      exact hlt) (⟨hused.sliceCount, hused.sliceOffset, hused.blockSize_pos,
        hused.back⟩) hslices hothers hlinks hspans
  rw [hentries] at hjoined
  exact ⟨st₃, commit.1, hjoined, hresult', hdata, hothers, hslices, hlinks,
    hspans⟩

/-- A new normal segment is one used span for its info and one free span. -/
theorem SpanInvariant.newSegment {st st' : State} {tid segment : ℕ}
    {owned : Set ℕ} {tiles : ℕ → List (Tile SpanKind)}
    {lists : ℕ → List SlicePtr}
    (h : SpanInvariant st .idle tid owned tiles lists)
    (hnew : segment ∉ owned)
    (hkind : (st.segments segment).kind = .normal)
    (hthread : (st.segments segment).threadId = tid)
    (hpos : 0 < (st.segments segment).segmentInfoSlices)
    (hlt : (st.segments segment).segmentInfoSlices <
      (st.segments segment).sliceEntries)
    {cfg : Config} {guardSlices : ℕ} {page : Option SlicePtr}
    (hresult : segmentInitSpans cfg st tid segment guardSlices =
      some (page, st')) :
    ∃ lists', SpanInvariant st' .idle tid (insert segment owned)
      (Function.update tiles segment
        [⟨0, (st.segments segment).segmentInfoSlices, .used⟩,
          ⟨(st.segments segment).segmentInfoSlices,
            (st.segments segment).sliceEntries -
              (st.segments segment).segmentInfoSlices, .free⟩]) lists' := by
  obtain ⟨st₁, commit, hjoined, hresult', hdata, hothers, -, -, -⟩ :=
    h.reserveInfo hnew hkind hthread hpos hlt hresult
  set n := (st.segments segment).segmentInfoSlices with hn
  have hentries : (st₁.segments segment).sliceEntries =
      (st.segments segment).sliceEntries := by
    rw [hdata]
    rfl
  have hsplit : Function.update tiles segment [⟨0, n, .used⟩,
      ⟨n, (st.segments segment).sliceEntries - n, .detached⟩] segment =
        [⟨0, n, .used⟩] ++ [⟨n, (st.segments segment).sliceEntries - n,
          .detached⟩] ++ [] := by
    rw [Function.update_self]
    rfl
  have hcover : Tiles n [(⟨n, (st.segments segment).sliceEntries - n,
      .detached⟩ : Tile SpanKind)]
      (n + ((st.segments segment).sliceEntries - n)) :=
    ⟨rfl, by simp only; omega, rfl⟩
  have hneighbours : ∀ other, other ∈ [(⟨0, n, .used⟩ : Tile SpanKind)] ∨
      other ∈ [] → other.kind = .free → other.stop ≠ n ∧
        other.start ≠ n + ((st.segments segment).sliceEntries - n) := by
    intro other hother hfree
    simp only [List.mem_singleton, List.not_mem_nil, or_false] at hother
    subst hother
    cases hfree
  have hlayout := hjoined.free (Set.mem_insert _ _) hsplit (by simp) hcover
    (by omega) hneighbours cfg false
  rw [Function.update_idem] at hlayout
  have hfreed := (segmentSpanFree_spec cfg tid false
    (hjoined.kind _ (Set.mem_insert _ _))
    (hjoined.threadId_ne (Set.mem_insert _ _))
    (show 0 < (st.segments segment).sliceEntries - n by omega)
    (show n + ((st.segments segment).sliceEntries - n) ≤
      (st₁.segments segment).sliceEntries by
        rw [hentries]
        omega)).commit
  rw [← hresult'] at hlayout hfreed
  refine ⟨_, hlayout, ?_, ?_, ?_, ?_⟩
  · rintro s (rfl | hs)
    · rw [Function.update_self, hfreed.used, hdata]
      simp
    · have hne : s ≠ segment := by
        rintro rfl
        exact hnew hs
      rw [Function.update_of_ne hne, hfreed.used, hothers s hne]
      exact h.used s hs
  · rintro s (rfl | hs) tile htile hkind'
    · rw [Function.update_self] at htile
      simp only [List.mem_cons, List.not_mem_nil, or_false] at htile
      rcases htile with rfl | rfl <;> cases hkind'
    · have hne : s ≠ segment := by
        rintro rfl
        exact hnew hs
      rw [Function.update_of_ne hne] at htile
      exact absurd hkind' (h.not_detached hs htile)
  · intro slice hslice
    cases hslice
  · intro slice hslice
    cases hslice

/-! ## A first segment -/

/-- The header of a segment of thread 1 whose info slice is committed. -/
def firstInfo : SegmentInfo where
  memid := ⟨.os, 0, 0, false, false, false, false⟩
  allowDecommit := true
  allowPurge := true
  segmentSize := segmentSize
  commit :=
    { purgeExpire := 0
      purgeDelayMs := 10
      purgeMask := CommitMask.createEmpty
      commitMask := CommitMask.create 0 1 }
  wasReclaimed := false
  dontFree := false
  freeIsZero := false
  abandoned := 0
  abandonedVisits := 0
  used := 0
  segmentSlices := slicesPerSegment
  segmentInfoSlices := 1
  kind := .normal
  sliceEntries := slicesPerSegment
  threadId := 1

/-- No segment in use; the first commit will succeed and no other. -/
def emptyState : State where
  segments := fun _ => firstInfo
  slices := fun _ => PageFields.zero
  links := ⟨fun _ => none, fun _ => none⟩
  spans := fun _ _ => Ends.empty
  os := ⟨fun n => ⟨n = 0, false, false, 0⟩, 0, fun _ => false⟩

theorem emptyState_invariant :
    SpanInvariant emptyState .idle 1 ∅ (fun _ => []) (fun _ => []) := by
  have hlayout : SpanLayout emptyState 1 ∅ (fun _ => []) (fun _ => []) := by
    refine ⟨by decide, by simp, by simp, by simp, by simp, by simp,
      by simp, ⟨fun _ => .nil _, by simp⟩, by simp⟩
  refine ⟨hlayout, fun s hs => absurd hs (Set.notMem_empty s),
    fun s hs => absurd hs (Set.notMem_empty s), ?_, ?_⟩
  · intro slice hslice
    cases hslice
  · intro slice hslice
    cases hslice

def firstState : State :=
  ((segmentInitSpans {} emptyState 1 1 0).map (·.2)).getD emptyState

theorem firstState_invariant :
    ∃ tiles lists, SpanInvariant firstState .idle 1 {1} tiles lists := by
  have hsome : (segmentInitSpans {} emptyState 1 1 0).isSome := by
    decide +kernel
  obtain ⟨⟨page, st⟩, hresult⟩ := Option.isSome_iff_exists.mp hsome
  have hst : firstState = st := by
    simp [firstState, hresult]
  obtain ⟨lists, hstep⟩ := emptyState_invariant.newSegment
    (Set.notMem_empty 1) rfl rfl (by decide) (by decide) hresult
  rw [insert_empty_eq] at hstep
  rw [hst]
  exact ⟨_, lists, hstep⟩

def pageState : State :=
  ((segmentsPageFindAndAllocate {} 1 firstState 1 8 0).map (·.2)).getD
    firstState

theorem pageState_eq : ∃ page,
    segmentsPageFindAndAllocate {} 1 firstState 1 8 0 =
      some (page, pageState) := by
  have hsome : (segmentsPageFindAndAllocate {} 1 firstState 1 8 0).isSome := by
    decide +kernel
  obtain ⟨⟨page, st⟩, hresult⟩ := Option.isSome_iff_exists.mp hsome
  refine ⟨page, ?_⟩
  unfold pageState
  rw [hresult]
  rfl

theorem pageState_invariant :
    ∃ tiles lists, SpanInvariant pageState .idle 1 {1} tiles lists := by
  obtain ⟨tiles, lists, h⟩ := firstState_invariant
  obtain ⟨page, hresult⟩ := pageState_eq
  exact h.pageAlloc hresult

theorem pageState_usedHead : UsedHead pageState ⟨1, 1⟩ := by
  have hinfo : (pageState.slices ⟨1, 0⟩).sliceCount = 1 := by
    decide +kernel
  constructor
  · have hnext := SpanHead.next (@SpanHead.first pageState 1)
      (by decide +kernel)
    rw [hinfo] at hnext
    exact hnext
  · decide +kernel

end Palloc
