import Palloc.SpanAllocation
import Palloc.SpanExtension

/-!
# Runs of the span operations

A run starts in any state with the slice structure and takes any number of
steps: allocating, freeing and extending pages, and between them the smaller
steps that allocation is made of.  The structure holds in every state of the
run, and says where the head before a span is found.
-/

namespace Palloc

open LinkedQueue IntervalTiling Relation

/-- A change of the data of a page and of its queue fields. -/
def State.writePage (st : State) (slice : SlicePtr) (page : PageFields)
    (next prev : Option SlicePtr) (os : Os) : State :=
  { st.setSlice slice page with
    links := (st.links.setNext (some slice) next).setPrev (some slice) prev
    os := os }

/-- A page keeps its place when its data changes, also when it is given up
and only its slices stay reserved. -/
theorem SpanLayout.writePage {st : State} {tid : ℕ} {owned : Set ℕ}
    {tiles : ℕ → List (Tile SpanKind)} {lists : ℕ → List SlicePtr}
    {before after : List (Tile SpanKind)} {slice : SlicePtr} {count : ℕ}
    (h : SpanLayout st tid owned tiles lists) (howned : slice.segment ∈ owned)
    (hsplit : tiles slice.segment =
      before ++ [⟨slice.idx, count, .used⟩] ++ after)
    {kind : SpanKind} (hfree : kind ≠ .free)
    (hfirst : slice.idx = 0 → kind = .used) (page : PageFields)
    (next prev : Option SlicePtr) (os : Os)
    (hentry : SpanEntry (st.writePage slice page next prev os) slice.segment
      ⟨slice.idx, count, kind⟩) :
    SpanLayout (st.writePage slice page next prev os) tid owned
      (Function.update tiles slice.segment
        (before ++ [⟨slice.idx, count, kind⟩] ++ after)) lists := by
  have hmem : (⟨slice.idx, count, .used⟩ : Tile SpanKind) ∈
      tiles slice.segment := by
    rw [hsplit]
    simp
  have hpos : 0 < count := h.count_pos howned hmem
  refine h.rewrite_unqueued howned hsplit (fun s _ => .refl _)
    (fun _ _ hab => hab) ?_ ?_ ?_ ?_ ?_ ?_ rfl
  · intro other hout
    apply sameSpan_setSlice
    rintro rfl
    have hcase := hout rfl _ (List.mem_singleton_self _)
    simp only [Tile.stop] at hcase
    omega
  · intro inner hinner
    rw [List.mem_singleton] at hinner
    subst hinner
    exact hentry
  · intro inner hinner _ hstart
    rw [List.mem_singleton] at hinner
    subst hinner
    exact ⟨_, List.mem_singleton_self _, hstart, hfirst hstart⟩
  · simp
  · intro inner hinner
    rw [List.mem_singleton] at hinner
    subst hinner
    exact hfree
  · intro bin other hother
    have hne : ¬ slice = other := by
      rintro rfl
      refine h.notMem_queue ?_ bin hother
      intro tile htile hstart hkind
      have hsame := (h.tiled _ howned).eq_of_start htile hmem hstart
      rw [hsame] at hkind
      cases hkind
    simp [State.writePage, Links.next_setNext, Links.prev_setPrev, hne]

namespace SpanInvariant

variable {st : State} {tid : ℕ} {owned : Set ℕ}
  {tiles : ℕ → List (Tile SpanKind)} {lists : ℕ → List SlicePtr}

theorem used_notMem (h : SpanInvariant st .idle tid owned tiles lists)
    {slice : SlicePtr} (howned : slice.segment ∈ owned)
    (hhead : UsedHead st slice) (bin : ℕ) : slice ∉ lists bin := by
  apply h.layout.notMem_queue
  intro tile htile hstart hfree
  have hzero := (h.head howned htile).2.2.mpr hfree
  rw [hstart] at hzero
  have hpos := hhead.2
  change (st.slices slice).blockSize = 0 at hzero
  omega

/-- The program works with a page. -/
theorem usePage (h : SpanInvariant st .idle tid owned tiles lists)
    {slice : SlicePtr} (howned : slice.segment ∈ owned)
    (hhead : UsedHead st slice) {page : PageFields}
    (next prev : Option SlicePtr) (os : Os)
    (hcount : page.sliceCount = (st.slices slice).sliceCount)
    (hoffset : page.sliceOffset = (st.slices slice).sliceOffset)
    (hsize : 0 < page.blockSize) :
    SpanInvariant (st.writePage slice page next prev os) .idle tid owned
      tiles lists := by
  obtain ⟨before, after, count, hsplit, hcount'⟩ :=
    h.usedHead_tile howned hhead
  have hmem : (⟨slice.idx, count, .used⟩ : Tile SpanKind) ∈
      tiles slice.segment := by
    rw [hsplit]
    simp
  have hused := (h.layout.entry _ howned _ hmem).used rfl
  have hself : (st.writePage slice page next prev os).slices slice = page :=
    State.setSlice_self st slice page
  have hentry : UsedSpan (st.writePage slice page next prev os)
      slice.segment slice.idx count := by
    refine ⟨?_, ?_, ?_, ?_⟩
    · exact (congrArg PageFields.sliceCount hself).trans
        (hcount.trans hused.sliceCount)
    · exact (congrArg PageFields.sliceOffset hself).trans
        (hoffset.trans hused.sliceOffset)
    · exact hsize.trans_eq (congrArg PageFields.blockSize hself).symm
    · intro i hpos hi hback
      have hne : (⟨slice.segment, slice.idx + i⟩ : SlicePtr) ≠ slice := by
        intro heq
        have hidx := congrArg SlicePtr.idx heq
        simp only at hidx
        omega
      have hsame : (st.writePage slice page next prev os).slices
          ⟨slice.segment, slice.idx + i⟩ =
            st.slices ⟨slice.segment, slice.idx + i⟩ :=
        State.setSlice_ne st page hne
      rw [hsame]
      exact hused.back i hpos hi hback
  have hlayout := h.layout.writePage howned hsplit (by simp) (fun _ => rfl)
    page next prev os hentry
  rw [← hsplit, Function.update_eq_self] at hlayout
  refine ⟨hlayout, h.used, h.detached, ?_, ?_⟩
  · intro other hpending
    cases hpending
  · intro other hpending
    cases hpending

/-- Freeing a page. -/
theorem pageClear (h : SpanInvariant st .idle tid owned tiles lists)
    {slice : SlicePtr} (howned : slice.segment ∈ owned)
    (hhead : UsedHead st slice) (hidx : slice.idx ≠ 0) (cfg : Config) :
    ∃ tiles' lists', SpanInvariant (segmentPageClear cfg st tid slice).2
        .idle tid owned tiles' lists' ∧
      UsedKept tiles tiles' ∧
      ∃ idx total st₁,
        ⟨idx, total, .free⟩ ∈ tiles' slice.segment ∧
        (st₁.segments = st.segments ∧ st₁.os = st.os) ∧
        (segmentPageClear cfg st tid slice).2 =
          let st' := segmentSpanFree cfg st₁ tid slice.segment idx total true
          st'.setSegment slice.segment
            { st'.segments slice.segment with
              used := (st'.segments slice.segment).used - 1
              freeIsZero := false } := by
  obtain ⟨before, after, count, hsplit, hcount⟩ :=
    h.usedHead_tile howned hhead
  set st₁ := st.writePage slice (st.slices slice).clear none none st.os
    with hst₁
  have hself : st₁.slices slice = (st.slices slice).clear :=
    State.setSlice_self st slice _
  have hdetached := h.layout.writePage howned hsplit
    (show SpanKind.detached ≠ .free by simp) (fun heq => absurd heq hidx)
    (st.slices slice).clear none none st.os trivial
  have hkinds : ∀ tile, tile ∈ before ∨ tile ∈ after →
      tile.kind ≠ .detached := by
    intro tile htile
    apply h.not_detached howned
    rw [hsplit]
    simp only [List.mem_append]
    tauto
  obtain ⟨before', idx, total, after', lists', st₂, hlayout, hused, hkept,
    hcommit, hkeptSegments, hfreed⟩ := hdetached.coalesce howned (Function.update_self _ _ _)
      hkinds (show (st₁.slices slice).sliceCount = count by
        rw [hself]
        exact hcount) cfg
  rw [Function.update_idem] at hlayout
  set result := segmentSpanFreeCoalesce cfg st₁ tid slice with hresultDef
  have hresult : (segmentPageClear cfg st tid slice).2 =
      result.2.setSegment slice.segment
        { result.2.segments slice.segment with
          used := (result.2.segments slice.segment).used - 1
          freeIsZero := false } := rfl
  have hsegments : ∀ s, (result.2.segments s).used =
      (st.segments s).used := hcommit.used
  rw [hresult]
  refine ⟨_, _, h.toIdle (hlayout.congr (fun slice => .refl _) ?_ rfl rfl)
    ?_ ?_ ?_ ?_, usedKept_update ?_, idx, total, st₂, ?_, hkeptSegments, ?_⟩
  · intro s _
    by_cases hs : s = slice.segment
    · subst hs
      rw [State.setSegment_self]
      exact ⟨rfl, rfl, rfl⟩
    · rw [State.setSegment_ne _ _ hs]
      exact .refl _
  · intro other hpending
    cases hpending
  · intro tile htile
    simp only [List.mem_append, List.mem_singleton] at htile
    rcases htile with (hb | rfl) | ha
    · exact hkinds tile (hkept tile (.inl hb))
    · simp
    · exact hkinds tile (hkept tile (.inr ha))
  · intro _
    have hcount' := h.used _ howned
    rw [hsplit] at hcount'
    -- the info span is still there
    obtain ⟨info, hinfo, -, hkind⟩ := hlayout.info _ howned
    rw [Function.update_self] at hinfo
    have hpos := usedCount_pos hinfo hkind
    rw [State.setSegment_self]
    simp only [hsegments]
    simp only [usedCount_append, usedCount_cons, usedCount_nil,
      reduceCtorEq, if_false, if_true] at hcount' hused hpos ⊢
    omega
  · intro s hs
    rw [State.setSegment_ne _ _ hs]
    exact hsegments s
  · intro tile htile hkind
    rw [hsplit]
    simp only [List.mem_append, List.mem_singleton] at htile ⊢
    rcases htile with (hb | rfl) | ha
    · exact (hkept tile (.inl hb)).imp_left .inl
    · cases hkind
    · exact (hkept tile (.inr ha)).imp_left .inl
  · rw [Function.update_self]
    simp
  · rw [hfreed]

end SpanInvariant

/-! ## Steps and runs -/

/-- One step on the segments of `owned`. -/
inductive SpanStep (cfg : Config) (tid : ℕ) (owned : Set ℕ) :
    State × Pending → State × Pending → Prop where
  | pageAlloc {st st' : State} {fuel sliceCount reqArenaId : ℕ}
      {result : Option SlicePtr}
      (hresult : segmentsPageFindAndAllocate cfg fuel st tid sliceCount
        reqArenaId = some (result, st')) :
      SpanStep cfg tid owned (st, .idle) (st', .idle)
  | pageFree {st : State} {slice : SlicePtr}
      (howned : slice.segment ∈ owned) (hhead : UsedHead st slice)
      (hidx : slice.idx ≠ 0) :
      SpanStep cfg tid owned (st, .idle)
        ((segmentPageClear cfg st tid slice).2, .idle)
  | extend {st st' : State} {page : SlicePtr} {needSlices : ℕ}
      (howned : page.segment ∈ owned) (hhead : UsedHead st page)
      (hneed : 0 < needSlices)
      (hresult : segmentTryExtendSpan cfg st tid page needSlices =
        (true, st')) :
      SpanStep cfg tid owned (st, .idle) (st', .idle)
  | usePage {st : State} {slice : SlicePtr} (page : PageFields)
      (next prev : Option SlicePtr) (os : Os)
      (howned : slice.segment ∈ owned) (hhead : UsedHead st slice)
      (hcount : page.sliceCount = (st.slices slice).sliceCount)
      (hoffset : page.sliceOffset = (st.slices slice).sliceOffset)
      (hsize : 0 < page.blockSize) :
      SpanStep cfg tid owned (st, .idle)
        (st.writePage slice page next prev os, .idle)
  | purge {st : State} {pending : Pending} (segment : ℕ) (force : Bool) :
      SpanStep cfg tid owned (st, pending)
        (st.setCommit segment
          (segmentTryPurge cfg (st.segments segment)
            (st.segments segment).commit st.os segment force), pending)
  | take {st : State} {slice : SlicePtr} (howned : slice.segment ∈ owned)
      (hhead : FreeHead st slice) :
      SpanStep cfg tid owned (st, .idle)
        (segmentSpanRemoveFromQueue st tid slice, .taken slice)
  | split {st : State} {slice : SlicePtr} {sliceCount : ℕ}
      (hcount : 0 < sliceCount) :
      SpanStep cfg tid owned (st, .taken slice)
        (segmentSliceSplit cfg st tid slice sliceCount, .cut slice)
  | allocate {st st' : State} {pending : Pending} {slice : SlicePtr}
      {ok : Bool} (hpending : pending.slice = some slice)
      (hresult : segmentSpanAllocate cfg st slice.segment slice.idx
        (st.slices slice).sliceCount = (ok, st')) :
      SpanStep cfg tid owned (st, pending)
        (st', if ok then .idle else pending)
  | giveBack {st : State} {pending : Pending} {slice : SlicePtr}
      (hpending : pending.slice = some slice) :
      SpanStep cfg tid owned (st, pending)
        ((segmentSpanFreeCoalesce cfg st tid slice).2, .idle)

/-- The structure of the segments and queues, for some list of the spans of
each segment and of each queue. -/
def SpanInvariantRun (tid : ℕ) (owned : Set ℕ) (run : State × Pending) :
    Prop :=
  ∃ tiles lists, SpanInvariant run.1 run.2 tid owned tiles lists

theorem SpanStep.invariant {cfg : Config} {tid : ℕ} {owned : Set ℕ}
    {run run' : State × Pending} (hstep : SpanStep cfg tid owned run run')
    (h : SpanInvariantRun tid owned run) :
    SpanInvariantRun tid owned run' := by
  have hrules := spanInvariant_allocationRules cfg tid owned
  cases hstep with
  | pageAlloc hresult => exact hrules.pageAlloc h hresult
  | pageFree howned hhead hidx =>
      rcases h with ⟨tiles, lists, h⟩
      obtain ⟨tiles', lists', hcleared, -⟩ := h.pageClear howned hhead hidx cfg
      exact ⟨tiles', lists', hcleared⟩
  | extend howned hhead hneed hresult =>
      rcases h with ⟨tiles, lists, h⟩
      obtain ⟨tiles', lists', hextended, -⟩ :=
        h.extend howned hhead hneed hresult
      exact ⟨tiles', lists', hextended⟩
  | usePage page next prev os howned hhead hcount hoffset hsize =>
      rcases h with ⟨tiles, lists, h⟩
      exact ⟨tiles, lists,
        h.usePage howned hhead next prev os hcount hoffset hsize⟩
  | @purge st pending segment force =>
      rcases h with ⟨tiles, lists, h⟩
      have hcommit := onlyCommit_setCommit st segment
        (segmentTryPurge cfg (st.segments segment)
          (st.segments segment).commit st.os segment force)
      exact ⟨tiles, lists, h.congr rfl (fun s _ => hcommit.header s) rfl rfl
        fun s _ => hcommit.used s⟩
  | take howned hhead => exact hrules.take h howned hhead
  | split hcount => exact hrules.split h hcount
  | allocate hpending hresult => exact hrules.allocate h hpending hresult
  | giveBack hpending => exact hrules.giveBack h hpending

theorem SpanInvariantRun.run {cfg : Config} {tid : ℕ} {owned : Set ℕ}
    {start run : State × Pending} (h : SpanInvariantRun tid owned start)
    (hrun : ReflTransGen (SpanStep cfg tid owned) start run) :
    SpanInvariantRun tid owned run := by
  induction hrun with
  | refl => exact h
  | tail _ hstep ih => exact hstep.invariant ih

/-- The slice structure holds in every state of every run: reading from
slice 0 meets the spans and only them, the slice before a span leads to the
head of the span before it, and the queues hold each free span once, in the
queue of its size, and no used span. -/
theorem span_structure_run (cfg : Config) (tid : ℕ) (owned : Set ℕ)
    (start run : State × Pending)
    (hstart : SpanInvariantRun tid owned start)
    (hrun : ReflTransGen (SpanStep cfg tid owned) start run) :
    ∃ tiles lists, SpanInvariant run.1 run.2 tid owned tiles lists ∧
      (∀ segment ∈ owned, ∀ idx, SpanHead run.1 segment idx ↔
        ∃ tile ∈ tiles segment, tile.start = idx) ∧
      (∀ slice, slice.segment ∈ owned → FreeHead run.1 slice →
        ∀ bin, slice ∈ lists bin ↔
          bin = sliceBin (run.1.slices slice).sliceCount) ∧
      (run.2 = .idle →
        (∀ slice, slice.segment ∈ owned → UsedHead run.1 slice →
          ∀ bin, slice ∉ lists bin) ∧
        ∀ segment ∈ owned, ∀ before tile after,
          tiles segment = before ++ tile :: after → 0 < tile.start →
            ∃ earlier prev, before = earlier ++ [prev] ∧
              run.1.sliceFirst ⟨segment, tile.start - 1⟩ =
                ⟨segment, prev.start⟩) := by
  obtain ⟨tiles, lists, h⟩ := hstart.run hrun
  refine ⟨tiles, lists, h, fun segment hs => h.spanHead_iff hs, ?_, ?_⟩
  · intro slice howned hhead bin
    obtain ⟨before, after, count, hsplit, hcount⟩ :=
      h.freeHead_tile howned hhead
    have hmem : slice ∈ lists (sliceBin (run.1.slices slice).sliceCount) :=
      (h.layout.mem_queue _ slice).mpr ⟨howned,
        ⟨slice.idx, count, .free⟩, by rw [hsplit]; simp, rfl, rfl,
        by rw [hcount]⟩
    constructor
    · exact fun hbin => h.layout.queues.disjoint _ _ slice hbin hmem
    · rintro rfl
      exact hmem
  · intro hidle
    rw [hidle] at h
    exact ⟨fun slice howned hhead => h.used_notMem howned hhead,
      fun segment hs before tile after hsplit hpos =>
        h.sliceFirst_prev hs hsplit hpos⟩

/-- A page of eight slices is allocated and freed. -/
theorem span_structure_run_pageState :
    ∃ tiles lists,
      SpanInvariant (segmentPageClear {} pageState 1 ⟨1, 1⟩).2 .idle 1 {1}
        tiles lists := by
  have howned : (⟨1, 1⟩ : SlicePtr).segment ∈ ({1} : Set ℕ) := rfl
  obtain ⟨page, hresult⟩ := pageState_eq
  have halloc := @SpanStep.pageAlloc {} 1 {1} firstState pageState 1 8 0 page
    hresult
  have hfree := @SpanStep.pageFree {} 1 {1} pageState ⟨1, 1⟩ howned
    pageState_usedHead (by decide)
  obtain ⟨tiles, lists, h, -⟩ := span_structure_run {} 1 {1}
    (firstState, .idle) _ firstState_invariant
    (.tail (.single halloc) hfree)
  exact ⟨tiles, lists, h⟩

end Palloc
