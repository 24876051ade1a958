import Palloc.CommittedPages
import Palloc.FoundSpan
import Palloc.PageRelease

/-!
# Segments and pages that a thread allocates

A thread makes a page of a free span of one of its segments and puts it in a
queue of its heap.  When it has no span that is large enough, it sets up a
segment in memory that is in no use, and tries again.
-/

namespace Palloc

open LinkedQueue IntervalTiling

/-- The slice entries of a new segment are zeroed. -/
def State.zeroEntries (st : State) (segment : ℕ) : State :=
  { st with
    slices := fun slice =>
      if slice.segment = segment then PageFields.zero else st.slices slice
    links :=
      { next := fun slice =>
          if slice.segment = segment then none else st.links.next slice
        prev := fun slice =>
          if slice.segment = segment then none else st.links.prev slice } }

namespace SegmentWorld

/-- `pa_segment_alloc` of a normal segment in memory with this `memid`.  There
is no new segment when its header cannot be committed. -/
def segmentAlloc (w : SegmentWorld) (cfg : Config) (b : BlockBuild)
    (sizes : SegmentSizes) (tid segment : ℕ) (memid : Memid) : SegmentWorld :=
  let slices := segmentAllocSlices b sizes 0 0
  match segmentOsHeader cfg w.st.os segment tid slices memid with
  | (none, os) => { w with st := { w.st with os := os } }
  | (some info, os) =>
      let tld := (w.tlds tid).trackSize (slices.1 * segmentSliceSize : ℕ)
      let st := { w.st with os := os }.zeroEntries segment
      { w.setTld tid tld with
        st := (segmentSetUp cfg b sizes st tid segment 0 0 info).2 }

/-- `_pa_segment_page_alloc` for blocks that share a segment, as far as a span
is found. -/
def segmentPageAlloc (w : SegmentWorld) (cfg : Config)
    (fuel tid reqArenaId blockSize : ℕ) :
    Option (Option SlicePtr × SegmentWorld) :=
  match segmentsPageFindAndAllocate cfg fuel w.st tid (pageSlices blockSize)
      reqArenaId with
  | none => none
  | some (none, st) => some (none, { w with st := st })
  | some (some page, st) =>
      some (some page, { w with st := st }.tryPurge cfg page.segment false)

/-- `pa_page_fresh_alloc`. -/
def pageFreshAlloc (w : SegmentWorld) (cfg : Config) (r : BitVec 64)
    (fuel tid heap heapTag reqArenaId blockSize : ℕ) :
    Option (Option SlicePtr × SegmentWorld) :=
  match w.segmentPageAlloc cfg fuel tid reqArenaId blockSize with
  | none => none
  | some (none, w) => some (none, w)
  | some (some slice, w) =>
      (pageInit cfg r slice.segment slice.idx heap heapTag blockSize
        (w.st.slices slice)).map fun page =>
          (some slice, { w with
            st := w.st.setSlice slice page
            queues :=
              { w.queues with
                xheap := Function.update w.queues.xheap slice.page heap
              }.pageQueuePush heap (heap, bin blockSize) slice.page })

theorem segmentAlloc_marked (w : SegmentWorld) (cfg : Config) (b : BlockBuild)
    (sizes : SegmentSizes) (tid segment : ℕ) (memid : Memid) :
    (w.segmentAlloc cfg b sizes tid segment memid).marked = w.marked := by
  unfold segmentAlloc
  dsimp only
  split
  · rfl
  · rfl

theorem pageFreshAlloc_marked {w w' : SegmentWorld} {cfg : Config}
    {r : BitVec 64} {fuel tid heap heapTag reqArenaId blockSize : ℕ}
    {result : Option SlicePtr}
    (h : w.pageFreshAlloc cfg r fuel tid heap heapTag reqArenaId blockSize =
      some (result, w')) : w'.marked = w.marked := by
  unfold pageFreshAlloc segmentPageAlloc at h
  generalize segmentsPageFindAndAllocate cfg fuel w.st tid
    (pageSlices blockSize) reqArenaId = found at h
  rcases found with _ | ⟨_ | slice, st⟩
  · cases h
  · cases h
    rfl
  · obtain ⟨page, -, heq⟩ := Option.map_eq_some_iff.mp h
    cases heq
    rfl

end SegmentWorld

/-! ## A new segment -/

section NewSegment

variable {cfg : Config} {b : BlockBuild} {sizes : SegmentSizes}
  {os os' : Os} {tid segment : ℕ} {memid : Memid} {info : SegmentInfo}

theorem segmentEnsureCommitted_ok_of_set {idx count : ℕ}
    (hkind : info.kind = .normal) (hslices : info.segmentSlices ≤ 512)
    (hpos : 0 < count) (hfit : idx + count ≤ info.segmentSlices)
    (hset : ∀ bit, idx ≤ bit → bit < idx + count →
      info.commit.commitMask.getBit bit = true) :
    (segmentEnsureCommitted cfg info os segment
      (segment * segmentSize + idx * segmentSliceSize)
      (count * segmentSliceSize)).ok = true := by
  have hrange := @segmentCommitMask_slices info segment idx count hkind
    hslices hpos hfit
  have hall : info.commit.commitMask.allSet
      (segmentCommitMask info segment false
        (segment * segmentSize + idx * segmentSliceSize)
        (count * segmentSliceSize)).mask := by
    rw [CommitMask.allSet_iff]
    intro bit _ hbit
    obtain ⟨hlo, hhi⟩ := (hrange.mask bit).mp hbit
    exact hset bit hlo hhi
  unfold segmentEnsureCommitted
  split
  · rfl
  · unfold segmentCommit
    dsimp only
    split
    · rfl
    · rfl

/-- A header as `pa_segment_os_alloc` leaves it: the info slices are
committed. -/
theorem segmentOsHeader_new {slices : ℕ × ℕ} (hslices : slices.2 ≤ 512)
    (hresult : segmentOsHeader cfg os segment tid slices memid =
      (some info, os')) :
    info.threadId = tid ∧ info.dontFree = false ∧ info.abandoned = 0 ∧
      info.commit.purgeMask = CommitMask.createEmpty ∧
      ∀ bit < slices.2, info.commit.commitMask.getBit bit = true := by
  unfold segmentOsHeader at hresult
  rw [divideUp_slices] at hresult
  dsimp only at hresult
  split at hresult
  · simp only [Prod.mk.injEq, Option.some.injEq] at hresult
    obtain ⟨rfl, -⟩ := hresult
    exact ⟨rfl, rfl, rfl, rfl, fun bit hbit =>
      CommitMask.isFull_iff.mp (fun _ => rfl) bit (by omega)⟩
  · split at hresult
    · simp only [Prod.mk.injEq, Option.some.injEq] at hresult
      obtain ⟨rfl, -⟩ := hresult
      refine ⟨rfl, rfl, rfl, rfl, ?_⟩
      intro bit hbit
      exact (getBit_create_iff (by omega) bit).mpr ⟨Nat.zero_le _, by omega⟩
    · simp at hresult

theorem segmentAllocInfo_new (hsizes : sizes.Usual) (b : BlockBuild)
    (hthread : info.threadId = tid)
    (hpurge : info.commit.purgeMask = CommitMask.createEmpty) :
    NewHeader (segmentAllocInfo b sizes 0 0 info) tid := by
  have hinfo := infoSlices_bounds hsizes b 0
  have hslices : segmentAllocSlices b sizes 0 0 =
      segmentCalculateSlices b sizes 0 := rfl
  obtain ⟨-, -, hwhole⟩ := segmentAllocSlices_spec hsizes b
    (.inl rfl : (0 : ℕ) = 0 ∨ 0 < 0)
  have htotal := hwhole rfl
  rw [← hslices] at hinfo
  have hentries : (segmentAllocInfo b sizes 0 0 info).sliceEntries =
      if b.secure then 511 else 512 := by
    unfold segmentAllocInfo slicesPerSegment
    simp [htotal]
  constructor
  · simp [segmentAllocInfo]
  · exact hthread
  · exact hinfo.1
  · rw [hentries]
    show (segmentAllocSlices b sizes 0 0).2 < _
    split <;> omega
  · rw [hentries]
    show _ ≤ (segmentAllocSlices b sizes 0 0).1
    split <;> omega
  · show (segmentAllocSlices b sizes 0 0).1 ≤ _
    rw [htotal]
    decide
  · exact hpurge

theorem segmentInitSpans_some {st : State} (guardSlices : ℕ)
    (hkind : (st.segments segment).kind = .normal)
    (hok : (segmentEnsureCommitted cfg (st.segments segment) st.os segment
      (segment * segmentSize + 0 * segmentSliceSize)
      ((st.segments segment).segmentInfoSlices *
        segmentSliceSize)).ok = true) :
    ∃ page st', segmentInitSpans cfg st tid segment guardSlices =
      some (page, st') := by
  obtain ⟨hfirst, used, hsegments⟩ := segmentSpanAllocate_segments cfg st
    segment 0 (st.segments segment).segmentInfoSlices
  unfold segmentInitSpans
  dsimp only
  generalize segmentSpanAllocate cfg st segment 0
    (st.segments segment).segmentInfoSlices = result at hfirst hsegments ⊢
  obtain ⟨ok, st₁⟩ := result
  obtain rfl : ok = true := hfirst.trans hok
  have hkind₁ : (st₁.segments segment).kind = .normal := by
    rw [show st₁.segments = _ from hsegments, Function.update_self]
    exact hkind
  have hnormal : ((st₁.segments segment).withUsed 0).kind = .normal := hkind₁
  simp [hnormal]

/-- Setting up a normal segment succeeds: its info slices are committed
already. -/
theorem segmentSetUp_normal (hsizes : sizes.Usual) (b : BlockBuild)
    (st : State)
    (hresult : segmentOsHeader cfg os segment tid
      (segmentAllocSlices b sizes 0 0) memid = (some info, os')) :
    ∃ st₁ page commit,
      segmentInitSpans cfg st₁ tid segment b.guardSlices =
        some (page, (segmentSetUp cfg b sizes st tid segment 0 0 info).2) ∧
      st₁.segments segment =
        (segmentAllocInfo b sizes 0 0 info).withCommit commit ∧
      (∀ s, s ≠ segment → st₁.segments s = st.segments s) ∧
      st₁.slices = st.slices ∧ st₁.links = st.links ∧
      st₁.spans = st.spans := by
  obtain ⟨-, hinfoLe, -⟩ := segmentAllocSlices_spec hsizes b
    (.inl rfl : (0 : ℕ) = 0 ∨ 0 < 0)
  obtain ⟨hthread, -, -, hpurge, hset⟩ :=
    segmentOsHeader_new (by omega) hresult
  have hnew := segmentAllocInfo_new hsizes b hthread hpurge
  unfold segmentSetUp
  dsimp only
  generalize hheader : segmentAllocInfo b sizes 0 0 info = header at hnew ⊢
  have hsafe : ∀ bit < header.segmentInfoSlices,
      header.commit.Safe bit := by
    intro bit hbit
    have hcommit : header.commit = info.commit := by
      rw [← hheader]
      rfl
    have hslices : header.segmentInfoSlices =
        (segmentAllocSlices b sizes 0 0).2 := by
      rw [← hheader]
      rfl
    rw [hcommit]
    refine ⟨hset bit (by omega), ?_⟩
    rw [hpurge]
    exact CommitMask.getBit_createEmpty bit
  generalize hst₁ : (if b.secure then _ else _ : State) = st₁
  have hfacts : ∃ commit,
      st₁.segments segment = header.withCommit commit ∧
      (∀ bit < header.segmentInfoSlices, commit.Safe bit) ∧
      (∀ s, s ≠ segment → st₁.segments s = st.segments s) ∧
      st₁.slices = st.slices ∧ st₁.links = st.links ∧
      st₁.spans = st.spans := by
    rw [← hst₁]
    split
    · generalize hresult' : segmentEnsureCommitted cfg header _ _ _ _ = result
      have hkeeps : KeepsSafe (fun _ => False) header.commit
          result.commit := by
        rw [← hresult']
        exact segmentEnsureCommitted_keepsSafe ..
      refine ⟨result.commit, ?_, fun bit hbit => ?_, ?_, rfl, rfl, rfl⟩
      · rw [setCommit_segments, Function.update_self, State.setSegment_self]
      · exact hkeeps.safe bit not_false (hsafe bit hbit)
      · intro s hs
        rw [setCommit_segments, Function.update_of_ne hs,
          State.setSegment_ne _ _ hs]
    · exact ⟨header.commit, State.setSegment_self _ _ _, hsafe,
        fun s hs => State.setSegment_ne _ _ hs, rfl, rfl, rfl⟩
  obtain ⟨commit, hself, hsafe₁, hothers, hslices, hlinks, hspans⟩ := hfacts
  have hok : (segmentEnsureCommitted cfg (st₁.segments segment) st₁.os segment
      (segment * segmentSize + 0 * segmentSliceSize)
      ((st₁.segments segment).segmentInfoSlices *
        segmentSliceSize)).ok = true := by
    rw [hself]
    apply segmentEnsureCommitted_ok_of_set
    · exact hnew.kind
    · exact hnew.slices
    · exact hnew.info_pos
    · show 0 + header.segmentInfoSlices ≤ header.segmentSlices
      have hlt := hnew.info_lt
      have hentries := hnew.entries
      omega
    · intro bit _ hbit
      have hhi : bit < 0 + header.segmentInfoSlices := hbit
      exact (hsafe₁ bit (by omega)).1
  have hkind : (st₁.segments segment).kind = .normal := by
    rw [hself]
    exact hnew.kind
  obtain ⟨page, st', hinit⟩ := segmentInitSpans_some b.guardSlices hkind hok
  refine ⟨st₁, page, commit, ?_, hself, hothers, hslices, hlinks, hspans⟩
  rw [hinit]

theorem SpanInvariant.joinSegment {st st' : State} {owned : Set ℕ}
    {tiles : ℕ → List (Tile SpanKind)} {lists : ℕ → List SlicePtr}
    (h : SpanInvariant st .idle tid owned tiles lists)
    (hnew : segment ∉ owned)
    (hkind : (st.segments segment).kind = .normal)
    (hthread : (st.segments segment).threadId = tid)
    (hpos : 0 < (st.segments segment).segmentInfoSlices)
    (hlt : (st.segments segment).segmentInfoSlices <
      (st.segments segment).sliceEntries)
    {guardSlices : ℕ} {page : Option SlicePtr}
    (hresult : segmentInitSpans cfg st tid segment guardSlices =
      some (page, st')) :
    ∃ count lists', SpanInvariant st' .idle tid (insert segment owned)
        (Function.update tiles segment
          [⟨0, (st.segments segment).segmentInfoSlices, .used⟩,
            ⟨(st.segments segment).segmentInfoSlices, count, .free⟩])
        lists' ∧
      WritesOnly st st' tid segment (insert segment owned) ∧
      ∃ commit, st'.segments segment =
        ((st.segments segment).withCommit commit).withUsed 0 := by
  have hself : segment ∈ insert segment owned := Set.mem_insert _ _
  obtain ⟨lists', hspans⟩ := h.newSegment hnew hkind hthread hpos hlt hresult
  obtain ⟨st₁, commit, hlayout, rfl, hinfo, hothers, hslices, hlinks,
    hends⟩ := h.reserveInfo hnew hkind hthread hpos hlt hresult
  refine ⟨_, lists', hspans, ⟨?_, ?_, ?_, ?_⟩, commit, ?_⟩
  · intro slice hslice
    have hne : ∀ idx, slice ≠ ⟨segment, idx⟩ := by
      rintro idx rfl
      exact hslice rfl
    refine (segmentSpanFree_slices_other cfg tid false (by omega) ?_ (hne _)
      (hne _)).trans (hslices slice hslice)
    rw [hinfo]
    show _ ≤ (st.segments segment).sliceEntries
    omega
  · intro s hs
    exact (segmentSpanFree_segments_other cfg tid false hs).trans
      (hothers s hs)
  · intro slice hslice
    have hne : slice ≠ ⟨segment, (st.segments segment).segmentInfoSlices⟩ := by
      rintro rfl
      exact hslice hself
    obtain ⟨hnext, hprev⟩ := segmentSpanFree_links _ cfg hlayout hself false
      hne (hlayout.notMem_of_notOwned hslice)
    rw [hlinks] at hnext hprev
    exact ⟨hnext, hprev⟩
  · intro t ht
    exact (segmentSpanFree_spans_other cfg false ht).trans
      (congrFun hends t)
  · rw [segmentSpanFree_segments_noPurge]
    exact hinfo

end NewSegment

/-! ## The law -/

theorem WritesOnly.of_zeroEntries {st st' : State} {tid segment : ℕ}
    {owned : Set ℕ} (howned : segment ∈ owned)
    (hothers : ∀ s, s ≠ segment → st'.segments s = st.segments s)
    (hslices : st'.slices = (st.zeroEntries segment).slices)
    (hlinks : st'.links = (st.zeroEntries segment).links)
    (hspans : st'.spans = st.spans) :
    WritesOnly st st' tid segment owned := by
  refine ⟨?_, hothers, ?_, ?_⟩
  · intro slice hslice
    rw [hslices]
    exact if_neg hslice
  · intro slice hslice
    have hne : slice.segment ≠ segment := by
      rintro rfl
      exact hslice howned
    rw [hlinks]
    exact ⟨if_neg hne, if_neg hne⟩
  · intro t _
    rw [hspans]

/-- A new segment has no page. -/
theorem not_pageAt_newSegment (tiles : ℕ → List (Tile SpanKind))
    (segment infoSlices count start : ℕ) :
    ¬ PageAt (Function.update tiles segment
      [⟨0, infoSlices, .used⟩, ⟨infoSlices, count, .free⟩])
      ⟨segment, start⟩ := by
  rintro ⟨hfirst, tile, htile, hused, rfl⟩
  rw [Function.update_self] at htile
  simp only [List.mem_cons, List.not_mem_nil, or_false] at htile
  rcases htile with rfl | rfl
  · exact hfirst rfl
  · cases hused

namespace OrphanLaw

variable {w : SegmentWorld} {orphans : Set ℕ} {live : ℕ → ℕ → List Addr}
  {heapTid : ℕ → ℕ} {alive : Finset ℕ} {tiles : ℕ → List (Tile SpanKind)}
  {lists : ℕ → ℕ → List SlicePtr} {qlists : ℕ × ℕ → List ℕ}
  {tid segment : ℕ}

theorem not_inUse_thread (hfree : ¬ w.InUse orphans segment) :
    (w.st.segments segment).threadId = 0 := by
  by_contra hne
  exact hfree (.inl hne)

/-- `pa_segment_alloc`: the new segment is of the thread and has no page. -/
theorem segmentAlloc
    (h : OrphanLaw w orphans live heapTid alive tiles lists qlists)
    (htid : tid ≠ 0) (hfree : ¬ w.InUse orphans segment)
    {sizes : SegmentSizes} (hsizes : sizes.Usual) (cfg : Config)
    (b : BlockBuild) (memid : Memid) :
    ∃ tiles' lists', OrphanLaw (w.segmentAlloc cfg b sizes tid segment memid)
      orphans live heapTid alive tiles' lists' qlists := by
  have hthread := not_inUse_thread hfree
  have hnotOwned : segment ∉ w.ownedBy tid :=
    fun heq => htid (Eq.trans (Eq.symm heq) hthread)
  obtain ⟨-, hinfoLe, -⟩ := segmentAllocSlices_spec hsizes b
    (.inl rfl : (0 : ℕ) = 0 ∨ 0 < 0)
  unfold SegmentWorld.segmentAlloc
  dsimp only
  rcases hheader : segmentOsHeader cfg w.st.os segment tid
    (segmentAllocSlices b sizes 0 0) memid with ⟨header, os⟩
  cases header with
  | none =>
      exact ⟨tiles, lists, h.congrSegments rfl rfl rfl rfl
        (fun _ => .refl _) (fun _ => rfl) (fun _ => rfl) fun _ => rfl⟩
  | some info =>
      obtain ⟨hthreadNew, hdontFree, habandoned, hpurge, -⟩ :=
        segmentOsHeader_new (by omega) hheader
      have hnew := segmentAllocInfo_new hsizes b hthreadNew hpurge
      obtain ⟨st₁, page, commit, hinit, hself, hothers, hslices, hlinks,
        hends⟩ := segmentSetUp_normal hsizes b
          ({ w.st with os := os }.zeroEntries segment) hheader
      have hwrites₁ : ∀ t own, segment ∈ own →
          WritesOnly w.st st₁ t segment own :=
        fun t own hown => .of_zeroEntries hown hothers hslices hlinks hends
      have hspans₁ : SpanInvariant st₁ .idle tid (w.ownedBy tid) tiles
          (lists tid) := by
        refine (h.threads tid htid).frame (hwrites₁ (tid + 1) {segment} rfl)
          (by omega) hnotOwned ?_
        rintro s hs (rfl : s = segment)
        exact hnotOwned hs
      have hinfo₁ : SameHeader (segmentAllocInfo b sizes 0 0 info)
          (st₁.segments segment) ∧ (st₁.segments segment).segmentInfoSlices =
            (segmentAllocInfo b sizes 0 0 info).segmentInfoSlices := by
        rw [hself]
        exact ⟨⟨rfl, rfl, rfl⟩, rfl⟩
      obtain ⟨count, lists', hspans, hwrites, commit', hinfo⟩ :=
        hspans₁.joinSegment hnotOwned (hinfo₁.1.kind.trans hnew.kind)
          (hinfo₁.1.threadId.trans hnew.threadId)
          (by rw [hinfo₁.2]; exact hnew.info_pos)
          (by rw [hinfo₁.2, hinfo₁.1.sliceEntries]; exact hnew.info_lt) hinit
      set st' := (segmentSetUp cfg b sizes ({ w.st with os := os }.zeroEntries
        segment) tid segment 0 0 info).2 with hst'
      rw [hself] at hinfo
      have hthread' : (st'.segments segment).threadId = tid := by
        rw [hinfo]
        exact hthreadNew
      have hall := (hwrites₁ tid _ (Set.mem_insert _ _)).trans hwrites
      set w' : SegmentWorld := { w.setTld tid ((w.tlds tid).trackSize
          ((segmentAllocSlices b sizes 0 0).1 * segmentSliceSize : ℕ)) with
        st := st' } with hw'
      have howned : w'.ownedBy tid = insert segment (w.ownedBy tid) :=
        SegmentWorld.ownedBy_insert hall.segments hthread'
      have hnone := not_pageAt_newSegment tiles segment
        (st₁.segments segment).segmentInfoSlices count
      refine ⟨_, _, h.rewrite hall subset_rfl (.inl hthread) (.inr hthread')
        (howned ▸ hspans) (fun s _ => Iff.rfl)
        (fun horphan => absurd (.inr horphan) hfree) ?_ ?_ (fun s _ => rfl) ?_
        h.queues (fun queue slice _ => Iff.rfl) ?_ ?_⟩
      · intro _
        rw [hinfo]
        exact hdontFree
      · intro _ tile htile hused hfirst
        refine absurd ⟨hfirst, tile, ?_, hused, rfl⟩ (hnone tile.start)
        rw [Function.update_self]
        exact htile
      · intro start hstart
        exact absurd (h.live segment start hstart).1 hfree
      · intro queue idx hin
        exact absurd (.inl (h.queued queue _ hin).thread_ne) hfree
      · intro _
        refine ⟨[], .nil, ?_, ?_⟩
        · rw [hinfo]
          exact habandoned.symm
        · intro start
          simp only [List.not_mem_nil, false_iff, not_and]
          exact fun hat => absurd hat (hnone start)

/-! ### A new page -/

/-- A place where no page starts has no live blocks and is in no queue. -/
theorem not_page
    (h : OrphanLaw w orphans live heapTid alive tiles lists qlists)
    {slice : SlicePtr} (hfree : ∀ tile ∈ tiles slice.segment,
      tile.kind = .used → tile.start ≠ slice.idx) :
    ¬ PageAt tiles slice ∧ live slice.segment slice.idx = [] ∧
      ∀ queue, slice.page ∉ qlists queue := by
  have hnone : ¬ PageAt tiles slice := by
    rintro ⟨-, tile, htile, hused, hstart⟩
    exact hfree tile htile hused hstart
  refine ⟨hnone, ?_, fun queue hin => hnone (h.queued queue _ hin).pageAt⟩
  by_contra hlive
  exact hnone (h.live _ _ hlive).2

/-- A span was found but could not be committed. -/
theorem keepPages
    (h : OrphanLaw w orphans live heapTid alive tiles lists qlists)
    {slice : SlicePtr} {st' : State} {ts' : List (Tile SpanKind)}
    {lists' : ℕ → List SlicePtr}
    (hthread : (w.st.segments slice.segment).threadId = tid)
    (hspans : SpanInvariant st' .idle tid (w.ownedBy tid)
      (Function.update tiles slice.segment ts') lists')
    (hwrites : WritesOnly w.st st' tid slice.segment (w.ownedBy tid))
    (hkept : PagesKept w.st st' slice.segment slice.idx (tiles slice.segment)
      ts')
    (hfree : ∀ tile ∈ tiles slice.segment, tile.kind = .used →
      tile.start ≠ slice.idx)
    (hgone : ∀ tile ∈ ts', tile.kind = .used → tile.start ≠ slice.idx) :
    OrphanLaw { w with st := st' } orphans live heapTid alive
      (Function.update tiles slice.segment ts')
      (Function.update lists tid lists') qlists := by
  have htid : tid ≠ 0 := hspans.layout.thread_ne
  have hinUse : w.InUse orphans slice.segment := .inl (hthread.trans_ne htid)
  have hthread' : (st'.segments slice.segment).threadId = tid :=
    hspans.layout.threadId _ hthread
  have howned : SegmentWorld.ownedBy { w with st := st' } tid =
      w.ownedBy tid :=
    SegmentWorld.ownedBy_same hwrites.segments (iff_of_true hthread' hthread)
  have hat : ∀ start, PageAt (Function.update tiles slice.segment ts')
      ⟨slice.segment, start⟩ ↔ PageAt tiles ⟨slice.segment, start⟩ := by
    intro start
    rw [hkept.pageAt hgone, and_iff_right_iff_imp]
    rintro hat rfl
    exact (h.not_page hfree).1 hat
  have hdata : ∀ tile ∈ ts', tile.kind = .used →
      st'.slices ⟨slice.segment, tile.start⟩ =
        w.st.slices ⟨slice.segment, tile.start⟩ :=
    fun tile htile hused =>
      hkept.data tile htile hused (hgone tile htile hused)
  refine h.rewrite hwrites (Set.subset_insert _ _) (.inr hthread)
    (.inr hthread') (howned ▸ hspans) (fun s _ => Iff.rfl) ?_ ?_ ?_
    (fun s _ => rfl) ?_ h.queues (fun queue other _ => Iff.rfl) ?_ ?_
  · exact fun horphan =>
      absurd (h.orphan_threadId horphan) (hthread.trans_ne htid)
  · exact fun _ => hkept.dontFree.trans (h.dontFree _ hinUse)
  · intro _ tile htile hused hfirst
    have hold := (hkept.tiles tile hused (hgone tile htile hused)).mp htile
    rw [hdata tile htile hused]
    exact h.pages _ hinUse tile hold hused hfirst
  · intro start hstart
    exact ⟨.inl (hthread'.trans_ne htid),
      (hat start).mpr (h.live _ start hstart).2⟩
  · intro queue idx hin
    have hqueued := h.queued queue _ hin
    have hnew := (hat idx).mpr hqueued.pageAt
    refine ⟨hthread'.trans_ne htid,
      hthread'.trans (hthread.symm.trans hqueued.thread), hnew, ?_⟩
    obtain ⟨-, tile, htile, hused, rfl⟩ := hnew
    rw [Function.update_self] at htile
    exact (congrArg PageFields.xheap (hdata tile htile hused)).trans
      hqueued.xheap
  · intro _
    rw [show (({ w with st := st' } : SegmentWorld).st.segments
      slice.segment).abandoned = _ from hkept.abandoned]
    apply (h.givenUp _ (hthread.trans_ne htid)).congr
    exact fun start => and_congr_left fun _ => hat start

/-- A span that was found has become a page of the heap. -/
theorem addPage
    (h : OrphanLaw w orphans live heapTid alive tiles lists qlists)
    {slice : SlicePtr} {st' : State} {ts' : List (Tile SpanKind)}
    {lists' : ℕ → List SlicePtr} {page : PageFields} {heap blockSize : ℕ}
    (hheap : heap ∈ alive) (hheapTid : heapTid heap = tid)
    (hthread : (w.st.segments slice.segment).threadId = tid)
    (hspans : SpanInvariant st' .idle tid (w.ownedBy tid)
      (Function.update tiles slice.segment ts') lists')
    (hwrites : WritesOnly w.st st' tid slice.segment (w.ownedBy tid))
    (hkept : PagesKept w.st st' slice.segment slice.idx (tiles slice.segment)
      ts')
    (hfree : ∀ tile ∈ tiles slice.segment, tile.kind = .used →
      tile.start ≠ slice.idx)
    (hmade : ∃ tile ∈ ts', tile.kind = .used ∧ tile.start = slice.idx)
    (hpage : st'.slices slice = page) (hxheap : page.xheap = some heap)
    (hpart : ∃ free localFree thread,
      PagePartition page [] free localFree thread) :
    ∃ qlists', OrphanLaw { w with
      st := st'
      queues :=
        { w.queues with
          xheap := Function.update w.queues.xheap slice.page heap
        }.pageQueuePush heap (heap, bin blockSize) slice.page }
      orphans live heapTid alive (Function.update tiles slice.segment ts')
      (Function.update lists tid lists') qlists' := by
  have htid : tid ≠ 0 := hspans.layout.thread_ne
  have hinUse : w.InUse orphans slice.segment := .inl (hthread.trans_ne htid)
  obtain ⟨hnone, hempty, hout⟩ := h.not_page hfree
  have hqueues := (h.queues.setXheap hout heap).push hheap
    (.inr ⟨blockSize, rfl⟩) (Function.update_self _ _ _) hout
  have hthread' : (st'.segments slice.segment).threadId = tid :=
    hspans.layout.threadId _ hthread
  set w' : SegmentWorld := { w with
    st := st'
    queues :=
      { w.queues with
        xheap := Function.update w.queues.xheap slice.page heap
      }.pageQueuePush heap (heap, bin blockSize) slice.page } with hw'
  have howned : w'.ownedBy tid = w.ownedBy tid :=
    SegmentWorld.ownedBy_same hwrites.segments (iff_of_true hthread' hthread)
  have hidx : slice.idx ≠ 0 := by
    obtain ⟨info, hinfo, hzero, hused⟩ :=
      (h.threads tid htid).layout.info _ hthread
    exact fun heq => hfree info hinfo hused (hzero.trans heq.symm)
  have hat : ∀ start, PageAt (Function.update tiles slice.segment ts')
      ⟨slice.segment, start⟩ ↔
        start = slice.idx ∨ PageAt tiles ⟨slice.segment, start⟩ :=
    fun _ => hkept.pageAt_made hidx hmade
  have hmem : ∀ queue other, other ∈ Function.update qlists
      (heap, bin blockSize) (slice.page :: qlists (heap, bin blockSize))
        queue ↔ other ∈ qlists queue ∨
          other = slice.page ∧ queue = (heap, bin blockSize) := by
    intro queue other
    by_cases hqueue : queue = (heap, bin blockSize)
    · subst hqueue
      simp [or_comm]
    · simp [hqueue]
  refine ⟨_, h.rewrite hwrites (Set.subset_insert _ _) (.inr hthread)
    (.inr hthread') (howned ▸ hspans) (fun s _ => Iff.rfl) ?_ ?_ ?_
    (fun s _ => rfl) ?_ hqueues ?_ ?_ ?_⟩
  · exact fun horphan =>
      absurd (h.orphan_threadId horphan) (hthread.trans_ne htid)
  · exact fun _ => hkept.dontFree.trans (h.dontFree _ hinUse)
  · intro _ tile htile hused hfirst
    by_cases hstart : tile.start = slice.idx
    · rw [hstart, hempty]
      show ∃ free localFree thread,
        PagePartition (st'.slices slice) [] free localFree thread
      rw [hpage]
      exact hpart
    · have hold := (hkept.tiles tile hused hstart).mp htile
      show ∃ free localFree thread, PagePartition
        (st'.slices ⟨slice.segment, tile.start⟩) _ free localFree thread
      rw [hkept.data tile htile hused hstart]
      exact h.pages _ hinUse tile hold hused hfirst
  · intro start hstart
    exact ⟨.inl (hthread'.trans_ne htid),
      (hat start).mpr (.inr (h.live _ start hstart).2)⟩
  · intro queue other hother
    rw [hmem, or_iff_left]
    rintro ⟨heq, -⟩
    exact hother (by rw [SlicePtr.page_inj heq])
  · intro queue idx hin
    rcases (hmem queue _).mp hin with hold | ⟨heq, rfl⟩
    · have hqueued := h.queued queue _ hold
      have hne : idx ≠ slice.idx := by
        rintro rfl
        exact hnone hqueued.pageAt
      have hnew := (hat idx).mpr (.inr hqueued.pageAt)
      refine ⟨hthread'.trans_ne htid,
        hthread'.trans (hthread.symm.trans hqueued.thread), hnew, ?_⟩
      obtain ⟨-, tile, htile, hused, rfl⟩ := hnew
      rw [Function.update_self] at htile
      exact (congrArg PageFields.xheap
        (hkept.data tile htile hused hne)).trans hqueued.xheap
    · obtain rfl : idx = slice.idx :=
        congrArg SlicePtr.idx (SlicePtr.page_inj heq)
      exact ⟨hthread'.trans_ne htid, hthread'.trans hheapTid.symm,
        (hat slice.idx).mpr (.inl rfl),
        (congrArg PageFields.xheap hpage).trans hxheap⟩
  · intro _
    rw [show (w'.st.segments slice.segment).abandoned = _ from
      hkept.abandoned]
    apply (h.givenUp _ (hthread.trans_ne htid)).congr
    intro start
    rw [hat]
    constructor
    · rintro ⟨rfl | hold, hunqueued⟩
      · exact absurd ((hmem _ _).mpr (.inr ⟨rfl, rfl⟩)) (hunqueued _)
      · exact ⟨hold, fun queue hin =>
          hunqueued queue ((hmem queue _).mpr (.inl hin))⟩
    · rintro ⟨hold, hunqueued⟩
      refine ⟨.inr hold, fun queue hin => ?_⟩
      rcases (hmem queue _).mp hin with hin | ⟨heq, -⟩
      · exact hunqueued queue hin
      · rw [SlicePtr.page_inj heq] at hold
        exact hnone hold

/-- `pa_page_fresh_alloc`, where the entry that it takes is as `pa_page_init`
asserts. -/
theorem pageFreshAlloc
    (h : OrphanLaw w orphans live heapTid alive tiles lists qlists)
    {cfg : Config} {r : BitVec 64}
    {fuel heap heapTag reqArenaId blockSize : ℕ} {result : Option SlicePtr}
    {w' : SegmentWorld} (htid : tid ≠ 0) (hheap : heap ∈ alive)
    (hheapTid : heapTid heap = tid) (hpos : 0 < blockSize)
    (hfresh : ∀ slice w₁, w.segmentPageAlloc cfg fuel tid reqArenaId
      blockSize = some (some slice, w₁) → FreshPage (w₁.st.slices slice))
    (hresult : w.pageFreshAlloc cfg r fuel tid heap heapTag reqArenaId
      blockSize = some (result, w')) :
    ∃ tiles' lists' qlists',
      OrphanLaw w' orphans live heapTid alive tiles' lists' qlists' := by
  unfold SegmentWorld.pageFreshAlloc at hresult
  unfold SegmentWorld.segmentPageAlloc at hresult hfresh
  rcases hfound : segmentsPageFindAndAllocate cfg fuel w.st tid
    (pageSlices blockSize) reqArenaId with _ | ⟨found, st₁⟩
  · rw [hfound] at hresult
    cases hresult
  rw [hfound] at hresult hfresh
  rcases (h.threads tid htid).findAndAllocate hfound with ⟨rfl, rfl⟩ |
    ⟨slice, ts', lists', hthread, hfree, hcase, hspans, hkept, hwrites, hmade⟩
  · cases hresult
    exact ⟨tiles, lists, qlists, h⟩
  rcases hcase with rfl | rfl
  · cases hresult
    refine ⟨_, _, qlists,
      h.keepPages hthread hspans hwrites hkept hfree ?_⟩
    intro tile htile hused hstart
    simpa using hmade.mp ⟨tile, htile, hused, hstart⟩
  · obtain ⟨tile, htile, hused, hstart⟩ := hmade.mpr rfl
    set w₁ : SegmentWorld := { w with st := st₁ }.tryPurge cfg slice.segment
      false with hw₁
    have hcommit : OnlyCommit st₁ w₁.st := onlyCommit_setCommit _ _ _
    have hspans₁ : SpanInvariant w₁.st .idle tid (w.ownedBy tid)
        (Function.update tiles slice.segment ts') lists' :=
      hspans.congr rfl (fun s _ => hcommit.header s) rfl rfl
        fun s _ => hcommit.used s
    obtain ⟨page, free, hinit, hpart⟩ := pageInit_partition cfg
      (hfresh slice w₁ rfl) hpos r slice.segment slice.idx heap heapTag
    dsimp only at hresult
    rw [hinit] at hresult
    cases hresult
    obtain ⟨hcount, hoffset⟩ := pageInit_span hinit
    have hself : tile ∈ Function.update tiles slice.segment ts'
        slice.segment := by
      rw [Function.update_self]
      exact htile
    have hspans₂ := hspans₁.setPage hthread hself hused hstart hcount hoffset
      hpart.blockSize_pos
    refine ⟨_, _, h.addPage hheap hheapTid hthread hspans₂ ?_ ?_ hfree
      ⟨tile, htile, hused, hstart⟩ (State.setSlice_self _ _ _) ?_
      ⟨free, [], [], hpart⟩⟩
    · refine hwrites.trans (.of_slice ?_ ?_ rfl rfl)
      · exact fun other hne => State.setSlice_ne _ _ hne
      · exact fun s hs => State.setSegment_ne _ _ hs
    · obtain ⟨commit, hinfo⟩ := hcommit slice.segment
      refine ⟨hkept.tiles, ?_,
        (congrArg SegmentInfo.abandoned hinfo).trans hkept.abandoned,
        (congrArg SegmentInfo.dontFree hinfo).trans hkept.dontFree⟩
      intro other hother hkind hne
      exact (State.setSlice_ne _ _ fun heq =>
        hne (congrArg SlicePtr.idx heq)).trans
          (hkept.data other hother hkind hne)
    · exact pageExtendFree_xheap hinit

end OrphanLaw

end Palloc
