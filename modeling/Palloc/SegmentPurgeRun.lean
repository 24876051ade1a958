import Palloc.SegmentPurgeInvariant

/-!
# Used pages are never purged

A thread starts without segments and takes any number of steps: setting up
new segments, the span operations with any outcome of their commits, more
commits, and scheduled, expired and forced purges.  In every state that is
reached the used pages are committed and not scheduled, so that a purge only
ever reaches slices of free spans.
-/

namespace Palloc

open LinkedQueue IntervalTiling Relation

structure ThreadSegments where
  owned : Set ℕ
  st : State
  pending : Pending

/-- One step of the thread `tid`. -/
inductive PurgeStep (cfg : Config) (tid : ℕ) :
    ThreadSegments → ThreadSegments → Prop where
  | span {owned : Set ℕ} {st st' : State} {pending pending' : Pending}
      (hstep : SpanStep cfg tid owned (st, pending) (st', pending')) :
      PurgeStep cfg tid ⟨owned, st, pending⟩ ⟨owned, st', pending'⟩
  | newSegment {owned : Set ℕ} {st st' : State} {segment guardSlices : ℕ}
      {info : SegmentInfo} {page : Option SlicePtr}
      (hnew : segment ∉ owned) (hheader : NewHeader info tid)
      (hresult : segmentInitSpans cfg (st.setSegment segment info) tid
        segment guardSlices = some (page, st')) :
      PurgeStep cfg tid ⟨owned, st, .idle⟩
        ⟨insert segment owned, st', .idle⟩
  | commit {owned : Set ℕ} {st : State} {pending : Pending}
      {segment p size : ℕ} {result : CommitResult}
      (hresult : segmentCommit cfg (st.segments segment) st.os segment p
        size = result) :
      PurgeStep cfg tid ⟨owned, st, pending⟩
        ⟨owned, st.setCommit segment (result.commit, result.os), pending⟩
  | schedulePurge {owned : Set ℕ} {st : State} {pending : Pending}
      {slice : SlicePtr} {p size : ℕ} (howned : slice.segment ∈ owned)
      (hhead : FreeHead st slice) (hlo : slice.start ≤ p)
      (hhi : p + size ≤ slice.start +
        (st.slices slice).sliceCount * segmentSliceSize) :
      PurgeStep cfg tid ⟨owned, st, pending⟩
        ⟨owned, st.setCommit slice.segment
          (segmentSchedulePurge cfg (st.segments slice.segment) st.os
            slice.segment p size), pending⟩

def SpanPurgeInvariantRun (tid : ℕ) (run : ThreadSegments) : Prop :=
  ∃ tiles lists,
    SpanPurgeInvariant run.st run.pending tid run.owned tiles lists

theorem SpanPurgeInvariant.purge {st : State} {pending : Pending} {tid : ℕ}
    {owned : Set ℕ} {tiles : ℕ → List (Tile SpanKind)}
    {lists : ℕ → List SlicePtr}
    (h : SpanPurgeInvariant st pending tid owned tiles lists) (cfg : Config)
    (segment : ℕ) (force : Bool) :
    SpanPurgeInvariant
      (st.setCommit segment
        (segmentTryPurge cfg (st.segments segment)
          (st.segments segment).commit st.os segment force))
      pending tid owned tiles lists := by
  apply h.setCommit
  intro howned
  exact segmentTryPurge_keepsSafe cfg (h.masks.slices segment howned) _ _ _ _

/-- A purge of a part of a free span touches no used one. -/
theorem SpanPurgeInvariant.schedulePurge {st : State} {pending : Pending}
    {tid : ℕ} {owned : Set ℕ} {tiles : ℕ → List (Tile SpanKind)}
    {lists : ℕ → List SlicePtr}
    (h : SpanPurgeInvariant st pending tid owned tiles lists) (cfg : Config)
    {slice : SlicePtr} {p size : ℕ} (howned : slice.segment ∈ owned)
    (hhead : FreeHead st slice) (hlo : slice.start ≤ p)
    (hhi : p + size ≤ slice.start +
      (st.slices slice).sliceCount * segmentSliceSize) :
    SpanPurgeInvariant
      (st.setCommit slice.segment
        (segmentSchedulePurge cfg (st.segments slice.segment) st.os
          slice.segment p size))
      pending tid owned tiles lists := by
  rcases h.spans.freeHead_tile howned hhead with
    ⟨before, after, count, hsplit, hcount⟩
  have hmem : (⟨slice.idx, count, .free⟩ : Tile SpanKind) ∈
      tiles slice.segment := by
    rw [hsplit]
    simp
  have htiled := h.spans.layout.tiled _ howned
  have hstop := h.spans.layout.stop_le howned hmem
  simp only [Tile.stop] at hstop
  have hlo' : slice.segment * segmentSize +
      slice.idx * segmentSliceSize ≤ p := hlo
  have hhi' : p + size ≤ slice.segment * segmentSize +
      slice.idx * segmentSliceSize + count * segmentSliceSize := by
    rw [← hcount]
    exact hhi
  have hkeeps : KeepsSafe
      (fun b => slice.idx ≤ b ∧ b < slice.idx + count)
      (st.segments slice.segment).commit
      (segmentSchedulePurge cfg (st.segments slice.segment) st.os
        slice.segment p size).1 := by
    apply segmentSchedulePurge_keepsSafe cfg (h.masks.slices _ howned)
    · omega
    · intro b hlo hhi
      unfold segmentSliceSize at hlo hhi hlo' hhi'
      omega
  have honly := onlyCommit_setCommit st slice.segment
    (segmentSchedulePurge cfg (st.segments slice.segment) st.os
      slice.segment p size)
  have hspans : SpanInvariant
      (st.setCommit slice.segment
        (segmentSchedulePurge cfg (st.segments slice.segment) st.os
          slice.segment p size)) pending tid owned tiles lists :=
    h.spans.congr rfl (fun s _ => honly.header s) rfl rfl
      fun s _ => honly.used s
  refine ⟨hspans, ?_⟩
  apply h.masks.step (setCommit_segments st slice.segment _) ⟨rfl, rfl, rfl⟩
    hkeeps _ h.spans hspans
  · intro s tile htile hkind
    refine Or.inl ⟨htile, ?_⟩
    rintro rfl b hb hb' hin
    have hsame := htiled.eq_of_index htile hmem ⟨hb, hb'⟩ hin
    rw [hsame] at hkind
    cases hkind
  · intro _ b hb
    omega

theorem SpanStep.purgeInvariant {cfg : Config} {tid : ℕ} {owned : Set ℕ}
    {run run' : State × Pending} (hstep : SpanStep cfg tid owned run run')
    (h : SpanPurgeInvariantRun tid ⟨owned, run.1, run.2⟩) :
    SpanPurgeInvariantRun tid ⟨owned, run'.1, run'.2⟩ := by
  have hrules := purgeInvariant_allocationRules cfg tid owned
  cases hstep with
  | pageAlloc hresult => exact hrules.pageAlloc h hresult
  | pageFree howned hhead hidx =>
      rcases h with ⟨tiles, lists, h⟩
      exact h.pageClear howned hhead hidx cfg
  | extend howned hhead hneed hresult =>
      rcases h with ⟨tiles, lists, h⟩
      exact h.extend howned hhead hneed hresult
  | usePage page next prev os howned hhead hcount hoffset hsize =>
      rcases h with ⟨tiles, lists, h⟩
      exact ⟨tiles, lists,
        h.usePage howned hhead next prev os hcount hoffset hsize⟩
  | purge segment force =>
      rcases h with ⟨tiles, lists, h⟩
      exact ⟨tiles, lists, h.purge cfg segment force⟩
  | take howned hhead => exact hrules.take h howned hhead
  | split hcount => exact hrules.split h hcount
  | allocate hpending hresult => exact hrules.allocate h hpending hresult
  | giveBack hpending => exact hrules.giveBack h hpending

theorem PurgeStep.invariant {cfg : Config} {tid : ℕ}
    {run run' : ThreadSegments} (hstep : PurgeStep cfg tid run run')
    (h : SpanPurgeInvariantRun tid run) : SpanPurgeInvariantRun tid run' := by
  cases hstep with
  | span hstep => exact hstep.purgeInvariant h
  | newSegment hnew hheader hresult =>
      rcases h with ⟨tiles, lists, h⟩
      apply (h.writeHeader hnew _).newSegment hnew _ hresult
      rw [State.setSegment_self]
      exact hheader
  | commit hresult =>
      rcases h with ⟨tiles, lists, h⟩
      refine ⟨tiles, lists, h.setCommit _ ?_⟩
      intro _
      rw [← hresult]
      exact segmentCommit_keepsSafe ..
  | schedulePurge howned hhead hlo hhi =>
      rcases h with ⟨tiles, lists, h⟩
      exact ⟨tiles, lists, h.schedulePurge cfg howned hhead hlo hhi⟩

theorem purgeInvariantRun_start {tid : ℕ} (htid : tid ≠ 0) {start : State}
    (hempty : ∀ bin, start.spans tid bin = Ends.empty) :
    SpanPurgeInvariantRun tid ⟨∅, start, .idle⟩ := by
  have hnone : ∀ s, s ∉ (∅ : Set ℕ) := Set.notMem_empty
  have hqueues : IsFamily start.links (start.spans tid)
      (fun _ : ℕ => ([] : List SlicePtr)) := by
    constructor
    · intro bin
      rw [hempty bin]
      exact .nil _
    · intro i j node hmem
      cases hmem
  have hlayout : SpanLayout start tid ∅ (fun _ => []) (fun _ => []) := by
    refine ⟨htid, by simp, by simp, by simp, by simp, by simp, by simp,
      hqueues, by simp⟩
  refine ⟨fun _ => [], fun _ => [], ⟨hlayout, ?_, ?_, ?_, ?_⟩, ?_⟩
  · exact fun s hs => absurd hs (hnone s)
  · exact fun s hs => absurd hs (hnone s)
  · intro slice hslice
    cases hslice
  · intro slice hslice
    cases hslice
  · constructor <;> exact fun s hs => absurd hs (hnone s)

theorem SpanPurgeInvariantRun.run {cfg : Config} {tid : ℕ}
    {start run : ThreadSegments} (h : SpanPurgeInvariantRun tid start)
    (hrun : ReflTransGen (PurgeStep cfg tid) start run) :
    SpanPurgeInvariantRun tid run := by
  induction hrun with
  | refl => exact h
  | tail _ hstep ih => exact hstep.invariant ih

/-! ## What a purge reaches -/

/-- The slice belongs to a free span, or to the span that an operation has
taken and not made a page of, and it is no info slice. -/
def State.SpareSlice (st : State) (pending : Pending) (segment b : ℕ) :
    Prop :=
  (st.segments segment).segmentInfoSlices ≤ b ∧
    ∃ idx, SpanHead st segment idx ∧ idx ≤ b ∧
      b < idx + (st.slices ⟨segment, idx⟩).sliceCount ∧
      ((st.slices ⟨segment, idx⟩).blockSize = 0 ∨
        pending.slice = some ⟨segment, idx⟩)

namespace SpanPurgeInvariant

variable {st st' : State} {tid segment : ℕ} {owned : Set ℕ}
  {tiles tiles' : ℕ → List (Tile SpanKind)}
  {lists lists' : ℕ → List SlicePtr} {pending : Pending} {slice : SlicePtr}

theorem spareSlice (h : SpanPurgeInvariant st pending tid owned tiles lists)
    (howned : segment ∈ owned) {tile : Tile SpanKind}
    (htile : tile ∈ tiles segment) (hkind : tile.kind ≠ .used) {b : ℕ}
    (hlo : tile.start ≤ b) (hhi : b < tile.stop) :
    st.SpareSlice pending segment b := by
  have htiled := h.spans.layout.tiled segment howned
  rcases h.spans.head howned htile with ⟨hcount, -, hfree⟩
  constructor
  · rcases h.masks.info segment howned with
      ⟨info, hinfo, hstart, hused, hinfoCount⟩
    by_contra hlt
    have hin : info.start ≤ b ∧ b < info.stop := by
      simp only [Tile.stop]
      omega
    have hsame := htiled.eq_of_index htile hinfo ⟨hlo, hhi⟩ hin
    rw [hsame] at hkind
    exact hkind hused
  · refine ⟨tile.start, ?_, hlo, ?_, ?_⟩
    · exact (h.spans.spanHead_iff howned _).mpr ⟨tile, htile, rfl⟩
    · rw [hcount]
      exact hhi
    · cases hcase : tile.kind with
      | used => exact absurd hcase hkind
      | free => exact Or.inl (hfree.mpr hcase)
      | detached =>
          exact Or.inr (h.spans.detached segment howned tile htile hcase)

theorem scheduled_tile (h : SpanPurgeInvariant st pending tid owned tiles lists)
    (howned : segment ∈ owned) {b : ℕ}
    (hb : (st.segments segment).commit.purgeMask.getBit b = true)
    {tile : Tile SpanKind} (htile : tile ∈ tiles segment)
    (hlo : tile.start ≤ b) (hhi : b < tile.stop) : tile.kind ≠ .used := by
  intro hused
  have hsafe := (h.masks.safe segment howned tile htile hused b hlo hhi).2
  rw [hsafe] at hb
  cases hb

theorem scheduled_spare (h : SpanPurgeInvariant st pending tid owned tiles lists)
    (howned : segment ∈ owned) {b : ℕ}
    (hb : (st.segments segment).commit.purgeMask.getBit b = true) :
    st.SpareSlice pending segment b := by
  rcases (h.spans.layout.tiled segment howned).exists_tile (Nat.zero_le b)
    (h.masks.scheduled segment howned b hb) with ⟨tile, htile, hlo, hhi⟩
  exact h.spareSlice howned htile
    (h.scheduled_tile howned hb htile hlo hhi) hlo hhi

theorem page_safe (h : SpanPurgeInvariant st pending tid owned tiles lists)
    (howned : slice.segment ∈ owned) (hhead : UsedHead st slice)
    (hpage : pending.slice ≠ some slice) {b : ℕ} (hlo : slice.idx ≤ b)
    (hhi : b < slice.idx + (st.slices slice).sliceCount) :
    (st.segments slice.segment).commit.Safe b := by
  rcases (h.spans.spanHead_iff howned _).mp hhead.1 with
    ⟨tile, htile, hstart⟩
  rcases h.spans.head howned htile with ⟨hcount, -, hfree⟩
  rw [hstart] at hcount hfree
  have hused : tile.kind = .used := by
    cases hkind : tile.kind with
    | used => rfl
    | free =>
        have hzero : (st.slices slice).blockSize = 0 := hfree.mpr hkind
        have hpos := hhead.2
        omega
    | detached =>
        have hsome := h.spans.detached _ howned tile htile hkind
        rw [hstart] at hsome
        exact absurd hsome hpage
  apply h.masks.safe _ howned tile htile hused b
  · rw [hstart]
    exact hlo
  · simp only [Tile.stop, hstart, ← hcount]
    exact hhi

/-- What is purged while a span is freed is free afterwards. -/
theorem freed_onSlices (h : SpanPurgeInvariant st pending tid owned tiles lists)
    (h' : SpanPurgeInvariant st' .idle tid owned tiles' lists')
    (howned : segment ∈ owned) {idx total : ℕ}
    (hentries : (st'.segments segment).sliceEntries =
      (st.segments segment).sliceEntries)
    (hmem : ⟨idx, total, .free⟩ ∈ tiles' segment)
    (hkept : UsedKept tiles tiles') (cfg : Config) (os : Os) :
    ∀ range ∈ segmentSchedulePurged cfg (st.segments segment) os segment
      (SlicePtr.start ⟨segment, idx⟩) (total * segmentSliceSize),
      OnSlices segment (st'.SpareSlice .idle segment) range := by
  have htiled := h.spans.layout.tiled segment howned
  have htiled' := h'.spans.layout.tiled segment howned
  apply segmentSchedulePurged_onSlices cfg (h.masks.slices segment howned) os
    (Nat.le_add_right _ _)
  · intro b hb
    have hlt := h.masks.scheduled segment howned b hb
    rw [← hentries] at hlt
    rcases htiled'.exists_tile (Nat.zero_le b) hlt with
      ⟨tile, htile, hlo, hhi⟩
    apply h'.spareSlice howned htile _ hlo hhi
    intro hused
    exact h.scheduled_tile howned hb (hkept segment tile htile hused) hlo hhi
      hused
  · intro b hlo hhi
    have hstart : segment * segmentSize + idx * segmentSliceSize ≤
        segment * segmentSize + b * segmentSliceSize := hlo
    have hstop : segment * segmentSize + (b + 1) * segmentSliceSize ≤
        segment * segmentSize + idx * segmentSliceSize +
          total * segmentSliceSize := hhi
    apply h'.spareSlice howned hmem (by simp)
    · unfold segmentSliceSize at hstart
      simp only
      omega
    · unfold segmentSliceSize at hstop
      simp only [Tile.stop]
      omega

/-- The step frees a span of the segment, and all ranges that are purged in
it are spare afterwards. -/
def PurgesSpare (cfg : Config) (st st' : State) (segment : ℕ) : Prop :=
  ∃ p size,
    st'.os = (segmentSchedulePurge cfg (st.segments segment) st.os segment p
      size).2 ∧
    ∀ range ∈ segmentSchedulePurged cfg (st.segments segment) st.os segment p
      size, OnSlices segment (st'.SpareSlice .idle segment) range

theorem giveBack_purgesSpare
    (h : SpanPurgeInvariant st pending tid owned tiles lists)
    (hpending : pending.slice = some slice) (cfg : Config) :
    PurgesSpare cfg st (segmentSpanFreeCoalesce cfg st tid slice).2
      slice.segment := by
  rcases h.spans.recorded slice hpending with ⟨howned, -, -, -⟩
  rcases h.spans.giveBack hpending cfg with ⟨hcommit, tiles', lists',
    hspans', hkept, idx, total, st₁, hmem, hsame, hfreed⟩
  have h' : SpanPurgeInvariant (segmentSpanFreeCoalesce cfg st tid slice).2 .idle
      tid owned tiles' lists' :=
    ⟨hspans', h.masks.freeSpan h.spans howned hsame.1 hfreed
      (Function.update_eq_self _ _).symm ⟨rfl, rfl, rfl⟩ rfl hspans' hmem
      hkept⟩
  have htotal := hspans'.layout.count_pos howned hmem
  have hos := (segmentSpanFree_purge cfg st₁ tid slice.segment idx htotal).2
  refine ⟨_, _, ?_, h.freed_onSlices h' howned
    (hcommit.header slice.segment).sliceEntries hmem hkept cfg st.os⟩
  rw [hfreed, hos, hsame.1, hsame.2]

theorem pageClear_purgesSpare
    (h : SpanPurgeInvariant st .idle tid owned tiles lists)
    (howned : slice.segment ∈ owned) (hhead : UsedHead st slice)
    (hidx : slice.idx ≠ 0) (cfg : Config) :
    PurgesSpare cfg st (segmentPageClear cfg st tid slice).2
      slice.segment := by
  rcases h.spans.pageClear howned hhead hidx cfg with ⟨tiles', lists',
    hspans', hkept, idx, total, st₁, hmem, hsame, hcleared⟩
  have h' : SpanPurgeInvariant (segmentPageClear cfg st tid slice).2 .idle tid
      owned tiles' lists' :=
    ⟨hspans', h.masks.freeSpan h.spans howned hsame.1 rfl
      (congrArg State.segments hcleared) ⟨rfl, rfl, rfl⟩ rfl hspans' hmem
      hkept⟩
  have htotal := hspans'.layout.count_pos howned hmem
  rcases segmentSpanFree_purge cfg st₁ tid slice.segment idx htotal with
    ⟨hsegments, hos⟩
  have hentries : ((segmentPageClear cfg st tid slice).2.segments
      slice.segment).sliceEntries =
        (st.segments slice.segment).sliceEntries := by
    rw [hcleared]
    dsimp only
    rw [State.setSegment_self, hsegments, Function.update_self, hsame.1]
    rfl
  refine ⟨_, _, ?_, h.freed_onSlices h' howned hentries hmem hkept cfg
    st.os⟩
  rw [hcleared]
  exact hos.trans (by rw [hsame.1, hsame.2])

end SpanPurgeInvariant

/-- Used pages are never purged: in every state of every run only committed
slices are scheduled for a purge, the slices of every page are committed and
not scheduled, and what `pa_segment_try_purge` would purge, forced or not,
are spare slices.  The purges that happen while a page or a span is freed
reach slices only that are spare afterwards. -/
theorem used_pages_never_purged (cfg : Config) (tid : ℕ) (start : State)
    (run : ThreadSegments) (htid : tid ≠ 0)
    (hempty : ∀ bin, start.spans tid bin = Ends.empty)
    (hrun : ReflTransGen (PurgeStep cfg tid) ⟨∅, start, .idle⟩ run) :
    (∀ segment ∈ run.owned,
      let info := run.st.segments segment
      info.commit.PurgeCommitted ∧
      (∀ idx, UsedHead run.st ⟨segment, idx⟩ →
        run.pending.slice ≠ some ⟨segment, idx⟩ →
        ∀ b, idx ≤ b →
          b < idx + (run.st.slices ⟨segment, idx⟩).sliceCount →
            info.commit.Safe b) ∧
      ∀ force, ∀ range ∈
        segmentTryPurged cfg info info.commit run.st.os segment force,
        OnSlices segment (run.st.SpareSlice run.pending segment) range) ∧
    (∀ slice, run.pending.slice = some slice →
      SpanPurgeInvariant.PurgesSpare cfg run.st
        (segmentSpanFreeCoalesce cfg run.st tid slice).2 slice.segment) ∧
    (run.pending = .idle → ∀ slice, slice.segment ∈ run.owned →
      UsedHead run.st slice → slice.idx ≠ 0 →
        SpanPurgeInvariant.PurgesSpare cfg run.st
          (segmentPageClear cfg run.st tid slice).2 slice.segment) := by
  rcases (purgeInvariantRun_start htid hempty).run hrun with
    ⟨tiles, lists, h⟩
  refine ⟨?_, ?_, ?_⟩
  · intro segment howned
    refine ⟨h.masks.committed segment howned, ?_, ?_⟩
    · intro idx hhead hpage b hlo hhi
      exact h.page_safe howned hhead hpage hlo hhi
    · intro force range hmem
      have hscheduled := segmentTryPurged_onSlices cfg
        (h.masks.slices segment howned) (run.st.segments segment).commit
        run.st.os force range hmem
      exact hscheduled.mono fun b hb => h.scheduled_spare howned hb
  · intro slice hpending
    exact h.giveBack_purgesSpare hpending cfg
  · intro hidle slice howned hhead hidx
    rw [hidle] at h
    exact h.pageClear_purgesSpare howned hhead hidx cfg

/-- A first page is allocated in a new segment: its eight slices are safe. -/
theorem used_pages_never_purged_pageState :
    (pageState.segments 1).commit.PurgeCommitted ∧
      ∀ b, 1 ≤ b → b < 9 → (pageState.segments 1).commit.Safe b := by
  have hheader : NewHeader firstInfo 1 := by
    constructor <;> decide
  have hsame : emptyState.setSegment 1 firstInfo = emptyState := by
    unfold State.setSegment emptyState
    rw [Function.update_eq_self_iff.mpr rfl]
  have hinit : ∃ page, segmentInitSpans {} (emptyState.setSegment 1
      firstInfo) 1 1 0 = some (page, firstState) := by
    have hsome : (segmentInitSpans {} emptyState 1 1 0).isSome := by
      decide +kernel
    rcases Option.isSome_iff_exists.mp hsome with ⟨⟨page, st⟩, hresult⟩
    refine ⟨page, ?_⟩
    rw [hsame]
    unfold firstState
    rw [hresult]
    rfl
  rcases hinit with ⟨page, hinit⟩
  rcases pageState_eq with ⟨page', halloc⟩
  have hnew := @PurgeStep.newSegment {} 1 ∅ emptyState firstState 1 0
    firstInfo page (Set.notMem_empty 1) hheader hinit
  have hpage := PurgeStep.span (@SpanStep.pageAlloc {} 1 (insert 1 ∅)
    firstState pageState 1 8 0 page' halloc)
  have hrun := ReflTransGen.tail (.single hnew) hpage
  have hall := used_pages_never_purged {} 1 emptyState
    ⟨insert 1 ∅, pageState, .idle⟩ (by decide) (fun _ => rfl) hrun
  rcases hall.1 1 (Set.mem_insert 1 ∅) with ⟨hcommitted, hsafe, -⟩
  have hcount : (pageState.slices ⟨1, 1⟩).sliceCount = 8 := by
    decide +kernel
  refine ⟨hcommitted, ?_⟩
  intro b hlo hhi
  apply hsafe 1 pageState_usedHead (by simp [Pending.slice]) b hlo
  dsimp only
  rw [hcount]
  exact hhi

end Palloc
