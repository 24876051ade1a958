import Palloc.ArenaMemory
import Palloc.CommittedSlices
import Palloc.HugeSegment

/-!
# Segments and the memory behind them

A segment has its memory from an arena or from the operating system.  It
commits and purges its slices on its own, while the arena purges its free
blocks.  The operating system may refuse any commit and any purge.
-/

namespace Palloc

open BlockHeap MachineWord

/-! ## Segments -/

/-- The loop of `_pa_commit_mask_committed_size` over a field. -/
def countOnesOf : (fuel : ℕ) → BitVec 64 → ℕ
  | 0, _ => 0
  | fuel + 1, mask =>
      if mask = 0 then 0
      else (if mask.getLsbD 0 then 1 else 0) + countOnesOf fuel (mask >>> 1)

def CommitMask.fieldOnes (mask : BitVec 64) : ℕ :=
  if ~~~mask = 0 then commitMaskFieldBits else countOnesOf 64 mask

/-- `_pa_commit_mask_committed_size`. -/
def CommitMask.committedSize (cm : CommitMask) (total : ℕ) : ℕ :=
  total / commitMaskBits * ∑ i, fieldOnes (cm.mask i)

def ArenaMemid.toMemid (memid : ArenaMemid) : Memid where
  memkind := .arena
  blockIndex := memid.blockIndex
  arenaId := memid.arenaId
  isExclusive := memid.isExclusive
  isPinned := memid.isPinned
  initiallyCommitted := memid.initiallyCommitted
  initiallyZero := memid.initiallyZero

/-- `pa_segment_os_alloc` from the allocated memory on: the header of the
segment, or nothing when its slices cannot be committed. -/
def segmentOsHeader (cfg : Config) (os : Os) (segment tid : ℕ)
    (slices : ℕ × ℕ) (memid : Memid) : Option SegmentInfo × Os :=
  let header (commitMask : CommitMask) : SegmentInfo :=
    { memid := memid
      allowDecommit := !memid.isPinned
      allowPurge := !memid.isPinned && decide (0 ≤ cfg.purgeDelay)
      segmentSize := slices.1 * segmentSliceSize
      commit :=
        { purgeExpire := 0
          purgeDelayMs := cfg.purgeDelay
          purgeMask := CommitMask.createEmpty
          commitMask := commitMask }
      wasReclaimed := false
      dontFree := false
      freeIsZero := memid.initiallyZero
      abandoned := 0
      abandonedVisits := 0
      used := 0
      segmentSlices := slices.1
      segmentInfoSlices := slices.2
      kind := .normal
      sliceEntries := 0
      threadId := tid }
  if memid.initiallyCommitted then (some (header CommitMask.createFull), os)
  else
    let commitNeeded := divideUp (slices.2 * segmentSliceSize) commitSize
    let (ok, _, os) := os.commit (segment * segmentSize)
      (commitNeeded * commitSize)
    if ok then (some (header (CommitMask.create 0 commitNeeded)), os)
    else (none, os)

/-- `pa_segment_alloc` from the header on.  The state stays as it is when the
info slices are not committed, which the source asserts not to happen. -/
def segmentSetUp (cfg : Config) (b : BlockBuild) (sizes : SegmentSizes)
    (st : State) (tid segment required alignment : ℕ) (info : SegmentInfo) :
    Option SlicePtr × State :=
  let info := segmentAllocInfo b sizes required alignment info
  let st := st.setSegment segment info
  let st :=
    if b.secure then
      let result := segmentEnsureCommitted cfg info st.os segment
        (segment * segmentSize + segmentByteSize info - sizes.osPageSize)
        sizes.osPageSize
      st.setCommit segment (result.commit, result.os)
    else st
  match segmentInitSpans cfg st tid segment b.guardSlices with
  | none => (none, st)
  | some (page, st) => (page, st)

structure SameMemory (info info' : SegmentInfo) : Prop where
  kind : info'.kind = info.kind
  allowPurge : info'.allowPurge = info.allowPurge
  segmentSlices : info'.segmentSlices = info.segmentSlices
  infoSlices : info'.segmentInfoSlices = info.segmentInfoSlices

/-! ## The heap -/

/-- The arenas with their live allocations, the memory mapped for single
segments, and the segments. -/
structure CommitHeap where
  run : ArenaRun
  mapped : List Mapped
  st : State

def LiveBlocks.segment (l : LiveBlocks) : ℕ := l.p / segmentSize

def CommitHeap.regions (h : CommitHeap) : List Mapped :=
  h.run.live.map (fun l => (l.segment, l.blocks * arenaBlockSize)) ++ h.mapped

def CommitHeap.HasSegment (h : CommitHeap) (segment : ℕ) : Prop :=
  ∃ size, (segment, size) ∈ h.regions

/-- A step.  `map` gives memory for an arena; `other` stands for all that
changes neither the commit fields and sizes of the segments nor the memory. -/
inductive CommitEvent where
  | map (r : Mapped) (commit : Bool)
  | manage (area : OsArea) (exclusive metaOk : Bool)
  | arenasPurge (env : ArenaEnv) (recommit : ℕ → ℕ → Bool)
      (force visitAll : Bool)
  | allocArena (index tid required : ℕ) (eager : Bool)
      (env envPass : ArenaEnv) (recommit : ℕ → ℕ → Bool)
  | allocOs (segment tid required alignment : ℕ)
      (eager isPinned isZero : Bool)
  | freeArena (k : ℕ) (env envPass : ArenaEnv) (recommit : ℕ → ℕ → Bool)
  | freeOs (k : ℕ) (env : ArenaEnv) (recommit : ℕ → ℕ → Bool)
  | ensureCommitted (segment p size : ℕ)
  | pageAlloc (segment idx count : ℕ)
  | schedulePurge (segment p size : ℕ)
  | tryPurge (segment : ℕ) (force : Bool)
  | other (st : State)

abbrev SpanArea := SlicePtr × ℕ

namespace CommitHeap

/-- The page of a huge segment reaches to its end, or to the guard page. -/
def hugeArea (b : BlockBuild) (info : SegmentInfo) (page : SlicePtr) :
    SpanArea :=
  (page, info.segmentSlices - info.segmentInfoSlices - b.guardSlices)

def allocArena (cfg : Config) (b : BlockBuild) (sizes : SegmentSizes)
    (h : CommitHeap) (index tid required : ℕ) (eager : Bool)
    (env envPass : ArenaEnv) (recommit : ℕ → ℕ → Bool) :
    CommitHeap × Option SpanArea :=
  let slices := segmentAllocSlices b sizes required 0
  let size := slices.1 * segmentSliceSize
  match h.run.allocOs h.st.os index size (eager || decide (0 < required)) with
  | (none, run, os) => ({ h with run := run, st := { h.st with os := os } }, none)
  | (some l, run, os) =>
      match segmentOsHeader cfg os l.segment tid slices l.memid.toMemid with
      | (none, os) =>
          let (run, os) := run.freeOs os 0 size 0 env envPass recommit
          ({ h with run := run, st := { h.st with os := os } }, none)
      | (some info, os) =>
          let (page, st) := segmentSetUp cfg b sizes { h.st with os := os } tid
            l.segment required 0 info
          ({ h with run := run, st := st },
            page.map (hugeArea b (st.segments l.segment)))

/-- Memory that the operating system maps for a segment. -/
def mapMemory (os : Os) (r : Mapped) (commit : Bool) : Os :=
  { os with
    committed := fun a =>
      if r.1 * segmentSize ≤ a ∧ a < r.1 * segmentSize + r.2 then commit
      else os.committed a }

def allocOs (cfg : Config) (b : BlockBuild) (sizes : SegmentSizes)
    (h : CommitHeap) (segment tid required alignment : ℕ)
    (eager isPinned isZero : Bool) : CommitHeap × Option SpanArea :=
  let slices := segmentAllocSlices b sizes required alignment
  let size := slices.1 * segmentSliceSize
  let commit := eager || decide (0 < required)
  let memid : Memid :=
    { memkind := .os
      blockIndex := 0
      arenaId := 0
      isExclusive := false
      isPinned := isPinned
      initiallyCommitted := commit
      initiallyZero := isZero }
  let os := mapMemory h.st.os (segment, size) commit
  match segmentOsHeader cfg os segment tid slices memid with
  | (none, os) =>
      ({ h with st := { h.st with os := mapMemory os (segment, size) false } },
        none)
  | (some info, os) =>
      let (page, st) := segmentSetUp cfg b sizes { h.st with os := os } tid
        segment required alignment info
      ({ h with mapped := (segment, size) :: h.mapped, st := st },
        page.map (hugeArea b (st.segments segment)))

/-- `pa_segment_os_free` of a segment in an arena. -/
def freeArena (h : CommitHeap) (k : ℕ) (env envPass : ArenaEnv)
    (recommit : ℕ → ℕ → Bool) : CommitHeap :=
  match h.run.live[k]? with
  | none => h
  | some l =>
      let info := h.st.segments l.segment
      let size := segmentByteSize info
      let (run, os) := h.run.freeOs h.st.os k size
        (info.commit.commitMask.committedSize size) env envPass recommit
      { h with run := run, st := { h.st with os := os } }

/-- `pa_segment_os_free` of a segment in memory of its own, with the pass over
the arenas at its end. -/
def freeOs (h : CommitHeap) (k : ℕ) (env : ArenaEnv)
    (recommit : ℕ → ℕ → Bool) : CommitHeap :=
  match h.mapped[k]? with
  | none => h
  | some r =>
      let (run, os) := h.run.purgeOs (mapMemory h.st.os r false) env false
        false recommit
      { run := run
        mapped := h.mapped.eraseIdx k
        st := { h.st with os := os } }

/-- `pa_segments_page_alloc` once it has found a span: the page, after the
purge pass over its segment. -/
def pageAlloc (cfg : Config) (h : CommitHeap) (segment idx count : ℕ) :
    CommitHeap × Option SpanArea :=
  let (ok, st) := segmentSpanAllocate cfg h.st segment idx count
  if ok then
    let info := st.segments segment
    ({ h with
      st := st.setCommit segment
        (segmentTryPurge cfg info info.commit st.os segment false) },
      some (⟨segment, idx⟩, count))
  else ({ h with st := st }, none)

def step (cfg : Config) (b : BlockBuild) (sizes : SegmentSizes)
    (h : CommitHeap) : CommitEvent → CommitHeap × Option SpanArea
  | .map r commit =>
      ({ h with st := { h.st with os := mapMemory h.st.os r commit } }, none)
  | .manage area exclusive metaOk =>
      ({ h with run := h.run.call (.manage area exclusive metaOk) }, none)
  | .arenasPurge env recommit force visitAll =>
      let (run, os) := h.run.purgeOs h.st.os env force visitAll recommit
      ({ h with run := run, st := { h.st with os := os } }, none)
  | .allocArena index tid required eager env envPass recommit =>
      allocArena cfg b sizes h index tid required eager env envPass recommit
  | .allocOs segment tid required alignment eager isPinned isZero =>
      allocOs cfg b sizes h segment tid required alignment eager isPinned
        isZero
  | .freeArena k env envPass recommit =>
      (h.freeArena k env envPass recommit, none)
  | .freeOs k env recommit => (h.freeOs k env recommit, none)
  | .ensureCommitted segment p size =>
      let result := segmentEnsureCommitted cfg (h.st.segments segment) h.st.os
        segment p size
      ({ h with st := h.st.setCommit segment (result.commit, result.os) },
        none)
  | .pageAlloc segment idx count => pageAlloc cfg h segment idx count
  | .schedulePurge segment p size =>
      ({ h with
        st := h.st.setCommit segment (segmentSchedulePurge cfg
          (h.st.segments segment) h.st.os segment p size) }, none)
  | .tryPurge segment force =>
      let info := h.st.segments segment
      ({ h with
        st := h.st.setCommit segment
          (segmentTryPurge cfg info info.commit h.st.os segment force) },
        none)
  | .other st => ({ h with st := st }, none)

structure Unused (h : CommitHeap) (r : Mapped) : Prop where
  mapped : ∀ r' ∈ h.mapped,
    r.1 * segmentSize + r.2 ≤ r'.1 * segmentSize ∨
      r'.1 * segmentSize + r'.2 ≤ r.1 * segmentSize
  arenas : ∀ (i : ℕ) (arena : Arena), h.run.st.arenas[i]? = some arena →
    r.1 * segmentSize + r.2 ≤ arena.start ∨ arena.stop ≤ r.1 * segmentSize

/-- What the caller and the operating system promise: areas that are managed
and memory that is mapped are fresh, pages are made of slices of a normal
segment, purges lie in their segment. -/
def Allowed (b : BlockBuild) (sizes : SegmentSizes) (h : CommitHeap) :
    CommitEvent → Prop
  | .map r _ => h.Unused r
  | .manage area _ _ => h.run.Manageable h.mapped h.st.os area
  | .allocOs segment _ required alignment _ _ _ =>
      let slices := segmentAllocSlices b sizes required alignment
      (alignment = 0 ∨ 0 < required) ∧
        h.Unused (segment, slices.1 * segmentSliceSize)
  | .ensureCommitted segment _ _ => h.HasSegment segment
  | .pageAlloc segment idx count =>
      let info := h.st.segments segment
      h.HasSegment segment ∧ info.kind = .normal ∧ 0 < count ∧
        idx + count ≤ info.segmentSlices
  | .schedulePurge segment p _ =>
      h.HasSegment segment ∧ segment * segmentSize ≤ p
  | .tryPurge segment _ => h.HasSegment segment
  | .other st => st.os = h.st.os ∧
      ∀ segment, h.HasSegment segment →
        SameMemory (h.st.segments segment) (st.segments segment) ∧
          (st.segments segment).commit = (h.st.segments segment).commit
  | _ => True

/-- A huge segment is allocated in an arena, the operating system is asked to
commit its blocks and refuses, and then commits the info slices. -/
def Refused (b : BlockBuild) (sizes : SegmentSizes) (h : CommitHeap) :
    CommitEvent → Prop
  | .allocArena index _ required _ _ _ _ =>
      let size := (segmentAllocSlices b sizes required 0).1 * segmentSliceSize
      let blocks := divideUp size arenaBlockSize
      0 < required ∧ h.st.os.answer.commitOk = false ∧
        (h.st.os.answers (h.st.os.calls + 1)).commitOk = true ∧
        ∃ (arena : Arena) (bitmapIdx : ℕ),
          h.run.st.arenas[index]? = some arena ∧
          (tryFindFromClaimAcross arena.blocksInuse arena.fieldCount 0
            blocks).1 = some bitmapIdx ∧
          arena.asksCommit blocks bitmapIdx true = true
  | _ => False

end CommitHeap

/-! ## What a step touches -/

structure StateTouch (segment : ℕ) (st st' : State) : Prop where
  others : ∀ s, s ≠ segment → st'.segments s = st.segments s
  same : SameMemory (st.segments segment) (st'.segments segment)
  step : CommitStep (st.segments segment) segment
    (st.segments segment).commit st.os (st'.segments segment).commit st'.os

section Touch

variable {cfg : Config} {info info' : SegmentInfo} {st st' st'' : State}
variable {segment : ℕ}

theorem SameMemory.refl (info : SegmentInfo) : SameMemory info info :=
  ⟨rfl, rfl, rfl, rfl⟩

theorem SameMemory.fits (h : SameMemory info info') (hfits : info.Fits) :
    info'.Fits := by
  intro hkind
  rw [h.kind] at hkind
  rw [h.segmentSlices]
  exact hfits hkind

theorem CommitStep.congr {commit commit' : CommitState} {os os' : Os}
    (h : CommitStep info' segment commit os commit' os')
    (hsame : SameMemory info info') :
    CommitStep info segment commit os commit' os' := by
  refine ⟨h.backed, h.outside, ?_, ?_⟩
  · rw [← hsame.kind]
    exact h.huge
  · rw [← hsame.allowPurge]
    exact h.noPurge

theorem StateTouch.trans (h : StateTouch segment st st')
    (h' : StateTouch segment st' st'') : StateTouch segment st st'' where
  others s hs := (h'.others s hs).trans (h.others s hs)
  same := ⟨h'.same.kind.trans h.same.kind,
    h'.same.allowPurge.trans h.same.allowPurge,
    h'.same.segmentSlices.trans h.same.segmentSlices,
    h'.same.infoSlices.trans h.same.infoSlices⟩
  step := h.step.trans (h'.step.congr h.same)

theorem setCommit_touch {result : CommitState × Os}
    (hstep : CommitStep (st.segments segment) segment
      (st.segments segment).commit st.os result.1 result.2) :
    StateTouch segment st (st.setCommit segment result) := by
  have hself : (st.setCommit segment result).segments segment =
      (st.segments segment).withCommit result.1 := by
    rw [setCommit_segments, Function.update_self]
  refine ⟨?_, ?_, ?_⟩
  · intro s hs
    rw [setCommit_segments, Function.update_of_ne hs]
  · rw [hself]
    exact ⟨rfl, rfl, rfl, rfl⟩
  · rw [hself]
    exact hstep

theorem StateTouch.same_segments
    (hsegments : ∀ s, s ≠ segment → st'.segments s = st.segments s)
    (hsame : SameMemory (st.segments segment) (st'.segments segment))
    (hcommit : (st'.segments segment).commit = (st.segments segment).commit)
    (hos : st'.os = st.os) : StateTouch segment st st' := by
  refine ⟨hsegments, hsame, ?_⟩
  rw [hcommit, hos]
  exact .refl ..

theorem setUsedSpan_os (st : State) (segment idx count : ℕ)
    (isZeroInit : Bool) :
    (st.setUsedSpan segment idx count isZeroInit).os = st.os := by
  unfold State.setUsedSpan
  dsimp only
  rw [State.setSlice_os, apply_ite State.os]
  exact ite_self _

theorem segmentSpanFree_os_noPurge (cfg : Config) (st : State)
    (tid segment idx count : ℕ) :
    (segmentSpanFree cfg st tid segment idx count false).os = st.os := by
  unfold segmentSpanFree
  simp only [Bool.false_eq_true, if_false]
  split
  · exact setFreeSpan_os st segment idx _
  · exact setFreeSpan_os st segment idx _

theorem segmentSpanAllocate_os (cfg : Config) (st : State)
    (segment idx count : ℕ) :
    (segmentSpanAllocate cfg st segment idx count).2.os =
      (segmentEnsureCommitted cfg (st.segments segment) st.os segment
        (segment * segmentSize + idx * segmentSliceSize)
        (count * segmentSliceSize)).os := by
  unfold segmentSpanAllocate
  dsimp only
  rw [pageStart_slice]
  generalize segmentEnsureCommitted cfg (st.segments segment) st.os segment
    (segment * segmentSize + idx * segmentSliceSize)
    (count * segmentSliceSize) = result
  split
  · exact setUsedSpan_os _ _ _ _ ((st.segments segment).freeIsZero ||
      result.isZero)
  · rfl

theorem segmentSpanAllocate_touch (cfg : Config)
    (hfits : (st.segments segment).Fits) (idx count : ℕ) :
    StateTouch segment st (segmentSpanAllocate cfg st segment idx count).2 := by
  obtain ⟨-, used, hsegments⟩ :=
    segmentSpanAllocate_segments cfg st segment idx count
  have hos := segmentSpanAllocate_os cfg st segment idx count
  have hstep := segmentEnsureCommitted_step cfg hfits st.os segment
    (segment * segmentSize + idx * segmentSliceSize)
    (count * segmentSliceSize)
  generalize segmentEnsureCommitted cfg (st.segments segment) st.os segment
    (segment * segmentSize + idx * segmentSliceSize)
    (count * segmentSliceSize) = result at hsegments hos hstep
  refine ⟨?_, ?_, ?_⟩
  · intro s hs
    rw [hsegments, Function.update_of_ne hs]
  · rw [hsegments, Function.update_self]
    exact ⟨rfl, rfl, rfl, rfl⟩
  · rw [hsegments, Function.update_self, hos]
    exact hstep

/-- The spans of a new segment; a page is made in a huge one only. -/
theorem segmentInitSpans_touch (cfg : Config)
    (hfits : (st.segments segment).Fits) {tid guardSlices : ℕ}
    {page : Option SlicePtr}
    (hresult : segmentInitSpans cfg st tid segment guardSlices =
      some (page, st')) :
    StateTouch segment st st' ∧ ∀ slice, page = some slice →
      (st'.segments segment).kind = .huge ∧
      slice = ⟨segment, (st'.segments segment).segmentInfoSlices⟩ := by
  unfold segmentInitSpans at hresult
  have hfirst := segmentSpanAllocate_touch cfg hfits 0
    (st.segments segment).segmentInfoSlices
  rcases hallocated : segmentSpanAllocate cfg st segment 0
    (st.segments segment).segmentInfoSlices with ⟨ok, st₁⟩
  rw [hallocated] at hfirst
  dsimp only at hfirst hresult
  rw [hallocated] at hresult
  dsimp only at hresult
  split at hresult
  · cases hresult
  set st₂ := st₁.setSegment segment ((st₁.segments segment).withUsed 0)
    with hst₂
  have hself : st₂.segments segment = (st₁.segments segment).withUsed 0 :=
    State.setSegment_self _ _ _
  have hused : StateTouch segment st₁ st₂ := by
    refine .same_segments (fun s hs => State.setSegment_ne _ _ hs) ?_ ?_ rfl
    · rw [hself]
      exact ⟨rfl, rfl, rfl, rfl⟩
    · rw [hself]
      rfl
  have htwo := hfirst.trans hused
  rw [← hself] at hresult
  cases hkind : (st₂.segments segment).kind with
  | normal =>
      rw [hkind] at hresult
      simp only [Option.some.injEq, Prod.mk.injEq] at hresult
      obtain ⟨hnone, rfl⟩ := hresult
      refine ⟨htwo.trans (.same_segments ?_ ?_ ?_ ?_), ?_⟩
      · intro s _
        rw [segmentSpanFree_segments_noPurge]
      · rw [segmentSpanFree_segments_noPurge]
        exact .refl _
      · rw [segmentSpanFree_segments_noPurge]
      · exact segmentSpanFree_os_noPurge ..
      · intro slice hsome
        rw [← hnone] at hsome
        cases hsome
  | huge =>
      rw [hkind] at hresult
      simp only [Option.some.injEq, Prod.mk.injEq] at hresult
      obtain ⟨hpage, rfl⟩ := hresult
      have hlast := segmentSpanAllocate_touch cfg (htwo.same.fits hfits)
        (st₂.segments segment).segmentInfoSlices
        ((st₂.segments segment).segmentSlices -
          (st₂.segments segment).segmentInfoSlices - guardSlices)
      refine ⟨htwo.trans hlast, ?_⟩
      intro slice hsome
      rw [← hpage] at hsome
      split at hsome
      · cases hsome
        exact ⟨hlast.same.kind.trans hkind, by rw [hlast.same.infoSlices]⟩
      · cases hsome

/-- Setting up a segment. -/
theorem segmentSetUp_touch (cfg : Config) (b : BlockBuild)
    (sizes : SegmentSizes) (st : State) (tid segment : ℕ)
    {required alignment : ℕ} {info : SegmentInfo}
    (hfits : (segmentAllocInfo b sizes required alignment info).Fits) :
    StateTouch segment (st.setSegment segment
        (segmentAllocInfo b sizes required alignment info))
      (segmentSetUp cfg b sizes st tid segment required alignment info).2 ∧
    ∀ slice, (segmentSetUp cfg b sizes st tid segment required alignment
        info).1 = some slice →
      let header := (segmentSetUp cfg b sizes st tid segment required
        alignment info).2.segments segment
      header.kind = .huge ∧ slice = ⟨segment, header.segmentInfoSlices⟩ := by
  unfold segmentSetUp
  dsimp only
  generalize segmentAllocInfo b sizes required alignment info = header
    at hfits ⊢
  set st₁ := st.setSegment segment header with hst₁
  have hself : st₁.segments segment = header := State.setSegment_self _ _ _
  have hend : ∀ st₂, st₂ = st₁ ∨ StateTouch segment st₁ st₂ →
      StateTouch segment st₁ st₂ := by
    rintro st₂ (rfl | h)
    · exact .same_segments (fun _ _ => rfl) (.refl _) rfl rfl
    · exact h
  generalize hst₂ : (if b.secure then _ else st₁ : State) = st₂
  have hsecond : StateTouch segment st₁ st₂ := by
    apply hend
    rw [← hst₂]
    split
    · right
      apply setCommit_touch
      rw [hself]
      exact segmentEnsureCommitted_step cfg hfits ..
    · exact Or.inl rfl
  cases hresult : segmentInitSpans cfg st₂ tid segment b.guardSlices with
  | none =>
      refine ⟨hsecond, ?_⟩
      intro slice hsome
      cases hsome
  | some result =>
      have hfits₂ : (st₂.segments segment).Fits := by
        apply hsecond.same.fits
        rw [hself]
        exact hfits
      obtain ⟨hlast, hpage⟩ := segmentInitSpans_touch cfg hfits₂ hresult
      exact ⟨hsecond.trans hlast, hpage⟩

end Touch

end Palloc
