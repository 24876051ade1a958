import Palloc.SegmentPurge
import Palloc.SpanRun

/-!
# Pages are never scheduled for a purge

The slices of the used spans are committed and not scheduled for a purge.  An
operation either leaves the masks alone, commits the slices of the page that
it makes, or schedules a purge of a span that it has just freed.
-/

namespace Palloc

open IntervalTiling

/-! ## What the operations do to the segments -/

theorem setFreeSpan_segments (st : State) (segment idx count : ℕ) :
    (st.setFreeSpan segment idx count).segments = st.segments := by
  unfold State.setFreeSpan
  dsimp only
  split
  · rfl
  · rfl

theorem setUsedSpan_segments (st : State) (segment idx count : ℕ)
    (isZeroInit : Bool) :
    (st.setUsedSpan segment idx count isZeroInit).segments = st.segments := by
  unfold State.setUsedSpan
  dsimp only
  rw [State.setSlice_segments, apply_ite State.segments]
  exact ite_self _

theorem setCommit_segments (st : State) (segment : ℕ)
    (result : CommitState × Os) :
    (st.setCommit segment result).segments =
      Function.update st.segments segment
        ((st.segments segment).withCommit result.1) := rfl

theorem setFreeSpan_os (st : State) (segment idx count : ℕ) :
    (st.setFreeSpan segment idx count).os = st.os := by
  unfold State.setFreeSpan
  dsimp only
  split
  · rfl
  · rfl

theorem segmentSpanFree_purge (cfg : Config) (st : State)
    (tid segment idx : ℕ) {count : ℕ} (hcount : 0 < count) :
    let freed := segmentSpanFree cfg st tid segment idx count true
    let result := segmentSchedulePurge cfg (st.segments segment) st.os
      segment (SlicePtr.start ⟨segment, idx⟩) (count * segmentSliceSize)
    freed.segments = Function.update st.segments segment
        ((st.segments segment).withCommit result.1) ∧
      freed.os = result.2 := by
  have hne : count ≠ 0 := by omega
  have hsegments := setFreeSpan_segments st segment idx count
  have hos := setFreeSpan_os st segment idx count
  unfold segmentSpanFree
  simp only [if_neg hne, if_true, hos]
  have hset : ∀ result : CommitState × Os,
      ((st.setFreeSpan segment idx count).setCommit segment result).segments =
        Function.update st.segments segment
          ((st.segments segment).withCommit result.1) := by
    intro result
    rw [setCommit_segments, hsegments]
  split
  · exact ⟨hset _, rfl⟩
  · exact ⟨hset _, rfl⟩

theorem segmentSpanFree_segments_noPurge (cfg : Config) (st : State)
    (tid segment idx count : ℕ) :
    (segmentSpanFree cfg st tid segment idx count false).segments =
      st.segments := by
  unfold segmentSpanFree
  simp only [Bool.false_eq_true, if_false]
  split
  · exact setFreeSpan_segments st segment idx _
  · exact setFreeSpan_segments st segment idx _

theorem segmentSliceSplit_segments (cfg : Config) (st : State) (tid : ℕ)
    (slice : SlicePtr) (sliceCount : ℕ) :
    (segmentSliceSplit cfg st tid slice sliceCount).segments =
      st.segments := by
  unfold segmentSliceSplit
  dsimp only
  split
  · rfl
  · exact segmentSpanFree_segments_noPurge ..

theorem pageStart_slice (segment idx sliceCount : ℕ) :
    (segmentPageStartFromSlice segment idx sliceCount 0).1 =
      segment * segmentSize + idx * segmentSliceSize := by
  unfold segmentPageStartFromSlice
  simp [intptrSize, alignUp, maxAlignSize]

theorem segmentSpanAllocate_segments (cfg : Config) (st : State)
    (segment idx count : ℕ) :
    let result := segmentEnsureCommitted cfg (st.segments segment) st.os
      segment (segment * segmentSize + idx * segmentSliceSize)
      (count * segmentSliceSize)
    (segmentSpanAllocate cfg st segment idx count).1 = result.ok ∧
      ∃ used, (segmentSpanAllocate cfg st segment idx count).2.segments =
        Function.update st.segments segment
          (((st.segments segment).withCommit result.commit).withUsed
            used) := by
  unfold segmentSpanAllocate
  dsimp only
  rw [pageStart_slice]
  generalize segmentEnsureCommitted cfg (st.segments segment) st.os segment
    (segment * segmentSize + idx * segmentSliceSize)
    (count * segmentSliceSize) = result
  have hself : (st.setCommit segment (result.commit, result.os)).segments
      segment = (st.segments segment).withCommit result.commit := by
    rw [setCommit_segments, Function.update_self]
  cases hok : result.ok with
  | false =>
      refine ⟨rfl, (st.segments segment).used, ?_⟩
      exact setCommit_segments st segment (result.commit, result.os)
  | true =>
      refine ⟨rfl, (st.segments segment).used + 1, ?_⟩
      simp only [if_true]
      unfold State.setSegment
      dsimp only
      rw [setUsedSpan_segments, hself, setCommit_segments,
        Function.update_idem]
      rfl

/-! ## The invariant -/

structure SameSizes (info info' : SegmentInfo) : Prop where
  sliceEntries : info'.sliceEntries = info.sliceEntries
  segmentSlices : info'.segmentSlices = info.segmentSlices
  infoSlices : info'.segmentInfoSlices = info.segmentInfoSlices

structure MasksFit (st : State) (owned : Set ℕ)
    (tiles : ℕ → List (Tile SpanKind)) : Prop where
  entries : ∀ segment ∈ owned,
    (st.segments segment).sliceEntries ≤ (st.segments segment).segmentSlices
  slices : ∀ segment ∈ owned,
    (st.segments segment).segmentSlices ≤ slicesPerSegment
  info : ∀ segment ∈ owned, ∃ tile ∈ tiles segment, tile.start = 0 ∧
    tile.kind = .used ∧ (st.segments segment).segmentInfoSlices ≤ tile.count
  committed : ∀ segment ∈ owned,
    (st.segments segment).commit.PurgeCommitted
  scheduled : ∀ segment ∈ owned, ∀ b,
    (st.segments segment).commit.purgeMask.getBit b = true →
      b < (st.segments segment).sliceEntries
  safe : ∀ segment ∈ owned, ∀ tile ∈ tiles segment, tile.kind = .used →
    ∀ b, tile.start ≤ b → b < tile.stop →
      (st.segments segment).commit.Safe b

/-- Two tilings have the same used tiles, apart from the tiles of one segment
that were made by the step. -/
def UsedOrNew (tiles tiles' : ℕ → List (Tile SpanKind)) (segment : ℕ)
    (touched : ℕ → Prop) (commit : CommitState) : Prop :=
  ∀ s, ∀ tile ∈ tiles' s, tile.kind = .used →
    tile ∈ tiles s ∧
        (s = segment → ∀ b, tile.start ≤ b → b < tile.stop → ¬ touched b) ∨
      s = segment ∧
        (∀ b, tile.start ≤ b → b < tile.stop → commit.Safe b) ∧
        (tile.start = 0 → ∃ old ∈ tiles s, old.kind = .used ∧
          old.start = 0 ∧ old.count ≤ tile.count)

namespace MasksFit

variable {st st' : State} {tid segment : ℕ} {owned : Set ℕ}
  {tiles tiles' : ℕ → List (Tile SpanKind)}
  {lists lists' : ℕ → List SlicePtr} {pending pending' : Pending}

/-- A step on the masks of one segment. -/
theorem step (h : MasksFit st owned tiles) {info : SegmentInfo}
    {touched : ℕ → Prop}
    (hsegments : st'.segments = Function.update st.segments segment info)
    (hsizes : SameSizes (st.segments segment) info)
    (hkeeps : KeepsSafe touched (st.segments segment).commit info.commit)
    (hbound : segment ∈ owned → ∀ b, touched b →
      b < (st.segments segment).sliceEntries)
    (hspans : SpanInvariant st pending tid owned tiles lists)
    (hspans' : SpanInvariant st' pending' tid owned tiles' lists')
    (hused : UsedOrNew tiles tiles' segment touched info.commit) :
    MasksFit st' owned tiles' := by
  have hself : st'.segments segment = info := by
    rw [hsegments, Function.update_self]
  have hother : ∀ s, s ≠ segment → st'.segments s = st.segments s := by
    intro s hs
    rw [hsegments, Function.update_of_ne hs]
  have hsame : ∀ s, SameSizes (st.segments s) (st'.segments s) := by
    intro s
    by_cases hs : s = segment
    · subst hs
      rw [hself]
      exact hsizes
    · rw [hother s hs]
      exact ⟨rfl, rfl, rfl⟩
  constructor
  · intro s hs
    rw [(hsame s).sliceEntries, (hsame s).segmentSlices]
    exact h.entries s hs
  · intro s hs
    rw [(hsame s).segmentSlices]
    exact h.slices s hs
  · intro s hs
    rw [(hsame s).infoSlices]
    rcases hspans'.layout.info s hs with ⟨tile, htile, hstart, hkind⟩
    rcases h.info s hs with ⟨first, hfirst, hfirstStart, -, hcount⟩
    have hlarge : ∀ old ∈ tiles s, old.start = 0 →
        (st.segments s).segmentInfoSlices ≤ old.count := by
      intro old hold holdStart
      rw [(hspans.layout.tiled s hs).eq_of_start hold hfirst
        (holdStart.trans hfirstStart.symm)]
      exact hcount
    refine ⟨tile, htile, hstart, hkind, ?_⟩
    rcases hused s tile htile hkind with ⟨hold, -⟩ | ⟨-, -, hnew⟩
    · exact hlarge tile hold hstart
    · rcases hnew hstart with ⟨old, hold, -, holdStart, hle⟩
      exact le_trans (hlarge old hold holdStart) hle
  · intro s hs
    by_cases hcase : s = segment
    · subst hcase
      rw [hself]
      exact hkeeps.committed (h.committed s hs)
    · rw [hother s hcase]
      exact h.committed s hs
  · intro s hs b hb
    rw [(hsame s).sliceEntries]
    by_cases hcase : s = segment
    · subst hcase
      rw [hself] at hb
      rcases hkeeps.scheduled b hb with hb | hb
      · exact h.scheduled s hs b hb
      · exact hbound hs b hb
    · rw [hother s hcase] at hb
      exact h.scheduled s hs b hb
  · intro s hs tile htile hkind b hlo hhi
    rcases hused s tile htile hkind with ⟨hold, hout⟩ | ⟨hcase, hsafe, -⟩
    · have hsafe := h.safe s hs tile hold hkind b hlo hhi
      by_cases hcase : s = segment
      · subst hcase
        rw [hself]
        exact hkeeps.safe b (hout rfl b hlo hhi) hsafe
      · rw [hother s hcase]
        exact hsafe
    · subst hcase
      rw [hself]
      exact hsafe b hlo hhi

theorem congr (h : MasksFit st owned tiles)
    (hsegments : st'.segments = st.segments)
    (hspans : SpanInvariant st pending tid owned tiles lists)
    (hspans' : SpanInvariant st' pending' tid owned tiles' lists')
    (hkept : UsedKept tiles tiles') : MasksFit st' owned tiles' := by
  apply @h.step _ _ tid 0 _ _ _ _ _ _ _ (st.segments 0) (fun _ => False) _
    ⟨rfl, rfl, rfl⟩ (KeepsSafe.refl _ _) _ hspans hspans'
  · intro s tile htile hkind
    exact Or.inl ⟨hkept s tile htile hkind, fun _ b _ _ hb => hb⟩
  · rw [Function.update_eq_self]
    exact hsegments
  · intro _ b hb
    exact hb.elim

/-- A change of the masks that touches no slice. -/
theorem setCommit (h : MasksFit st owned tiles)
    (hspans : SpanInvariant st pending tid owned tiles lists)
    (result : CommitState × Os)
    (hkeeps : KeepsSafe (fun _ => False) (st.segments segment).commit
      result.1) :
    SpanInvariant (st.setCommit segment result) pending tid owned tiles
        lists ∧
      MasksFit (st.setCommit segment result) owned tiles := by
  have honly := onlyCommit_setCommit st segment result
  have hspans' : SpanInvariant (st.setCommit segment result) pending
      tid owned tiles lists :=
    hspans.congr rfl (fun s _ => honly.header s) rfl rfl
      fun s _ => honly.used s
  refine ⟨hspans', ?_⟩
  apply h.step (setCommit_segments st segment result) ⟨rfl, rfl, rfl⟩
    hkeeps _ hspans hspans'
  · intro s tile htile hkind
    exact Or.inl ⟨htile, fun _ b _ _ hb => hb⟩
  · intro _ b hb
    exact hb.elim

/-- Freeing a span may purge its slices, and no used span has them. -/
theorem freeSpan (h : MasksFit st owned tiles)
    (hspans : SpanInvariant st pending tid owned tiles lists)
    (howned : segment ∈ owned) {cfg : Config} {idx total : ℕ}
    {st₁ freed : State} {info : SegmentInfo}
    (hsegments₁ : st₁.segments = st.segments)
    (hfreed : freed = segmentSpanFree cfg st₁ tid segment idx total true)
    (hsegments : st'.segments = Function.update freed.segments segment info)
    (hsizes : SameSizes (freed.segments segment) info)
    (hcommit : info.commit = (freed.segments segment).commit)
    (hspans' : SpanInvariant st' pending' tid owned tiles' lists')
    (hmem : ⟨idx, total, .free⟩ ∈ tiles' segment)
    (hkept : UsedKept tiles tiles') : MasksFit st' owned tiles' := by
  have htiled := hspans'.layout.tiled segment howned
  have hbounds := htiled.bounds hmem
  have hmasks :=
    (segmentSpanFree_purge cfg st₁ tid segment idx hbounds.2.1).1
  rw [← hfreed, hsegments₁] at hmasks
  rw [hmasks, Function.update_self] at hsizes hcommit
  rw [hmasks, Function.update_idem] at hsegments
  have hentries : (st'.segments segment).sliceEntries =
      (st.segments segment).sliceEntries := by
    rw [hsegments, Function.update_self, hsizes.sliceEntries]
    rfl
  have hstop := hbounds.2.2
  simp only [Tile.stop] at hstop
  have htouched : KeepsSafe (fun b => idx ≤ b ∧ b < idx + total)
      (st.segments segment).commit info.commit := by
    rw [hcommit]
    apply segmentSchedulePurge_keepsSafe cfg (h.slices segment howned)
    · exact Nat.le_add_right _ _
    · intro b hlo hhi
      unfold SlicePtr.start segmentSliceSize at hlo hhi
      dsimp only at hlo hhi
      omega
  apply h.step hsegments
    ⟨hsizes.sliceEntries, hsizes.segmentSlices, hsizes.infoSlices⟩ htouched _
    hspans hspans'
  · intro s tile htile hkind
    refine Or.inl ⟨hkept s tile htile hkind, ?_⟩
    intro hcase b hlo hhi hb
    subst hcase
    have hsame := htiled.eq_of_index htile hmem ⟨hlo, hhi⟩ hb
    rw [hsame] at hkind
    cases hkind
  · intro _ b hb
    omega

end MasksFit

theorem State.setSegment_of_notMem (st : State) {segment : ℕ}
    {owned : Set ℕ} (hnew : segment ∉ owned) (info : SegmentInfo) :
    ∀ s ∈ owned, (st.setSegment segment info).segments s = st.segments s := by
  intro s hs
  apply State.setSegment_ne
  intro heq
  rw [heq] at hs
  exact hnew hs

structure SpanPurgeInvariant (st : State) (pending : Pending) (tid : ℕ)
    (owned : Set ℕ) (tiles : ℕ → List (Tile SpanKind))
    (lists : ℕ → List SlicePtr) : Prop where
  spans : SpanInvariant st pending tid owned tiles lists
  masks : MasksFit st owned tiles

namespace SpanPurgeInvariant

variable {st st' : State} {tid segment : ℕ} {owned : Set ℕ}
  {tiles : ℕ → List (Tile SpanKind)} {lists : ℕ → List SlicePtr}
  {pending : Pending} {slice : SlicePtr}

theorem agree (h : SpanPurgeInvariant st pending tid owned tiles lists)
    (hslices : st'.slices = st.slices) (hlinks : st'.links = st.links)
    (hspans : st'.spans = st.spans)
    (hsame : ∀ s ∈ owned, st'.segments s = st.segments s) :
    SpanPurgeInvariant st' pending tid owned tiles lists := by
  have hheader : ∀ s ∈ owned, SameHeader (st.segments s)
      (st'.segments s) := by
    intro s hs
    rw [hsame s hs]
    exact SameHeader.refl _
  refine ⟨h.spans.congr hslices hheader hlinks hspans fun s hs =>
    congrArg SegmentInfo.used (hsame s hs), ?_⟩
  constructor
  · intro s hs
    rw [hsame s hs]
    exact h.masks.entries s hs
  · intro s hs
    rw [hsame s hs]
    exact h.masks.slices s hs
  · intro s hs
    rw [hsame s hs]
    exact h.masks.info s hs
  · intro s hs
    rw [hsame s hs]
    exact h.masks.committed s hs
  · intro s hs
    rw [hsame s hs]
    exact h.masks.scheduled s hs
  · intro s hs
    rw [hsame s hs]
    exact h.masks.safe s hs

/-- A change of the masks that touches no slice, or of a segment that is not
owned. -/
theorem setCommit (h : SpanPurgeInvariant st pending tid owned tiles lists)
    (result : CommitState × Os)
    (hkeeps : segment ∈ owned →
      KeepsSafe (fun _ => False) (st.segments segment).commit result.1) :
    SpanPurgeInvariant (st.setCommit segment result) pending tid owned tiles
      lists := by
  by_cases howned : segment ∈ owned
  · have hset := h.masks.setCommit h.spans result (hkeeps howned)
    exact ⟨hset.1, hset.2⟩
  · exact h.agree rfl rfl rfl (st.setSegment_of_notMem howned _)

theorem writeHeader (h : SpanPurgeInvariant st pending tid owned tiles lists)
    (hnew : segment ∉ owned) (info : SegmentInfo) :
    SpanPurgeInvariant (st.setSegment segment info) pending tid owned tiles
      lists :=
  h.agree rfl rfl rfl (st.setSegment_of_notMem hnew info)

/-! ## The operations -/

theorem take (h : SpanPurgeInvariant st .idle tid owned tiles lists)
    (howned : slice.segment ∈ owned) (hhead : FreeHead st slice) :
    ∃ tiles' lists', SpanPurgeInvariant (segmentSpanRemoveFromQueue st tid slice)
      (.taken slice) tid owned tiles' lists' := by
  rcases h.spans.take howned hhead with ⟨tiles', lists', htaken, hkept⟩
  exact ⟨tiles', lists', htaken, h.masks.congr rfl h.spans htaken hkept⟩

theorem split (h : SpanPurgeInvariant st (.taken slice) tid owned tiles lists)
    (cfg : Config) {k : ℕ} (hpos : 0 < k) :
    ∃ tiles' lists', SpanPurgeInvariant (segmentSliceSplit cfg st tid slice k)
      (.cut slice) tid owned tiles' lists' := by
  rcases h.spans.split cfg hpos with ⟨tiles', lists', hcut, hkept⟩
  exact ⟨tiles', lists', hcut, h.masks.congr
    (segmentSliceSplit_segments cfg st tid slice k) h.spans hcut hkept⟩

/-- The slices of a new page are committed and no longer scheduled. -/
theorem allocate (h : SpanPurgeInvariant st pending tid owned tiles lists)
    (hpending : pending.slice = some slice) {cfg : Config} {ok : Bool}
    (hresult : segmentSpanAllocate cfg st slice.segment slice.idx
      (st.slices slice).sliceCount = (ok, st')) :
    ∃ tiles', SpanPurgeInvariant st' (if ok then .idle else pending) tid owned
      tiles' lists := by
  rcases h.spans.recorded slice hpending with ⟨howned, -, -, hmem⟩
  rcases h.spans.allocate hpending hresult with ⟨tiles', hspans', hnew⟩
  refine ⟨tiles', hspans', ?_⟩
  have hbounds := (h.spans.layout.tiled _ howned).bounds hmem
  simp only [Tile.stop] at hbounds
  have hentries := h.masks.entries _ howned
  have hslices := h.masks.slices _ howned
  have halloc := segmentSpanAllocate_segments cfg st slice.segment slice.idx
    (st.slices slice).sliceCount
  dsimp only at halloc
  rw [hresult] at halloc
  rcases halloc with ⟨hok, used, hsegments⟩
  dsimp only at hok hsegments
  apply @h.masks.step _ _ _ _ _ _ _ _ _ _ _ _ (fun _ => False) hsegments
    ⟨rfl, rfl, rfl⟩ (segmentEnsureCommitted_keepsSafe ..) _ h.spans hspans'
  · intro s tile htile hkind
    rcases hnew s tile htile hkind with hold | ⟨htrue, hs, htileEq⟩
    · exact Or.inl ⟨hold, fun _ b _ _ hb => hb⟩
    · subst htileEq hs
      refine Or.inr ⟨rfl, ?_, ?_⟩
      · intro b hlo hhi
        apply segmentEnsureCommitted_safe (h.spans.layout.kind _ howned)
          hslices hbounds.2.1 (le_trans hbounds.2.2 hentries) _ hlo hhi
        rw [← hok, htrue]
      · intro hstart
        exfalso
        rcases h.spans.layout.info _ howned with
          ⟨first, hfirst, hfirstStart, hused⟩
        have hsame := (h.spans.layout.tiled _ howned).eq_of_start hfirst hmem
          (hfirstStart.trans hstart.symm)
        rw [hsame] at hused
        cases hused
  · intro _ b hb
    exact hb.elim

theorem giveBack (h : SpanPurgeInvariant st pending tid owned tiles lists)
    (hpending : pending.slice = some slice) (cfg : Config) :
    ∃ tiles' lists',
      SpanPurgeInvariant (segmentSpanFreeCoalesce cfg st tid slice).2 .idle tid
        owned tiles' lists' := by
  rcases h.spans.recorded slice hpending with ⟨howned, -, -, -⟩
  rcases h.spans.giveBack hpending cfg with ⟨-, tiles', lists', hspans',
    hkept, idx, total, st₁, hmem, hsame, hfreed⟩
  exact ⟨tiles', lists', hspans', h.masks.freeSpan h.spans howned hsame.1
    hfreed (Function.update_eq_self _ _).symm ⟨rfl, rfl, rfl⟩ rfl hspans'
    hmem hkept⟩

theorem pageClear (h : SpanPurgeInvariant st .idle tid owned tiles lists)
    (howned : slice.segment ∈ owned) (hhead : UsedHead st slice)
    (hidx : slice.idx ≠ 0) (cfg : Config) :
    ∃ tiles' lists', SpanPurgeInvariant (segmentPageClear cfg st tid slice).2
      .idle tid owned tiles' lists' := by
  rcases h.spans.pageClear howned hhead hidx cfg with ⟨tiles', lists',
    hspans', hkept, idx, total, st₁, hmem, hsame, hcleared⟩
  exact ⟨tiles', lists', hspans', h.masks.freeSpan h.spans howned hsame.1
    rfl (congrArg State.segments hcleared) ⟨rfl, rfl, rfl⟩ rfl hspans' hmem
    hkept⟩

/-- The program works with a page. -/
theorem usePage (h : SpanPurgeInvariant st .idle tid owned tiles lists)
    (howned : slice.segment ∈ owned) (hhead : UsedHead st slice)
    {page : PageFields} (next prev : Option SlicePtr) (os : Os)
    (hcount : page.sliceCount = (st.slices slice).sliceCount)
    (hoffset : page.sliceOffset = (st.slices slice).sliceOffset)
    (hsize : 0 < page.blockSize) :
    SpanPurgeInvariant (st.writePage slice page next prev os) .idle tid owned
      tiles lists := by
  have hspans' := h.spans.usePage howned hhead next prev os hcount hoffset
    hsize
  exact ⟨hspans', h.masks.congr rfl h.spans hspans' (UsedKept.refl tiles)⟩

/-- The slices that an extended page gains are committed. -/
theorem extend (h : SpanPurgeInvariant st .idle tid owned tiles lists)
    {page : SlicePtr} {needSlices : ℕ} (howned : page.segment ∈ owned)
    (hhead : UsedHead st page) (hneed : 0 < needSlices) {cfg : Config}
    (hresult : segmentTryExtendSpan cfg st tid page needSlices =
      (true, st')) :
    ∃ tiles' lists', SpanPurgeInvariant st' .idle tid owned tiles' lists' := by
  have hguards : ExtendGuards st page needSlices := by
    by_contra hguards
    rw [segmentTryExtendSpan_refused hguards] at hresult
    cases hresult
  rcases h.spans.extend howned hhead hneed hresult with
    ⟨tiles', lists', hspans', hnew⟩
  refine ⟨tiles', lists', hspans', ?_⟩
  rcases h.spans.usedHead_tile howned hhead with
    ⟨before, after, count, hsplit, hcount⟩
  have hmem : (⟨page.idx, count, .used⟩ : Tile SpanKind) ∈
      tiles page.segment := by
    rw [hsplit]
    simp
  have hentries := h.masks.entries _ howned
  have hslices := h.masks.slices _ howned
  have hfits := hguards.1
  rw [hcount] at hfits
  rw [segmentTryExtendSpan_eq hguards, hcount] at hresult
  dsimp only at hresult
  have htaken := (extendTaken_frame cfg st tid
    ⟨page.segment, page.idx + count⟩ needSlices).1
  generalize extendTaken cfg st tid ⟨page.segment, page.idx + count⟩
    needSlices = taken at hresult htaken
  unfold SlicePtr.start at hresult
  dsimp only at hresult
  split at hresult
  · rename_i hok
    rw [Prod.mk.injEq] at hresult
    have hsegments := (setExtended_rest (taken.setCommit page.segment
      ((segmentEnsureCommitted cfg (st.segments page.segment) st.os
        page.segment (page.segment * segmentSize +
          (page.idx + count) * segmentSliceSize)
        (needSlices * segmentSliceSize)).commit,
      (segmentEnsureCommitted cfg (st.segments page.segment) st.os
        page.segment (page.segment * segmentSize +
          (page.idx + count) * segmentSliceSize)
        (needSlices * segmentSliceSize)).os)) page count needSlices).1
    rw [hresult.2, setCommit_segments, htaken] at hsegments
    have hkeeps := segmentEnsureCommitted_keepsSafe cfg
      (st.segments page.segment) st.os page.segment
      (page.segment * segmentSize + (page.idx + count) * segmentSliceSize)
      (needSlices * segmentSliceSize) fun _ => False
    apply h.masks.step hsegments ⟨rfl, rfl, rfl⟩ hkeeps _ h.spans hspans'
    · intro s tile htile hkind
      rcases hnew s tile htile hkind with hold | ⟨rfl, rfl⟩
      · exact Or.inl ⟨hold, fun _ b _ _ hb => hb⟩
      · rw [hcount]
        refine Or.inr ⟨rfl, ?_, ?_⟩
        · intro b hlo hhi
          simp only [Tile.stop] at hlo hhi
          by_cases hb : b < page.idx + count
          · exact hkeeps.safe b not_false
              (h.masks.safe _ howned _ hmem rfl b hlo hb)
          · exact segmentEnsureCommitted_safe
              (h.spans.layout.kind _ howned) hslices hneed
              (le_trans hfits hentries) hok (not_lt.mp hb) (by omega)
        · intro hstart
          exact ⟨_, hmem, rfl, hstart, Nat.le_add_right _ _⟩
    · intro _ b hb
      exact hb.elim
  · cases hresult

end SpanPurgeInvariant

/-! ## New segments -/

/-- A header as `pa_segment_alloc` writes it: the slices are those of the
segment, and no purge is scheduled. -/
structure NewHeader (info : SegmentInfo) (tid : ℕ) : Prop where
  kind : info.kind = .normal
  threadId : info.threadId = tid
  info_pos : 0 < info.segmentInfoSlices
  info_lt : info.segmentInfoSlices < info.sliceEntries
  entries : info.sliceEntries ≤ info.segmentSlices
  slices : info.segmentSlices ≤ slicesPerSegment
  purgeMask : info.commit.purgeMask = CommitMask.createEmpty

theorem segmentInitSpans_segments {cfg : Config} {st st' : State}
    {tid segment guardSlices : ℕ} {page : Option SlicePtr}
    (hkind : (st.segments segment).kind = .normal)
    (hresult : segmentInitSpans cfg st tid segment guardSlices =
      some (page, st')) :
    let info := st.segments segment
    let result := segmentEnsureCommitted cfg info st.os segment
      (segment * segmentSize + 0 * segmentSliceSize)
      (info.segmentInfoSlices * segmentSliceSize)
    result.ok = true ∧
      st'.segments = Function.update st.segments segment
        ((info.withCommit result.commit).withUsed 0) := by
  have halloc := segmentSpanAllocate_segments cfg st segment 0
    (st.segments segment).segmentInfoSlices
  unfold segmentInitSpans at hresult
  rcases hallocated : segmentSpanAllocate cfg st segment 0
    (st.segments segment).segmentInfoSlices with ⟨ok, st₁⟩
  dsimp only at halloc hresult ⊢
  rw [hallocated] at halloc hresult
  rcases halloc with ⟨hok, used, hsegments⟩
  dsimp only at hok hsegments hresult
  cases ok with
  | false => cases hresult
  | true =>
      refine ⟨hok.symm, ?_⟩
      have hself : (st₁.segments segment).kind = .normal := by
        rw [hsegments, Function.update_self]
        exact hkind
      have hnormal : ((st₁.segments segment).withUsed 0).kind = .normal :=
        hself
      simp only [not_true_eq_false, if_false, hnormal, Option.some.injEq,
        Prod.mk.injEq] at hresult
      rw [← hresult.2, segmentSpanFree_segments_noPurge]
      unfold State.setSegment
      dsimp only
      rw [hsegments, Function.update_self, Function.update_idem]
      rfl

namespace SpanPurgeInvariant

variable {st st' : State} {tid segment : ℕ} {owned : Set ℕ}
  {tiles : ℕ → List (Tile SpanKind)} {lists : ℕ → List SlicePtr}

/-- A new segment has its info slices committed. -/
theorem newSegment (h : SpanPurgeInvariant st .idle tid owned tiles lists)
    (hnew : segment ∉ owned) (hheader : NewHeader (st.segments segment) tid)
    {cfg : Config} {guardSlices : ℕ} {page : Option SlicePtr}
    (hresult : segmentInitSpans cfg st tid segment guardSlices =
      some (page, st')) :
    ∃ tiles' lists', SpanPurgeInvariant st' .idle tid (insert segment owned)
      tiles' lists' := by
  obtain ⟨lists', hspans'⟩ := h.spans.newSegment hnew hheader.kind
    hheader.threadId hheader.info_pos hheader.info_lt hresult
  set tiles' := Function.update tiles segment
    [(⟨0, (st.segments segment).segmentInfoSlices, .used⟩ : Tile SpanKind),
      ⟨(st.segments segment).segmentInfoSlices,
        (st.segments segment).sliceEntries -
          (st.segments segment).segmentInfoSlices, .free⟩] with htiles'
  rcases segmentInitSpans_segments hheader.kind hresult with
    ⟨hok, hsegments⟩
  have hentries := hheader.entries
  have hlt := hheader.info_lt
  have hkeeps := segmentEnsureCommitted_keepsSafe cfg (st.segments segment)
    st.os segment (segment * segmentSize + 0 * segmentSliceSize)
    ((st.segments segment).segmentInfoSlices * segmentSliceSize)
    fun _ => False
  have hempty : ∀ b,
      (st.segments segment).commit.purgeMask.getBit b = false := by
    intro b
    rw [hheader.purgeMask]
    exact CommitMask.getBit_createEmpty b
  have hsafe : ∀ b, b < (st.segments segment).segmentInfoSlices →
      (segmentEnsureCommitted cfg (st.segments segment) st.os segment
        (segment * segmentSize + 0 * segmentSliceSize)
        ((st.segments segment).segmentInfoSlices *
          segmentSliceSize)).commit.Safe b := by
    intro b hb
    apply segmentEnsureCommitted_safe hheader.kind hheader.slices
      hheader.info_pos _ hok (Nat.zero_le b)
    · omega
    · omega
  generalize segmentEnsureCommitted cfg (st.segments segment) st.os segment
    (segment * segmentSize + 0 * segmentSliceSize)
    ((st.segments segment).segmentInfoSlices * segmentSliceSize) = result
    at hsegments hkeeps hsafe
  have hself : st'.segments segment =
      ((st.segments segment).withCommit result.commit).withUsed 0 := by
    rw [hsegments, Function.update_self]
  have hother : ∀ s ∈ owned, s ≠ segment ∧
      st'.segments s = st.segments s := by
    intro s hs
    have hne : s ≠ segment := by
      intro heq
      rw [heq] at hs
      exact hnew hs
    refine ⟨hne, ?_⟩
    rw [hsegments, Function.update_of_ne hne]
  have hold : ∀ s ∈ owned, ∀ tile ∈ tiles' s, tile.kind = .used →
      tile ∈ tiles s := by
    intro s hs tile htile _
    rwa [htiles', Function.update_of_ne (hother s hs).1] at htile
  have hfirst : ∀ tile ∈ tiles' segment, tile.kind = .used →
      tile = ⟨0, (st.segments segment).segmentInfoSlices, .used⟩ := by
    intro tile htile hkind
    rw [htiles', Function.update_self] at htile
    simp only [List.mem_cons, List.not_mem_nil, or_false] at htile
    rcases htile with rfl | rfl
    · rfl
    · cases hkind
  refine ⟨tiles', lists', hspans', ?_⟩
  constructor
  · intro s hs
    rcases Set.mem_insert_iff.mp hs with rfl | hs
    · rw [hself]
      exact hentries
    · rw [(hother s hs).2]
      exact h.masks.entries s hs
  · intro s hs
    rcases Set.mem_insert_iff.mp hs with rfl | hs
    · rw [hself]
      exact hheader.slices
    · rw [(hother s hs).2]
      exact h.masks.slices s hs
  · intro s hs
    rcases hspans'.layout.info s hs with ⟨tile, htile, hstart, hkind⟩
    refine ⟨tile, htile, hstart, hkind, ?_⟩
    rcases Set.mem_insert_iff.mp hs with rfl | hs
    · rw [hself, hfirst tile htile hkind]
      exact le_refl _
    · rcases h.masks.info s hs with ⟨info, hinfo, hinfoStart, -, hcount⟩
      rw [(hother s hs).2, (h.spans.layout.tiled s hs).eq_of_start
        (hold s hs tile htile hkind) hinfo (hstart.trans hinfoStart.symm)]
      exact hcount
  · intro s hs
    rcases Set.mem_insert_iff.mp hs with rfl | hs
    · rw [hself]
      apply hkeeps.committed
      intro b hb
      rw [hempty b] at hb
      cases hb
    · rw [(hother s hs).2]
      exact h.masks.committed s hs
  · intro s hs b hb
    rcases Set.mem_insert_iff.mp hs with rfl | hs
    · rw [hself] at hb
      rcases hkeeps.scheduled b hb with hb | hb
      · rw [hempty b] at hb
        cases hb
      · exact hb.elim
    · rw [(hother s hs).2] at hb ⊢
      exact h.masks.scheduled s hs b hb
  · intro s hs tile htile hkind b hlo hhi
    rcases Set.mem_insert_iff.mp hs with rfl | hs
    · rw [hself]
      rw [hfirst tile htile hkind] at hhi
      apply hsafe b
      simpa [Tile.stop] using hhi
    · rw [(hother s hs).2]
      exact h.masks.safe s hs tile (hold s hs tile htile hkind) hkind b hlo
        hhi

end SpanPurgeInvariant

theorem purgeInvariant_allocationRules (cfg : Config) (tid : ℕ)
    (owned : Set ℕ) :
    AllocationRules cfg tid owned fun st pending =>
      ∃ tiles lists, SpanPurgeInvariant st pending tid owned tiles lists := by
  constructor
  · intro st pending h
    rcases h with ⟨tiles, lists, h⟩
    exact ⟨tiles, lists, h.spans⟩
  · intro st slice h howned hhead
    rcases h with ⟨tiles, lists, h⟩
    exact h.take howned hhead
  · intro st slice sliceCount h hcount
    rcases h with ⟨tiles, lists, h⟩
    exact h.split cfg hcount
  · intro st st' pending slice ok h hpending hresult
    rcases h with ⟨tiles, lists, h⟩
    rcases h.allocate hpending hresult with ⟨tiles', hallocated⟩
    exact ⟨tiles', lists, hallocated⟩
  · intro st pending slice h hpending
    rcases h with ⟨tiles, lists, h⟩
    exact h.giveBack hpending cfg

end Palloc
