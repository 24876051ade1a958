import Palloc.PageShape
import Palloc.SegmentPurgeInvariant

/-!
# The slice entries of a page

A huge segment has more slices than slice entries.  `pa_segment_span_allocate`
writes back offsets to the first entries of a page as far as there are any,
and to one entry more, behind the last, when the page reaches beyond them.
The layout of a huge segment decides which addresses in the page these entries
are for.
-/

namespace Palloc

open BlockHeap LinkedQueue IntervalTiling

/-! ## The entries -/

/-- The slice invariant of a used page, in a normal or in a huge segment: the
first entries point back to the page, and so does the one behind the last when
the page reaches beyond the entries. -/
structure PageSpan (st : State) (segment idx count : ℕ) : Prop where
  sliceCount : (st.slices ⟨segment, idx⟩).sliceCount = count
  back : ∀ i < count, i ≤ maxSliceOffsetCount →
    idx + i < (st.segments segment).sliceEntries →
      (st.slices ⟨segment, idx + i⟩).sliceOffset = i
  last : (st.segments segment).sliceEntries < idx + count →
    (st.slices ⟨segment, (st.segments segment).sliceEntries⟩).sliceOffset =
      (st.segments segment).sliceEntries - idx

theorem PageSpan.congr {st st' : State} {segment idx count : ℕ}
    (h : PageSpan st segment idx count)
    (hentries : (st'.segments segment).sliceEntries =
      (st.segments segment).sliceEntries)
    (hcount : (st'.slices ⟨segment, idx⟩).sliceCount =
      (st.slices ⟨segment, idx⟩).sliceCount)
    (hoffset : ∀ i, (st'.slices ⟨segment, i⟩).sliceOffset =
      (st.slices ⟨segment, i⟩).sliceOffset) :
    PageSpan st' segment idx count where
  sliceCount := hcount.trans h.sliceCount
  back i hi hle hlt := by
    rw [hoffset]
    exact h.back i hi hle (hentries ▸ hlt)
  last hlt := by
    rw [hentries, hoffset]
    exact h.last (hentries ▸ hlt)

/-- In the segments of a thread a used span is the span of a page. -/
theorem SpanInvariant.pageSpan {st : State} {pending : Pending} {tid : ℕ}
    {owned : Set ℕ} {tiles : ℕ → List (Tile SpanKind)}
    {lists : ℕ → List SlicePtr} {segment : ℕ} {tile : Tile SpanKind}
    (h : SpanInvariant st pending tid owned tiles lists)
    (howned : segment ∈ owned) (htile : tile ∈ tiles segment)
    (hused : tile.kind = .used) :
    PageSpan st segment tile.start tile.count ∧
      tile.start + tile.count ≤ (st.segments segment).sliceEntries := by
  have hentry := (h.layout.entry segment howned tile htile).used hused
  have hstop : tile.start + tile.count ≤
      (st.segments segment).sliceEntries := h.layout.stop_le howned htile
  refine ⟨⟨hentry.sliceCount, ?_, ?_⟩, hstop⟩
  · intro i hi hle _
    rcases Nat.eq_zero_or_pos i with rfl | hpos
    · exact hentry.sliceOffset
    · exact (hentry.back i hpos hi (Or.inl hle)).1
  · intro hlt
    omega

/-- Turning slices into a page writes these entries, for any number of
slices. -/
theorem setUsedSpan_pageSpan {st : State} {segment idx count : ℕ}
    (isZeroInit : Bool) (hcount : 0 < count)
    (hidx : idx < (st.segments segment).sliceEntries) :
    PageSpan (st.setUsedSpan segment idx count isZeroInit) segment idx
      count := by
  set entries := (st.segments segment).sliceEntries with hentries
  set head : SlicePtr := ⟨segment, idx⟩ with hhead
  set slices₁ := Function.update st.slices head
    ((st.slices head).withSpan count 0 (count * segmentSliceSize))
    with hslices₁
  set extra := if entries ≤ idx +
      (if maxSliceOffsetCount < count - 1 then maxSliceOffsetCount
        else count - 1) then entries - idx - 1
    else if maxSliceOffsetCount < count - 1 then maxSliceOffsetCount
      else count - 1 with hextra
  set slices₂ := setBackOffsets slices₁ segment (idx + 1) 1 extra
    with hslices₂
  set last := if entries < idx + count - 1 then entries else idx + count - 1
    with hlast
  set slices₃ := if idx < last then
      Function.update slices₂ ⟨segment, last⟩
        ((slices₂ ⟨segment, last⟩).withSpan 0 (last - idx) 1)
    else slices₂ with hslices₃
  have hst : (st.setUsedSpan segment idx count isZeroInit).segments =
        st.segments ∧
      (st.setUsedSpan segment idx count isZeroInit).slices =
        Function.update slices₃ head
          { slices₃ head with
            isCommitted := true
            isZeroInit := isZeroInit
            isHuge := (st.segments segment).kind = .huge } := by
    unfold State.setUsedSpan
    dsimp only
    by_cases hlt : idx < last
    · rw [hslices₃, if_pos hlt, if_pos hlt]
      exact ⟨rfl, rfl⟩
    · rw [hslices₃, if_neg hlt, if_neg hlt]
      exact ⟨rfl, rfl⟩
  obtain ⟨hsegments, hslices⟩ := hst
  -- the head is written first, and no back offset goes to it
  have hheadEntry : slices₃ head =
      (st.slices head).withSpan count 0 (count * segmentSliceSize) := by
    have htwo : slices₂ head = slices₁ head := by
      rw [hslices₂, setBackOffsets_frame]
      intro _
      left
      exact Nat.lt_succ_self idx
    rw [hslices₃]
    split
    · rename_i hlt
      rw [Function.update_of_ne, htwo, hslices₁, Function.update_self]
      intro heq
      have hsame : idx = last := congrArg SlicePtr.idx heq
      omega
    · rw [htwo, hslices₁, Function.update_self]
  have hne : ∀ i, 0 < i → (⟨segment, idx + i⟩ : SlicePtr) ≠ head := by
    intro i hi heq
    have hsame : idx + i = idx := congrArg SlicePtr.idx heq
    omega
  have hlastEntry : idx < last →
      (slices₃ ⟨segment, last⟩).sliceOffset = last - idx := by
    intro hlt
    rw [hslices₃, if_pos hlt, Function.update_self]
    rfl
  constructor
  · rw [hslices, Function.update_self]
    show (slices₃ head).sliceCount = count
    rw [hheadEntry]
    rfl
  · intro i hi hle hlt
    rw [hsegments, ← hentries] at hlt
    rw [hslices]
    rcases Nat.eq_zero_or_pos i with rfl | hpos
    · rw [Nat.add_zero, ← hhead, Function.update_self]
      show (slices₃ head).sliceOffset = 0
      rw [hheadEntry]
      rfl
    · rw [Function.update_of_ne (hne i hpos)]
      by_cases hend : idx + i = last
      · rw [hend, hlastEntry (by omega)]
        omega
      · have hin : i - 1 < extra := by
          rw [hextra]
          split_ifs <;> omega
        have hback := setBackOffsets_at slices₁ segment (idx + 1) 1 hin
        rw [show idx + 1 + (i - 1) = idx + i by omega,
          show 1 + (i - 1) = i by omega, ← hslices₂] at hback
        have hother : slices₃ ⟨segment, idx + i⟩ =
            slices₂ ⟨segment, idx + i⟩ := by
          rw [hslices₃]
          split
          · rw [Function.update_of_ne]
            intro heq
            exact hend (congrArg SlicePtr.idx heq)
          · rfl
        rw [hother, hback]
        rfl
  · intro hlt
    rw [hsegments, ← hentries] at hlt ⊢
    have hlastEq : last = entries := by
      rw [hlast]
      split <;> omega
    have hneHead : (⟨segment, entries⟩ : SlicePtr) ≠ head := by
      intro heq
      have hsame : entries = idx := congrArg SlicePtr.idx heq
      omega
    rw [hslices, Function.update_of_ne hneHead, ← hlastEq]
    exact hlastEntry (by omega)

theorem segmentSpanAllocate_pageSpan {cfg : Config} {st st' : State}
    {segment idx count : ℕ} (hcount : 0 < count)
    (hidx : idx < (st.segments segment).sliceEntries)
    (halloc : segmentSpanAllocate cfg st segment idx count = (true, st')) :
    PageSpan st' segment idx count := by
  obtain ⟨commit, isZeroInit, hcases⟩ :=
    segmentSpanAllocate_cases cfg st segment idx count
  rw [halloc] at hcases
  rcases hcases with hfailed | hdone
  · exact nomatch congrArg Prod.fst hfailed
  · have hst := congrArg Prod.snd hdone
    dsimp only at hst
    have hinfo : ((st.setCommit segment commit).segments segment).sliceEntries =
        (st.segments segment).sliceEntries := by
      rw [setCommit_segments, Function.update_self]
      rfl
    have hspan := setUsedSpan_pageSpan isZeroInit hcount (hinfo ▸ hidx)
    rw [hst]
    refine hspan.congr ?_ rfl fun _ => rfl
    rw [State.setSegment_self]
    rfl

/-! ## The header -/

/-- The fields that `pa_segment_alloc` sets in the header of a segment. -/
def segmentAllocInfo (b : BlockBuild) (sizes : SegmentSizes)
    (required alignment : ℕ) (info : SegmentInfo) : SegmentInfo :=
  let slices := segmentAllocSlices b sizes required alignment
  let entries :=
    if slicesPerSegment < slices.1 then slicesPerSegment else slices.1
  { info with
    segmentSlices := slices.1
    segmentInfoSlices := slices.2
    sliceEntries :=
      if b.secure ∧ entries = slices.1 then entries - 1 else entries
    kind := if required = 0 then .normal else .huge }

/-- The operating system has pages of at most 1 MiB, and the header of a
segment takes at most 4 MiB. -/
structure SegmentSizes.Usual (sizes : SegmentSizes) : Prop where
  header_pos : 0 < sizes.header
  header_le : sizes.header ≤ 2 ^ 22
  osPageSize_pos : 0 < sizes.osPageSize
  osPageSize_le : sizes.osPageSize ≤ 2 ^ 20

section Layout

variable {b : BlockBuild} {sizes : SegmentSizes} {required alignment : ℕ}

theorem infoSlices_bounds (h : sizes.Usual) (b : BlockBuild) (required : ℕ) :
    0 < (segmentCalculateSlices b sizes required).2 ∧
      (segmentCalculateSlices b sizes required).2 ≤ 256 := by
  have hslice : segmentSliceSize = 65536 := rfl
  have hslicePos : 0 < segmentSliceSize := by decide
  have hheader := h.header_pos
  have hheaderLe := h.header_le
  have hpage := h.osPageSize_le
  have hisize : sizes.header ≤ alignUp sizes.header sizes.osPageSize :=
    le_alignUp h.osPageSize_pos
  have hisizeLt : alignUp sizes.header sizes.osPageSize <
      sizes.header + sizes.osPageSize := alignUp_lt h.osPageSize_pos
  have hguard : (if b.secure then sizes.osPageSize else 0) ≤
      sizes.osPageSize := by
    split
    · exact le_rfl
    · exact Nat.zero_le _
  have hsum : sizes.header ≤ alignUp sizes.header sizes.osPageSize +
        (if b.secure then sizes.osPageSize else 0) ∧
      alignUp sizes.header sizes.osPageSize +
        (if b.secure then sizes.osPageSize else 0) <
          2 ^ 22 + 2 ^ 20 + 2 ^ 20 := by
    omega
  unfold segmentCalculateSlices
  dsimp only
  generalize alignUp sizes.header sizes.osPageSize +
    (if b.secure then sizes.osPageSize else 0) = isize at hsum ⊢
  have hround : isize ≤ alignUp isize segmentSliceSize := le_alignUp hslicePos
  have hroundLt : alignUp isize segmentSliceSize < isize + segmentSliceSize :=
    alignUp_lt hslicePos
  obtain ⟨n, hn⟩ := dvd_alignUp isize segmentSliceSize
  rw [hn, Nat.mul_div_cancel_left _ hslicePos]
  rw [hn, hslice] at hround hroundLt
  omega

/-- A segment is at most a slice larger than it has to be, and in a secure
build two pages of the operating system more. -/
theorem segmentCalculateSlices_le (b : BlockBuild) (sizes : SegmentSizes)
    (hpos : 0 < required) :
    (segmentCalculateSlices b sizes required).1 * segmentSliceSize ≤
      required + (segmentCalculateSlices b sizes required).2 *
        segmentSliceSize + b.guardSlices * segmentSliceSize +
        segmentSliceSize + 2 * sizes.osPageSize := by
  have hslice : 0 < segmentSliceSize := by decide
  unfold segmentCalculateSlices BlockBuild.guardSlices
  dsimp only
  generalize alignUp sizes.header sizes.osPageSize = isize
  cases hsecure : b.secure with
  | false =>
      have hguard : ¬(false = true ∧ 0 < required) :=
        fun h => Bool.false_ne_true h.1
      rw [if_neg Bool.false_ne_true, if_neg hguard, if_neg hpos.ne',
        if_neg Bool.false_ne_true, Nat.div_mul_cancel (dvd_alignUp _ _),
        Nat.div_mul_cancel (dvd_alignUp _ _)]
      have hlt := @alignUp_lt
        (required + alignUp (isize + 0) segmentSliceSize + 0) _ hslice
      omega
  | true =>
      simp only [true_and, if_true, if_pos hpos]
      have hneed := @le_alignUp required _ hslice
      have hneedLt := @alignUp_lt required _ hslice
      rw [if_neg (by omega), Nat.div_mul_cancel (dvd_alignUp _ _),
        Nat.div_mul_cancel (dvd_alignUp _ _)]
      have hlt := @alignUp_lt (alignUp required segmentSliceSize +
        sizes.osPageSize + alignUp (isize + sizes.osPageSize)
          segmentSliceSize + sizes.osPageSize) _ hslice
      omega

/-- The layout of a huge page without a large alignment: the page ends with the
segment or in front of its guard page, and is little larger than needed. -/
theorem hugePage_layout (h : sizes.Usual) (b : BlockBuild)
    (hpos : 0 < required) :
    let slices := segmentAllocSlices b sizes required 0
    let shape := hugePageShape b sizes required 0
    slices.2 + shape.sliceCount + b.guardSlices = slices.1 ∧
      required ≤ shape.blockSize ∧
      shape.blockSize ≤
        required + segmentSliceSize + 2 * sizes.osPageSize := by
  have hroom := @segmentCalculateSlices_room sizes required b
    h.osPageSize_pos hpos
  have hle := segmentCalculateSlices_le b sizes hpos
  have halloc : segmentAllocSlices b sizes required 0 =
      segmentCalculateSlices b sizes required := rfl
  unfold hugePageShape
  dsimp only
  rw [halloc]
  change required + _ + b.guardSlices * segmentSliceSize ≤ _ at hroom
  generalize segmentCalculateSlices b sizes required = slices at hroom hle ⊢
  unfold segmentSliceSize at hroom hle ⊢
  omega

/-- The layout of a huge page for a large alignment: the place that is aligned
is one segment size behind the start, and the page reaches beyond it. -/
theorem largeAligned_layout (h : sizes.Usual) (b : BlockBuild)
    (hpos : 0 < required) (halign : 0 < alignment) :
    let slices := segmentAllocSlices b sizes required alignment
    let shape := hugePageShape b sizes required alignment
    slices.2 = (segmentCalculateSlices b sizes required).2 ∧
      slices.2 + shape.sliceCount + b.guardSlices = slices.1 ∧
      slicesPerSegment < slices.2 + shape.sliceCount ∧
      (hugeLayout b sizes required alignment).alignOffset = segmentSize := by
  obtain ⟨hinfoPos, hinfoLe⟩ := infoSlices_bounds h b required
  have hoffset : alignUp ((segmentCalculateSlices b sizes required).2 *
      segmentSliceSize) segmentSize = segmentSize := by
    have hle : (segmentCalculateSlices b sizes required).2 *
        segmentSliceSize ≤ segmentSize := by
      unfold segmentSliceSize segmentSize
      omega
    have hup := MachineWord.exactAlignUp_le_of_dvd hle (dvd_refl segmentSize)
    have hdown : segmentSize ≤ alignUp
        ((segmentCalculateSlices b sizes required).2 * segmentSliceSize)
          segmentSize := by
      apply Nat.le_of_dvd _ (dvd_alignUp _ _)
      have hround := @le_alignUp
        ((segmentCalculateSlices b sizes required).2 * segmentSliceSize)
        segmentSize (by decide)
      unfold segmentSliceSize at hround ⊢
      omega
    exact le_antisymm hup hdown
  have hslices : segmentAllocSlices b sizes required alignment =
      segmentCalculateSlices b sizes (required + (segmentSize -
        (segmentCalculateSlices b sizes required).2 * segmentSliceSize)) := by
    unfold segmentAllocSlices hugeLayout
    dsimp only
    rw [if_pos halign, hoffset]
  have hroom := @segmentCalculateSlices_room sizes (required + (segmentSize -
    (segmentCalculateSlices b sizes required).2 * segmentSliceSize)) b
    h.osPageSize_pos (by omega)
  have hinfo := segmentCalculateSlices_info b sizes (required + (segmentSize -
    (segmentCalculateSlices b sizes required).2 * segmentSliceSize)) required
  unfold hugePageShape
  dsimp only
  rw [hslices]
  change _ + b.guardSlices * segmentSliceSize ≤ _ at hroom
  rw [hinfo] at hroom ⊢
  generalize (segmentCalculateSlices b sizes (required + _)).1 = total
    at hroom ⊢
  generalize (segmentCalculateSlices b sizes required).2 = info at hinfoLe hroom ⊢
  unfold slicesPerSegment
  unfold segmentSliceSize segmentSize at hroom
  refine ⟨rfl, ?_, ?_, hoffset⟩
  · omega
  · omega

/-- A huge segment has an entry for every slice of its page, up to the number
of entries in a header. -/
theorem segmentAllocInfo_entries {info : SegmentInfo} {count : ℕ}
    (hinfo : segmentAllocInfo b sizes required alignment info = info)
    (htotal : info.segmentInfoSlices + count + b.guardSlices =
      (segmentAllocSlices b sizes required alignment).1) :
    info.sliceEntries =
      min slicesPerSegment (info.segmentInfoSlices + count) := by
  have hentries := congrArg SegmentInfo.sliceEntries hinfo
  unfold segmentAllocInfo at hentries
  dsimp only at hentries
  rw [← hentries]
  generalize (segmentAllocSlices b sizes required alignment).1 = total
    at htotal ⊢
  unfold BlockBuild.guardSlices at htotal
  cases hsecure : b.secure with
  | false =>
      rw [hsecure, if_neg Bool.false_ne_true] at htotal
      rw [if_neg (fun h => Bool.false_ne_true h.1)]
      split <;> omega
  | true =>
      rw [hsecure, if_pos rfl] at htotal
      by_cases hlarge : slicesPerSegment < total
      · rw [if_pos hlarge, if_neg (fun h => hlarge.ne h.2)]
        omega
      · rw [if_neg hlarge, if_pos ⟨rfl, rfl⟩]
        omega

end Layout

/-- The page of a huge segment gets its entries with the segment. -/
theorem segmentInitSpans_pageSpan {cfg : Config} {b : BlockBuild}
    {sizes : SegmentSizes} {required alignment : ℕ} {st st' : State}
    {tid segment : ℕ} {page : SlicePtr}
    (hinfo : segmentAllocInfo b sizes required alignment
      (st.segments segment) = st.segments segment)
    (hrequired : 0 < required)
    (hcount : 0 < (hugePageShape b sizes required alignment).sliceCount)
    (hidx : (st.segments segment).segmentInfoSlices <
      (st.segments segment).sliceEntries)
    (hresult : segmentInitSpans cfg st tid segment b.guardSlices =
      some (some page, st')) :
    page = ⟨segment, (st.segments segment).segmentInfoSlices⟩ ∧
      PageSpan st' segment (st.segments segment).segmentInfoSlices
        (hugePageShape b sizes required alignment).sliceCount := by
  set info := st.segments segment with hinfoDef
  have hkind : info.kind = .huge := by
    rw [← hinfo]
    exact if_neg (by omega)
  have hslices : info.segmentSlices - info.segmentInfoSlices - b.guardSlices =
      (hugePageShape b sizes required alignment).sliceCount := by
    rw [← hinfo]
    rfl
  have halloc := segmentSpanAllocate_segments cfg st segment 0
    info.segmentInfoSlices
  unfold segmentInitSpans at hresult
  rcases hfirst : segmentSpanAllocate cfg st segment 0 info.segmentInfoSlices
    with ⟨ok, st₁⟩
  dsimp only at halloc hresult
  rw [← hinfoDef, hfirst] at halloc hresult
  obtain ⟨-, used, hsegments⟩ := halloc
  dsimp only at hsegments hresult
  cases ok with
  | false => cases hresult
  | true =>
      -- the first span changes no field of the layout
      have hself := congrFun hsegments segment
      rw [Function.update_self] at hself
      have hhuge : ((st₁.segments segment).withUsed 0).kind = .huge := by
        rw [hself]
        exact hkind
      simp only [not_true_eq_false, if_false, hhuge, Option.some.injEq,
        Prod.mk.injEq] at hresult
      obtain ⟨hpage, hst⟩ := hresult
      set st₂ := st₁.setSegment segment ((st₁.segments segment).withUsed 0)
        with hst₂
      have hinit : ((st₁.segments segment).withUsed 0).segmentInfoSlices =
            info.segmentInfoSlices ∧
          ((st₁.segments segment).withUsed 0).segmentSlices -
              ((st₁.segments segment).withUsed 0).segmentInfoSlices -
              b.guardSlices =
            (hugePageShape b sizes required alignment).sliceCount ∧
          (st₂.segments segment).sliceEntries = info.sliceEntries := by
        rw [hst₂, State.setSegment_self, hself]
        exact ⟨rfl, hslices, rfl⟩
      obtain ⟨hstart, hsize, hentries⟩ := hinit
      rw [hstart] at hpage hst hsize
      rw [hsize] at hpage hst
      rcases hsecond : segmentSpanAllocate cfg st₂ segment
        info.segmentInfoSlices
        (hugePageShape b sizes required alignment).sliceCount with ⟨ok, st₃⟩
      rw [hsecond] at hpage hst
      dsimp only at hpage hst
      cases ok with
      | false => cases hpage
      | true =>
          rw [if_pos rfl, Option.some.injEq] at hpage
          rw [← hst]
          exact ⟨hpage.symm, segmentSpanAllocate_pageSpan hcount
            (hentries ▸ hidx) hsecond⟩

end Palloc
