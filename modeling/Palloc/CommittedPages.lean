import Palloc.CommittedRun

/-!
# Pages in committed memory

Whatever the operating system answers, every page of a run is committed when
it is handed out.  One kind of step is left out: when the commit of the blocks
of a huge segment is refused and that of its info slices is not, the segment
is used although its memory is not committed.
-/

namespace Palloc

open BlockHeap MachineWord

variable {cfg : Config} {b : BlockBuild} {sizes : SegmentSizes}
variable {os os' : Os} {info : SegmentInfo} {memid : Memid}
variable {segment size tid required alignment : ℕ} {h : CommitHeap}

/-! ## New segments -/

theorem divideUp_slices (count : ℕ) :
    divideUp (count * segmentSliceSize) commitSize = count := by
  unfold divideUp commitSize segmentSliceSize
  omega

/-- The header, and what it says about the memory. -/
theorem segmentOsHeader_spec {slices : ℕ × ℕ} {header : Option SegmentInfo}
    (hslices : slices.2 ≤ 512)
    (hresult : segmentOsHeader cfg os segment tid slices memid =
      (header, os')) :
    os.Keeps os' ∧ (header = none → os'.committed = os.committed) ∧
      ∀ info, header = some info →
        (memid.isPinned = true → info.allowPurge = false) ∧
        (memid.initiallyCommitted = true →
          info.commit.commitMask.isFull ∧ os' = os) ∧
        (memid.initiallyCommitted = false →
          info.commit.Backed segment os' ∧ os.answer.commitOk = true) := by
  unfold segmentOsHeader at hresult
  rw [divideUp_slices] at hresult
  dsimp only at hresult
  by_cases hcommitted : memid.initiallyCommitted = true
  · rw [if_pos hcommitted] at hresult
    cases hresult
    refine ⟨.refl os, fun _ => rfl, ?_⟩
    intro info hinfo
    cases hinfo
    refine ⟨?_, fun _ => ⟨fun _ => rfl, rfl⟩, ?_⟩
    · intro hpinned
      simp [hpinned]
    · intro hno
      rw [hcommitted] at hno
      cases hno
  rw [if_neg hcommitted] at hresult
  split at hresult
  · rename_i hok
    cases hresult
    refine ⟨os.commit_keeps _ _, fun hnone => absurd hnone (by simp), ?_⟩
    intro info hinfo
    cases hinfo
    refine ⟨?_, fun hyes => absurd hyes hcommitted, ?_⟩
    · intro hpinned
      simp [hpinned]
    · intro _
      refine ⟨?_, hok⟩
      intro i _ hbit
      have hbounds := (getBit_create_iff (by omega) i).mp hbit
      apply (@Os.commit_backs os (segment * segmentSize)
        (slices.2 * commitSize) hok).within
      · exact Nat.le_add_right _ _
      · have hle := Nat.mul_le_mul_right segmentSliceSize
          (show i + 1 ≤ slices.2 by omega)
        exact Nat.add_le_add_left hle _
  · rename_i hrefused
    cases hresult
    refine ⟨os.commit_keeps _ _, fun _ => ?_, fun _ hinfo => nomatch hinfo⟩
    have hno : os.answer.commitOk = false := Bool.not_eq_true _ ▸ hrefused
    funext a
    simp [Os.commit, hno]

theorem segmentAllocSlices_spec (hsizes : sizes.Usual) (b : BlockBuild)
    (halign : alignment = 0 ∨ 0 < required) :
    let slices := segmentAllocSlices b sizes required alignment
    0 < slices.1 ∧ slices.2 ≤ 256 ∧ (required = 0 → slices.1 = 512) := by
  intro slices
  have hbounds := infoSlices_bounds hsizes b required
  rcases Nat.eq_zero_or_pos required with rfl | hpos
  · obtain rfl := halign.resolve_right (Nat.lt_irrefl 0)
    have hslices : slices = segmentCalculateSlices b sizes 0 := rfl
    have hwhole : slices.1 = 512 := by
      rw [hslices]
      unfold segmentCalculateSlices
      simp [segmentSize, segmentSliceSize]
    rw [← hslices] at hbounds
    exact ⟨by omega, hbounds.2, fun _ => hwhole⟩
  · have hinfo : slices.2 = (segmentCalculateSlices b sizes required).2 ∧
        slices.2 ≤ slices.1 := by
      rcases Nat.eq_zero_or_pos alignment with rfl | halign
      · have hlayout := hugePage_layout hsizes b hpos
        dsimp only at hlayout
        refine ⟨rfl, ?_⟩
        show (segmentAllocSlices b sizes required 0).2 ≤
          (segmentAllocSlices b sizes required 0).1
        omega
      · have hlayout := largeAligned_layout hsizes b hpos halign
        dsimp only at hlayout
        refine ⟨hlayout.1, ?_⟩
        show (segmentAllocSlices b sizes required alignment).2 ≤
          (segmentAllocSlices b sizes required alignment).1
        omega
    rw [← hinfo.1] at hbounds
    exact ⟨by omega, hbounds.2, fun hzero => absurd hzero hpos.ne'⟩

/-- A header over memory that is committed, or of a normal segment with its
info slices committed. -/
theorem segmentSound_new (hsizes : sizes.Usual)
    (halign : alignment = 0 ∨ 0 < required)
    (hsize : (segmentAllocSlices b sizes required alignment).1 *
      segmentSliceSize ≤ size)
    (hnormal : required = 0 → size = segmentSize)
    (hback : (info.commit.commitMask.isFull ∧
        ∀ a, InRegion (segment, size) a → os.committed a = true) ∨
      required = 0 ∧ info.commit.Backed segment os) :
    SegmentSound os (segmentAllocInfo b sizes required alignment info)
      (segment, size) := by
  obtain ⟨hpos, -, hwhole⟩ := segmentAllocSlices_spec hsizes b halign
  refine ⟨hpos, hsize, ?_, ?_⟩
  · intro hkind
    have hzero : required = 0 := by
      by_contra hne
      have hhuge : (segmentAllocInfo b sizes required alignment info).kind =
          .huge := if_neg hne
      rw [hkind] at hhuge
      cases hhuge
    refine ⟨hnormal hzero, hwhole hzero, ?_⟩
    rcases hback with ⟨-, hall⟩ | ⟨-, hbacked⟩
    · intro i hi _ a hlo hhi
      exact hall a (inRegion_slice (hnormal hzero) hi hlo hhi)
    · exact hbacked
  · intro hkind
    rcases hback with hall | ⟨hzero, -⟩
    · exact hall
    · have hnot : (segmentAllocInfo b sizes required alignment info).kind =
          .normal := if_pos hzero
      rw [hkind] at hnot
      cases hnot

namespace CommitHeap

/-- The page of a huge segment lies in its memory. -/
theorem Sound.hugeArea_backs (hs : h.Sound)
    (hseg : (segment, size) ∈ h.regions) {page : SlicePtr}
    (hkind : (h.st.segments segment).kind = .huge)
    (hpage : page =
      ⟨segment, (h.st.segments segment).segmentInfoSlices⟩) :
    let area := hugeArea b (h.st.segments segment) page
    h.st.os.Backs area.1.start
      (area.1.start + area.2 * segmentSliceSize) := by
  intro area a hlo hhi
  have hsound := hs.segments _ hseg
  apply (hsound.huge hkind).2
  have hle := hsound.size_le
  subst hpage
  unfold segmentByteSize at hle
  have hlo' : segment * segmentSize +
      (h.st.segments segment).segmentInfoSlices * segmentSliceSize ≤ a := hlo
  have hhi' : a < segment * segmentSize +
      (h.st.segments segment).segmentInfoSlices * segmentSliceSize +
      ((h.st.segments segment).segmentSlices -
        (h.st.segments segment).segmentInfoSlices - b.guardSlices) *
          segmentSliceSize := hhi
  generalize (h.st.segments segment).segmentInfoSlices = info at hlo' hhi'
  generalize (h.st.segments segment).segmentSlices = slices at hhi' hle
  unfold InRegion
  dsimp only at hle ⊢
  unfold segmentSliceSize at *
  omega

def StepSound (result : CommitHeap × Option SpanArea) : Prop :=
  result.1.Sound ∧ ∀ area, result.2 = some area →
    result.1.st.os.Backs area.1.start
      (area.1.start + area.2 * segmentSliceSize)

theorem StepSound.none (hs : h.Sound) : StepSound (h, none) :=
  ⟨hs, fun _ hsome => nomatch hsome⟩

theorem Sound.setUp {run : ArenaRun} {mapped : List Mapped} {st : State}
    (hs : Sound ⟨run, mapped, st.setSegment segment
      (segmentAllocInfo b sizes required alignment info)⟩)
    (hseg : (segment, size) ∈ regions ⟨run, mapped, st⟩) :
    let result := segmentSetUp cfg b sizes st tid segment required alignment
      info
    StepSound (⟨run, mapped, result.2⟩,
      result.1.map (hugeArea b (result.2.segments segment))) := by
  intro result
  have hfits := (hs.segments (segment, size) hseg).fits_of_sound
  dsimp only at hfits
  rw [State.setSegment_self] at hfits
  obtain ⟨htouch, hpage⟩ := segmentSetUp_touch cfg b sizes st tid segment hfits
  have hsound := hs.touch hseg htouch
  refine ⟨hsound, ?_⟩
  intro area harea
  dsimp only at harea
  obtain ⟨page, hsome, rfl⟩ := Option.map_eq_some_iff.mp harea
  obtain ⟨hkind, heq⟩ := hpage page hsome
  exact hsound.hugeArea_backs hseg hkind heq

/-! ## Allocating and freeing segments -/

theorem Sound.allocArena (hs : h.Sound) (hsizes : sizes.Usual)
    {index : ℕ} {eager : Bool} {env envPass : ArenaEnv}
    {recommit : ℕ → ℕ → Bool}
    (hgranted : ¬ h.Refused b sizes
      (.allocArena index tid required eager env envPass recommit)) :
    StepSound (h.allocArena cfg b sizes index tid required eager env envPass
      recommit) := by
  have hinit : (0 : ℕ) = 0 ∨ 0 < required := Or.inl rfl
  obtain ⟨hpos, hinfo, hwhole⟩ := segmentAllocSlices_spec hsizes b hinit
  unfold CommitHeap.allocArena
  dsimp only
  set slices := segmentAllocSlices b sizes required 0 with hslices
  have hsize : slices.1 * segmentSliceSize ≠ 0 := by
    have hslice : 0 < segmentSliceSize := by decide
    exact (Nat.mul_pos hpos hslice).ne'
  rcases hresult : h.run.allocOs h.st.os index (slices.1 * segmentSliceSize)
    (eager || decide (0 < required)) with ⟨found, run', os₁⟩
  obtain ⟨hrun', hkeeps, hgave⟩ := hs.run.alloc hresult
  cases found with
  | none =>
      apply StepSound.none
      apply hs.shrink hrun' _ (List.Sublist.refl _) fun a _ => hkeeps a
      intro l hl
      rw [show run'.live = h.run.live from hgave] at hl
      exact hl
  | some l =>
  dsimp only at hgave ⊢
  rcases hheader : segmentOsHeader cfg os₁ l.segment tid slices
    l.memid.toMemid with ⟨header, os₂⟩
  obtain ⟨hkeeps₂, -, hinfoSpec⟩ :=
    segmentOsHeader_spec (by omega) hheader
  have hrun₂ := hrun'.keeps hkeeps₂
  have hblocks := hgave.blocks_eq.symm
  have hlive : ∀ l' ∈ run'.live, l' ∈ h.run.live ∨ l' = l := by
    intro l' hl'
    rw [hgave.live_eq] at hl'
    exact (List.mem_cons.mp hl').symm
  cases header with
  | none =>
      -- the memory is given back
      have hfirst : run'.live[0]? = some l := by
        rw [hgave.live_eq]
        rfl
      obtain ⟨hrun₃, hlive₃, hkept⟩ := hrun₂.free hfirst hsize hblocks
        (fun hzero => absurd hzero.symm hsize) env envPass recommit
      apply StepSound.none
      apply hs.shrink hrun₃ _ (List.Sublist.refl _)
      · intro a hreserved ha
        exact hkept a hreserved (hkeeps₂ a (hkeeps a ha))
      · intro l' hl'
        rw [hlive₃, hgave.live_eq] at hl'
        exact hl'
  | some info =>
  obtain ⟨hpinned, hall, hsome⟩ := hinfoSpec info rfl
  have hdvd : segmentSize ∣ l.p := hgave.aligned
  have hin : ∀ a, InRegion (l.segment, l.blocks * arenaBlockSize) a →
      l.InRange a := fun a => (inRegion_live hdvd).mp
  have hroom : slices.1 * segmentSliceSize ≤ l.blocks * arenaBlockSize := by
    rw [hgave.blocks_eq]
    unfold divideUp arenaBlockSize
    omega
  have hnew : SegmentSound os₂
      (segmentAllocInfo b sizes required 0 info)
      (l.segment, l.blocks * arenaBlockSize) := by
    apply segmentSound_new hsizes hinit hroom
    · intro hzero
      rw [hgave.blocks_eq, hwhole hzero]
      rfl
    · cases hcommitted : l.memid.initiallyCommitted with
      | true =>
          obtain ⟨hfull, rfl⟩ := hall hcommitted
          exact Or.inl ⟨hfull, fun a ha =>
            hgave.backs hcommitted a (hin a ha)⟩
      | false =>
          obtain ⟨hbacked, hok⟩ := hsome hcommitted
          rcases Nat.eq_zero_or_pos required with hzero | hhuge
          · exact Or.inr ⟨hzero, hbacked⟩
          · -- only a refused commit leaves a huge segment uncommitted
            obtain ⟨arena, bitmapIdx, harena, hfound, hasks, hno, hanswer⟩ :=
              hgave.refused (by simp [hhuge]) hcommitted
            rw [hgave.blocks_eq] at hfound hasks
            rw [hanswer] at hok
            exact absurd ⟨hhuge, hno, hok, arena, bitmapIdx, harena, hfound,
              hasks⟩ hgranted
  have hmem : l ∈ run'.live := by
    rw [hgave.live_eq]
    exact List.mem_cons_self
  have hseg : (l.segment, l.blocks * arenaBlockSize) ∈
      regions ⟨run', h.mapped, { h.st with os := os₂ }⟩ :=
    mem_regions.mpr (Or.inl ⟨l, hmem, rfl⟩)
  refine Sound.setUp ?_ hseg
  apply hs.grow hrun₂ (fun _ _ a _ ha => hkeeps₂ a (hkeeps a ha)) _
    (fun r hr => Or.inl hr) hs.mappedApart hnew
  · intro r hr heq
    have hbase := hs.region_base hr
    have hpair := hrun₂.live_apart
    rw [hgave.live_eq, List.pairwise_cons] at hpair
    have hfresh : l.InRange (r.1 * segmentSize) := by
      rw [heq]
      apply hin
      have hgt := hgave.pos
      have hblock : 0 < arenaBlockSize := by decide
      have hprod := Nat.mul_pos hgt hblock
      unfold InRegion
      dsimp only
      omega
    rcases mem_regions.mp hr with ⟨l', hl', rfl⟩ | hm
    · exact hpair.1 l' hl' _ hfresh
        ((inRegion_live (hs.blocks l' hl').1).mp hbase)
    · exact hrun₂.mapped_notInRange hmem hm hbase.1 hbase.2 hfresh
  · intro l' hl'
    rcases hlive l' hl' with hold | rfl
    · exact Or.inl hold
    · exact Or.inr ⟨rfl, rfl, hdvd, hblocks, hpinned⟩

theorem mapMemory_outside {r : Mapped} {commit : Bool} {a : ℕ}
    (hout : ¬ InRegion r a) :
    (mapMemory os r commit).committed a = os.committed a :=
  if_neg hout

/-- Memory outside the arenas is mapped or unmapped. -/
theorem mapMemory_run {run : ArenaRun} {mapped : List Mapped}
    (hrun : run.Sound mapped os) (r : Mapped) (commit : Bool)
    (hapart : ∀ (i : ℕ) (arena : Arena), run.st.arenas[i]? = some arena →
      r.1 * segmentSize + r.2 ≤ arena.start ∨
        arena.stop ≤ r.1 * segmentSize) :
    run.Sound mapped (mapMemory os r commit) := by
  apply hrun.touch
  intro i arena b a harena hb _ hin ha
  rw [mapMemory_outside, ha]
  intro hregion
  have hbounds := hin.bounds hb
  have hdisjoint := hapart i arena harena
  unfold InRegion at hregion
  omega

theorem Sound.notInRegion (hs : h.Sound) {r r' : Mapped} (hr : h.Unused r)
    (hr' : r' ∈ h.regions) {a : ℕ} (ha : InRegion r' a) : ¬ InRegion r a := by
  intro hin
  rcases mem_regions.mp hr' with ⟨l, hl, rfl⟩ | hm
  · rw [inRegion_live (hs.blocks l hl).1] at ha
    obtain ⟨arena, c, harena, -, hc, hblock, -⟩ :=
      hs.run.inRange_block hl ha
    have hbounds := hblock.bounds hc
    have hdisjoint := hr.arenas _ arena harena
    unfold InRegion at hin
    omega
  · have hdisjoint := hr.mapped r' hm
    unfold InRegion at ha hin
    omega

theorem Sound.map (hs : h.Sound) {r : Mapped} (hr : h.Unused r)
    (commit : Bool) :
    CommitHeap.Sound
      { h with st := { h.st with os := mapMemory h.st.os r commit } } := by
  apply hs.shrink (mapMemory_run hs.run r commit hr.arenas) (fun _ hl => hl)
    (List.Sublist.refl _)
  intro a hreserved ha
  obtain ⟨r', hr', hin⟩ := hs.exists_region hreserved
  rw [mapMemory_outside (hs.notInRegion hr hr' hin), ha]

theorem Sound.allocOs (hs : h.Sound) (hsizes : sizes.Usual)
    {eager isPinned isZero : Bool}
    (hallowed : h.Allowed b sizes
      (.allocOs segment tid required alignment eager isPinned isZero)) :
    StepSound (h.allocOs cfg b sizes segment tid required alignment eager
      isPinned isZero) := by
  obtain ⟨halign, hunused⟩ := hallowed
  obtain ⟨hpos, hinfo, hwhole⟩ := segmentAllocSlices_spec hsizes b halign
  unfold CommitHeap.allocOs
  dsimp only
  set slices := segmentAllocSlices b sizes required alignment with hslices
  set commit := eager || decide (0 < required) with hcommit
  set r : Mapped := (segment, slices.1 * segmentSliceSize) with hr
  have hrPos : 0 < r.2 := by
    have hslice : 0 < segmentSliceSize := by decide
    exact Nat.mul_pos hpos hslice
  have helse : ∀ r' ∈ h.regions, ∀ a, InRegion r' a → ¬ InRegion r a :=
    fun r' hr' a ha => hs.notInRegion hunused hr' ha
  have hrun₁ := mapMemory_run hs.run r commit hunused.arenas
  rcases hheader : segmentOsHeader cfg (mapMemory h.st.os r commit) segment
    tid slices _ with ⟨header, os₂⟩
  obtain ⟨hkeeps, -, hinfoSpec⟩ := segmentOsHeader_spec (by omega) hheader
  have hkept : ∀ r' ∈ h.regions, ∀ a, InRegion r' a →
      h.st.os.committed a = true → os₂.committed a = true := by
    intro r' hr' a ha hcommitted
    apply hkeeps a
    rw [mapMemory_outside (helse r' hr' a ha)]
    exact hcommitted
  have hrun₂ := hrun₁.keeps hkeeps
  cases header with
  | none =>
      apply StepSound.none
      apply hs.shrink (mapMemory_run hrun₂ r false hunused.arenas)
        (fun _ hl => hl) (List.Sublist.refl _)
      intro a hreserved ha
      obtain ⟨r', hr', hin⟩ := hs.exists_region hreserved
      rw [mapMemory_outside (helse r' hr' a hin)]
      exact hkept r' hr' a hin ha
  | some info =>
  obtain ⟨-, hall, hsome⟩ := hinfoSpec info rfl
  have hnew : SegmentSound os₂
      (segmentAllocInfo b sizes required alignment info) r := by
    apply segmentSound_new hsizes halign le_rfl
    · intro hzero
      rw [hwhole hzero]
      rfl
    · cases hcommitted : commit with
      | true =>
          obtain ⟨hfull, rfl⟩ := hall hcommitted
          refine Or.inl ⟨hfull, ?_⟩
          intro a ha
          rw [hcommitted]
          exact if_pos ha
      | false =>
          have hzero : required = 0 := by
            rw [hcommit, Bool.or_eq_false_iff, decide_eq_false_iff_not]
              at hcommitted
            omega
          exact Or.inr ⟨hzero, (hsome hcommitted).1⟩
  have hseg : r ∈ regions
      ⟨h.run, r :: h.mapped, { h.st with os := os₂ }⟩ :=
    mem_regions.mpr (Or.inr List.mem_cons_self)
  refine Sound.setUp ?_ hseg
  have hbase : InRegion r (segment * segmentSize) := by
    unfold InRegion
    rw [hr] at hrPos ⊢
    dsimp only at hrPos ⊢
    omega
  refine hs.grow (hrun₂.remap ?_) hkept (fun l hl => Or.inl hl) ?_ ?_ hnew ?_
  · intro r' hr' i arena harena
    rcases List.mem_cons.mp hr' with rfl | hold
    · exact hunused.arenas i arena harena
    · exact hs.run.mappedApart r' hold i arena harena
  · intro r' hr'
    exact (List.mem_cons.mp hr').symm
  · rw [List.pairwise_cons]
    exact ⟨hunused.mapped, hs.mappedApart⟩
  · intro r' hr' heq
    apply helse r' hr' _ (hs.region_base hr')
    rw [heq]
    exact hbase

theorem Sound.freeArena (hs : h.Sound) (k : ℕ) (env envPass : ArenaEnv)
    (recommit : ℕ → ℕ → Bool) : (h.freeArena k env envPass recommit).Sound := by
  unfold CommitHeap.freeArena
  cases hl : h.run.live[k]? with
  | none => exact hs
  | some l =>
      have hmem := List.mem_of_getElem? hl
      obtain ⟨hdvd, hblocks⟩ := hs.blocks l hmem
      have hsound := hs.segments _ (live_mem_regions hmem)
      have hpos : 0 < segmentByteSize (h.st.segments l.segment) := by
        have hslice : 0 < segmentSliceSize := by decide
        exact Nat.mul_pos hsound.slices_pos hslice
      obtain ⟨hrun, hlive, hkept⟩ := hs.run.free hl hpos.ne' hblocks
        (fun hsize a ha => hsound.full
          (CommitMask.isFull_of_committedSize hpos hsize)
          ((inRegion_live hdvd).mpr ha)) env envPass recommit
      apply hs.shrink hrun _ (List.Sublist.refl _) hkept
      intro l' hl'
      rw [hlive] at hl'
      exact List.mem_of_mem_eraseIdx hl'

theorem Sound.mapped_eraseIdx (hs : h.Sound) {k : ℕ} {r r' : Mapped}
    (hr : h.mapped[k]? = some r) (hr' : r' ∈ h.mapped.eraseIdx k) {a : ℕ}
    (ha : InRegion r' a) : ¬ InRegion r a := by
  obtain ⟨j, hne, hj⟩ := List.mem_eraseIdx_iff_getElem?.mp hr'
  obtain ⟨hk, rfl⟩ := List.getElem?_eq_some_iff.mp hr
  obtain ⟨hjlt, rfl⟩ := List.getElem?_eq_some_iff.mp hj
  have hpair := List.pairwise_iff_getElem.mp hs.mappedApart
  intro hin
  unfold InRegion at ha hin
  rcases Nat.lt_or_gt_of_ne hne with hlt | hgt
  · have hapart := hpair j k hjlt hk hlt
    omega
  · have hapart := hpair k j hk hjlt hgt
    omega

theorem Sound.freeOs (hs : h.Sound) (k : ℕ) (env : ArenaEnv)
    (recommit : ℕ → ℕ → Bool) : (h.freeOs k env recommit).Sound := by
  unfold CommitHeap.freeOs
  cases hr : h.mapped[k]? with
  | none => exact hs
  | some r =>
      have hmem := List.mem_of_getElem? hr
      have hsub : (h.mapped.eraseIdx k).Sublist h.mapped :=
        List.eraseIdx_sublist _ _
      have hrun₁ := (mapMemory_run hs.run r false
        (hs.run.mappedApart r hmem)).remap
          fun r' hr' => hs.run.mappedApart r' (hsub.subset hr')
      obtain ⟨hrun, hlive, hkept⟩ := hrun₁.purge env false false recommit
      refine hs.shrink hrun ?_ hsub ?_
      · intro l hl
        exact hlive ▸ hl
      · intro a hreserved ha
        replace hreserved : h.run.Reserved (h.mapped.eraseIdx k) a :=
          hreserved
        apply hkept a hreserved
        rw [mapMemory_outside, ha]
        rcases hreserved with ⟨l, hl, hin⟩ | ⟨r', hr', hin⟩
        · exact fun hregion => hs.run.mapped_notInRange hl hmem hregion.1
            hregion.2 hin
        · exact hs.mapped_eraseIdx hr hr' hin

/-! ## Pages -/

theorem Sound.pageAlloc (hs : h.Sound) {idx count : ℕ}
    (hallowed : h.Allowed b sizes (.pageAlloc segment idx count)) :
    StepSound (h.pageAlloc cfg segment idx count) := by
  obtain ⟨⟨size, hseg⟩, hkind, hcount, hfit⟩ := hallowed
  have hsound := hs.segments _ hseg
  obtain ⟨hsize, hslices, -⟩ := hsound.normal hkind
  have htouch := segmentSpanAllocate_touch cfg hsound.fits_of_sound idx count
  obtain ⟨hok, used, hsegments⟩ :=
    segmentSpanAllocate_segments cfg h.st segment idx count
  unfold CommitHeap.pageAlloc
  rcases hresult : segmentSpanAllocate cfg h.st segment idx count with ⟨ok, st₁⟩
  rw [hresult] at htouch hok hsegments
  dsimp only at htouch hok hsegments ⊢
  have hs₁ := hs.touch hseg htouch
  cases ok with
  | false => exact .none hs₁
  | true =>
      rw [if_pos rfl]
      have hsound₁ : SegmentSound st₁.os (st₁.segments segment)
          (segment, size) := hs₁.segments _ hseg
      have hpurge := setCommit_touch (segmentTryPurge_step cfg
        hsound₁.fits_of_sound (st₁.segments segment).commit st₁.os segment
        false)
      have hs₂ := hs₁.touch hseg hpurge
      refine ⟨hs₂, ?_⟩
      intro area harea
      cases harea
      intro a hlo hhi
      have hlo' : segment * segmentSize + idx * segmentSliceSize ≤ a := hlo
      have hhi' : a < segment * segmentSize + idx * segmentSliceSize +
        count * segmentSliceSize := hhi
      rw [Nat.add_assoc, ← Nat.add_mul] at hhi'
      obtain ⟨i, hge, hlt, hin, hin'⟩ := exists_slice hlo' hhi'
      have hsafe : (st₁.segments segment).commit.Safe i := by
        rw [hsegments, Function.update_self]
        exact segmentEnsureCommitted_safe hkind hslices.le hcount hfit
          hok.symm hge hlt
      have hkind₁ : (st₁.segments segment).kind = .normal :=
        htouch.same.kind.trans hkind
      have hstill := (@segmentTryPurge_keepsSafe (st₁.segments segment)
        segment cfg (hsound₁.normal hkind₁).2.1.le
        (st₁.segments segment).commit st₁.os false
        fun _ => False).safe i not_false hsafe
      generalize segmentTryPurge cfg (st₁.segments segment)
        (st₁.segments segment).commit st₁.os segment false = purged
        at hs₂ hstill ⊢
      have hself : (st₁.setCommit segment purged).segments segment =
          (st₁.segments segment).withCommit purged.1 := by
        rw [setCommit_segments, Function.update_self]
      have hsound₂ := hs₂.segments (segment, size) hseg
      dsimp only at hsound₂
      rw [hself] at hsound₂
      exact (hsound₂.normal hkind₁).2.2 i
        (hlt.trans_le (hfit.trans hslices.le)) hstill.1 a hin hin'

/-- A step keeps the invariant, and the page that it hands out is
committed. -/
theorem Sound.step (hs : h.Sound) (hsizes : sizes.Usual) {event : CommitEvent}
    (hallowed : h.Allowed b sizes event) (hgranted : ¬ h.Refused b sizes event) :
    StepSound (h.step cfg b sizes event) := by
  cases event with
  | map r commit => exact .none (hs.map hallowed commit)
  | manage area exclusive metaOk =>
      obtain ⟨hrun, hlive⟩ := hs.run.manage hallowed exclusive metaOk
      exact .none (hs.shrink hrun (fun _ hl => hlive ▸ hl)
        (List.Sublist.refl _) fun _ _ ha => ha)
  | arenasPurge env recommit force visitAll =>
      obtain ⟨hrun, hlive, hkept⟩ := hs.run.purge env force visitAll recommit
      refine .none (hs.shrink hrun (fun _ hl => hlive ▸ hl)
        (List.Sublist.refl _) ?_)
      intro a hreserved
      exact hkept a hreserved
  | allocArena index tid required eager env envPass recommit =>
      exact hs.allocArena hsizes hgranted
  | allocOs segment tid required alignment eager isPinned isZero =>
      exact hs.allocOs hsizes hallowed
  | freeArena k env envPass recommit =>
      exact .none (hs.freeArena k env envPass recommit)
  | freeOs k env recommit => exact .none (hs.freeOs k env recommit)
  | ensureCommitted segment p size =>
      obtain ⟨_, hseg⟩ := hallowed
      exact .none (hs.touch hseg (setCommit_touch (segmentEnsureCommitted_step
        cfg (hs.segments _ hseg).fits_of_sound ..)))
  | pageAlloc segment idx count => exact hs.pageAlloc hallowed
  | schedulePurge segment p size =>
      obtain ⟨⟨_, hseg⟩, hp⟩ := hallowed
      exact .none (hs.touch hseg (setCommit_touch (segmentSchedulePurge_step
        cfg (hs.segments _ hseg).fits_of_sound _ _ hp _)))
  | tryPurge segment force =>
      obtain ⟨_, hseg⟩ := hallowed
      exact .none (hs.touch hseg (setCommit_touch (segmentTryPurge_step cfg
        (hs.segments _ hseg).fits_of_sound ..)))
  | other st => exact .none (hs.other hallowed.1 hallowed.2)

/-! ## Runs -/

def start (st : State) : CommitHeap := ⟨⟨⟨[], 0⟩, []⟩, [], st⟩

/-- What allowed steps lead to, when no commit is refused for a huge
segment. -/
inductive Reached (cfg : Config) (b : BlockBuild) (sizes : SegmentSizes) :
    CommitHeap → Prop where
  | start (st : State) : Reached cfg b sizes (start st)
  | step {h : CommitHeap} {event : CommitEvent}
      (hreached : Reached cfg b sizes h)
      (hallowed : h.Allowed b sizes event)
      (hgranted : ¬ h.Refused b sizes event) :
      Reached cfg b sizes (h.step cfg b sizes event).1

theorem sound_start (st : State) : (start st).Sound := by
  refine ⟨⟨Ownership.initial, ?_, ?_, ?_, ?_, ?_⟩, List.Pairwise.nil, ?_, ?_,
    ?_⟩ <;> simp [start, regions]

theorem Reached.sound (hreached : Reached cfg b sizes h)
    (hsizes : sizes.Usual) : h.Sound := by
  induction hreached with
  | start st => exact sound_start st
  | step _ hallowed hgranted ih => exact (ih.step hsizes hallowed hgranted).1

/-- In every run, whatever the operating system answers to commits and purges,
a page is committed when it is handed out. -/
theorem handedOut_committed (hsizes : sizes.Usual)
    (hreached : Reached cfg b sizes h) {event : CommitEvent}
    (hallowed : h.Allowed b sizes event) (hgranted : ¬ h.Refused b sizes event)
    {page : SlicePtr} {count : ℕ}
    (hpage : (h.step cfg b sizes event).2 = some (page, count)) :
    (h.step cfg b sizes event).1.st.os.Backs page.start
      (page.start + count * segmentSliceSize) :=
  ((hreached.sound hsizes).step hsizes hallowed hgranted).2 (page, count) hpage

/-- A process with one segment, mapped without a commit. -/
def oneSegment : CommitHeap :=
  (step {} ⟨false, false, false⟩ ⟨4096, 53248⟩
    (start { emptyState with
      os := ⟨fun _ => ⟨true, false, false, 0⟩, 0, fun _ => false⟩ })
    (.allocOs 1 1 0 0 false false false)).1

theorem oneSegment_page_committed :
    (oneSegment.step {} ⟨false, false, false⟩ ⟨4096, 53248⟩
      (.pageAlloc 1 1 200)).1.st.os.Backs 33619968 46727168 := by
  have hreached : Reached {} ⟨false, false, false⟩ ⟨4096, 53248⟩ oneSegment := by
    refine .step (.start _) ⟨Or.inl rfl, ?_, ?_⟩ id
    · intro r hr
      cases hr
    · intro i arena hi
      cases hi
  have hallowed : oneSegment.Allowed ⟨false, false, false⟩ ⟨4096, 53248⟩
      (.pageAlloc 1 1 200) := by
    refine ⟨⟨512 * segmentSliceSize, ?_⟩, by decide +kernel, by decide,
      by decide +kernel⟩
    have hregions : oneSegment.regions = [(1, 512 * segmentSliceSize)] := by
      decide +kernel
    rw [hregions]
    exact List.mem_singleton_self _
  have hpage : (oneSegment.step {} ⟨false, false, false⟩ ⟨4096, 53248⟩
      (.pageAlloc 1 1 200)).2 = some (⟨1, 1⟩, 200) := by
    decide +kernel
  exact handedOut_committed ⟨by decide, by decide, by decide, by decide⟩
    hreached hallowed id hpage

end CommitHeap

end Palloc
