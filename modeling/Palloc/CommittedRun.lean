import Palloc.CommittedHeap

/-!
# Every page that is handed out is committed

The commit mask of a normal segment and the marks of an arena together never
promise more than the operating system has committed, whatever it refuses.
A huge segment has no mask of its own slices, so its memory has to be
committed from the start.
-/

namespace Palloc

open BitFields MachineWord

/-! ## The committed size of a mask -/

theorem countOnesOf_le (fuel : ℕ) (mask : BitVec 64) :
    countOnesOf fuel mask ≤ fuel := by
  induction fuel generalizing mask with
  | zero => exact le_rfl
  | succ fuel ih =>
      unfold countOnesOf
      split
      · exact Nat.zero_le _
      · have hrest := ih (mask >>> 1)
        split <;> omega

theorem countOnesOf_eq {fuel : ℕ} {mask : BitVec 64}
    (hcount : countOnesOf fuel mask = fuel) {j : ℕ} (hj : j < fuel) :
    mask.getLsbD j = true := by
  induction fuel generalizing mask j with
  | zero => omega
  | succ fuel ih =>
      unfold countOnesOf at hcount
      split at hcount
      · omega
      have hle := countOnesOf_le fuel (mask >>> 1)
      split at hcount
      swap
      · omega
      rename_i hfirst
      have hrest : countOnesOf fuel (mask >>> 1) = fuel := by omega
      cases j with
      | zero => exact hfirst
      | succ j =>
          have hbit := ih hrest (show j < fuel by omega)
          rw [BitVec.getLsbD_ushiftRight, Nat.add_comm] at hbit
          exact hbit

namespace CommitMask

theorem fieldOnes_le (mask : BitVec 64) : fieldOnes mask ≤ 64 := by
  unfold fieldOnes
  split
  · exact le_rfl
  · exact countOnesOf_le 64 mask

theorem fieldOnes_eq {mask : BitVec 64} (hones : fieldOnes mask = 64) :
    mask = BitVec.allOnes 64 := by
  unfold fieldOnes at hones
  split at hones
  · rename_i hfull
    have hnot := congrArg (~~~ ·) hfull
    simpa using hnot
  · apply BitVec.eq_of_getLsbD_eq
    intro j hj
    rw [countOnesOf_eq hones hj, BitVec.getLsbD_allOnes, decide_eq_true hj]

theorem isFull_of_committedSize {cm : CommitMask} {total : ℕ}
    (hpos : 0 < total) (hsize : cm.committedSize total = total) :
    cm.isFull := by
  intro i
  apply fieldOnes_eq
  by_contra hne
  have hlt : ∑ i, fieldOnes (cm.mask i) < ∑ _i : Fin 8, 64 := by
    apply Finset.sum_lt_sum (fun j _ => fieldOnes_le _)
    exact ⟨i, Finset.mem_univ i, lt_of_le_of_ne (fieldOnes_le _) hne⟩
  have hcount : ∑ i, fieldOnes (cm.mask i) ≤ 511 := by
    simp only [Finset.sum_const, Finset.card_univ, Fintype.card_fin,
      smul_eq_mul] at hlt
    omega
  unfold committedSize at hsize
  have hle := Nat.mul_le_mul_left (total / commitMaskBits) hcount
  rw [hsize] at hle
  have hdiv := Nat.div_mul_le_self total 512
  unfold commitMaskBits at hle
  omega

end CommitMask

/-! ## The invariant -/

def InRegion (r : Mapped) (a : ℕ) : Prop :=
  r.1 * segmentSize ≤ a ∧ a < r.1 * segmentSize + r.2

structure SegmentSound (os : Os) (info : SegmentInfo) (r : Mapped) : Prop where
  slices_pos : 0 < info.segmentSlices
  size_le : segmentByteSize info ≤ r.2
  normal : info.kind = .normal → r.2 = segmentSize ∧
    info.segmentSlices = 512 ∧ info.commit.Backed r.1 os
  huge : info.kind = .huge → info.commit.commitMask.isFull ∧
    ∀ a, InRegion r a → os.committed a = true

namespace CommitHeap

structure Sound (h : CommitHeap) : Prop where
  run : h.run.Sound h.mapped h.st.os
  mappedApart : h.mapped.Pairwise fun r r' =>
    r.1 * segmentSize + r.2 ≤ r'.1 * segmentSize ∨
      r'.1 * segmentSize + r'.2 ≤ r.1 * segmentSize
  segments : ∀ r ∈ h.regions, SegmentSound h.st.os (h.st.segments r.1) r
  blocks : ∀ l ∈ h.run.live, segmentSize ∣ l.p ∧
    divideUp (segmentByteSize (h.st.segments l.segment)) arenaBlockSize =
      l.blocks
  unpurged : ∀ l ∈ h.run.live, l.memid.isPinned = true →
    (h.st.segments l.segment).allowPurge = false

end CommitHeap

section Regions

variable {os os' : Os} {info info' : SegmentInfo} {r r' : Mapped}
variable {segment size a : ℕ} {h : CommitHeap} {st' : State}

theorem SegmentSound.fits_of_sound (hsound : SegmentSound os info r) :
    info.Fits := by
  intro hkind
  rw [(hsound.normal hkind).2.1]

theorem SegmentSound.size_pos (hsound : SegmentSound os info r) :
    0 < r.2 := by
  have hpos := hsound.slices_pos
  have hle := hsound.size_le
  unfold segmentByteSize segmentSliceSize at hle
  omega

theorem inRegion_slice (hsize : r.2 = segmentSize) {b : ℕ} (hb : b < 512)
    (hlo : r.1 * segmentSize + b * segmentSliceSize ≤ a)
    (hhi : a < r.1 * segmentSize + (b + 1) * segmentSliceSize) :
    InRegion r a := by
  unfold InRegion
  rw [hsize]
  unfold segmentSize segmentSliceSize at *
  omega

/-- An address in a range of slices lies in one of them. -/
theorem exists_slice {lo count : ℕ}
    (hlo : segment * segmentSize + lo * segmentSliceSize ≤ a)
    (hhi : a < segment * segmentSize + (lo + count) * segmentSliceSize) :
    ∃ b, lo ≤ b ∧ b < lo + count ∧
      segment * segmentSize + b * segmentSliceSize ≤ a ∧
      a < segment * segmentSize + (b + 1) * segmentSliceSize := by
  have hslice : 0 < segmentSliceSize := by decide
  set b := (a - segment * segmentSize) / segmentSliceSize with hb
  have hdiv := Nat.div_add_mod (a - segment * segmentSize) segmentSliceSize
  have hmod := Nat.mod_lt (a - segment * segmentSize) hslice
  rw [← hb, Nat.mul_comm] at hdiv
  refine ⟨b, ?_, ?_, by omega, ?_⟩
  · rw [hb, Nat.le_div_iff_mul_le hslice]
    omega
  · rw [hb, Nat.div_lt_iff_lt_mul hslice]
    omega
  · rw [Nat.add_mul, Nat.one_mul]
    omega

theorem SegmentSound.keeps (hsound : SegmentSound os info r)
    (hkept : ∀ a, InRegion r a → os.committed a = true →
      os'.committed a = true) : SegmentSound os' info r := by
  refine ⟨hsound.slices_pos, hsound.size_le, ?_, ?_⟩
  · intro hkind
    obtain ⟨hsize, hslices, hbacked⟩ := hsound.normal hkind
    refine ⟨hsize, hslices, ?_⟩
    intro b hb hbit a hlo hhi
    exact hkept a (inRegion_slice hsize hb hlo hhi)
      (hbacked b hb hbit a hlo hhi)
  · intro hkind
    obtain ⟨hfull, hback⟩ := hsound.huge hkind
    exact ⟨hfull, fun a ha => hkept a ha (hback a ha)⟩

theorem SegmentSound.full (hsound : SegmentSound os info r)
    (hfull : info.commit.commitMask.isFull) (ha : InRegion r a) :
    os.committed a = true := by
  rcases info.kind_cases with hkind | hkind
  · exact (hsound.huge hkind).2 a ha
  · obtain ⟨hsize, -, hbacked⟩ := hsound.normal hkind
    obtain ⟨hlo, hhi⟩ := ha
    rw [hsize] at hhi
    obtain ⟨b, -, hlt, hlo', hhi'⟩ := @exists_slice r.1 a 0 512
      (by omega) hhi
    have hlt' : b < 512 := by omega
    exact hbacked b hlt' (CommitMask.isFull_iff.mp hfull b hlt') a hlo' hhi'

theorem SegmentSound.step (hsound : SegmentSound os info r)
    (hsame : SameMemory info info')
    (hstep : CommitStep info r.1 info.commit os info'.commit os') :
    SegmentSound os' info' r := by
  refine ⟨?_, ?_, ?_, ?_⟩
  · rw [hsame.segmentSlices]
    exact hsound.slices_pos
  · unfold segmentByteSize
    rw [hsame.segmentSlices]
    exact hsound.size_le
  · intro hkind
    rw [hsame.kind] at hkind
    obtain ⟨hsize, hslices, hbacked⟩ := hsound.normal hkind
    exact ⟨hsize, hsame.segmentSlices.trans hslices, hstep.backed hbacked⟩
  · intro hkind
    rw [hsame.kind] at hkind
    obtain ⟨hfull, hback⟩ := hsound.huge hkind
    obtain ⟨hmask, hkeeps⟩ := hstep.huge hkind
    rw [hmask]
    exact ⟨hfull, fun a ha => hkeeps a (hback a ha)⟩

theorem SegmentSound.outside (hsound : SegmentSound os info r)
    (hstep : CommitStep info r.1 info.commit os info'.commit os')
    (ha : os.committed a = true) (hout : ¬ InRegion r a) :
    os'.committed a = true := by
  rcases info.kind_cases with hkind | hkind
  · exact (hstep.huge hkind).2 a ha
  · apply hstep.outside a ha
    have hsize := (hsound.normal hkind).1
    unfold InRegion at hout
    rw [hsize] at hout
    omega

namespace CommitHeap

theorem mem_regions : r ∈ h.regions ↔
    (∃ l ∈ h.run.live, r = (l.segment, l.blocks * arenaBlockSize)) ∨
      r ∈ h.mapped := by
  unfold regions
  rw [List.mem_append, List.mem_map]
  simp only [eq_comm]

theorem live_mem_regions {l : LiveBlocks} (hl : l ∈ h.run.live) :
    (l.segment, l.blocks * arenaBlockSize) ∈ h.regions :=
  mem_regions.mpr (Or.inl ⟨l, hl, rfl⟩)

theorem inRegion_live {l : LiveBlocks} (hdvd : segmentSize ∣ l.p) :
    InRegion (l.segment, l.blocks * arenaBlockSize) a ↔ l.InRange a := by
  unfold InRegion LiveBlocks.InRange LiveBlocks.segment
  rw [Nat.div_mul_cancel hdvd]

namespace Sound

theorem reserved (hs : h.Sound) (hr : r ∈ h.regions) (ha : InRegion r a) :
    h.run.Reserved h.mapped a := by
  rcases mem_regions.mp hr with ⟨l, hl, rfl⟩ | hr
  · exact Or.inl ⟨l, hl, (inRegion_live (hs.blocks l hl).1).mp ha⟩
  · exact Or.inr ⟨r, hr, ha.1, ha.2⟩

theorem exists_region (hs : h.Sound)
    (hreserved : h.run.Reserved h.mapped a) :
    ∃ r ∈ h.regions, InRegion r a := by
  rcases hreserved with ⟨l, hl, hin⟩ | ⟨r, hr, hin⟩
  · exact ⟨_, live_mem_regions hl, (inRegion_live (hs.blocks l hl).1).mpr hin⟩
  · exact ⟨r, mem_regions.mpr (Or.inr hr), hin⟩

theorem region_unique (hs : h.Sound) (hr : r ∈ h.regions)
    (hr' : r' ∈ h.regions) (ha : InRegion r a) (ha' : InRegion r' a) :
    r = r' := by
  rcases mem_regions.mp hr with ⟨l, hl, rfl⟩ | hm <;>
    rcases mem_regions.mp hr' with ⟨l', hl', rfl⟩ | hm'
  · rw [inRegion_live (hs.blocks l hl).1] at ha
    rw [inRegion_live (hs.blocks l' hl').1] at ha'
    by_contra hne
    have hsymm : Std.Symm fun l l' : LiveBlocks =>
        ∀ a, l.InRange a → ¬ l'.InRange a :=
      ⟨fun _ _ h a hin hin' => h a hin' hin⟩
    have hll : l ≠ l' := fun heq => hne (by rw [heq])
    exact hs.run.live_apart.forall hl hl' hll a ha ha'
  · rw [inRegion_live (hs.blocks l hl).1] at ha
    exact absurd ha (hs.run.mapped_notInRange hl hm' ha'.1 ha'.2)
  · rw [inRegion_live (hs.blocks l' hl').1] at ha'
    exact absurd ha' (hs.run.mapped_notInRange hl' hm ha.1 ha.2)
  · by_contra hne
    have hsymm : Std.Symm fun r r' : Mapped =>
        r.1 * segmentSize + r.2 ≤ r'.1 * segmentSize ∨
          r'.1 * segmentSize + r'.2 ≤ r.1 * segmentSize :=
      ⟨fun _ _ h => h.symm⟩
    have hapart := hs.mappedApart.forall hm hm' hne
    unfold InRegion at ha ha'
    omega

theorem region_base (hs : h.Sound) (hr : r ∈ h.regions) :
    InRegion r (r.1 * segmentSize) := by
  have hpos := (hs.segments r hr).size_pos
  unfold InRegion
  omega

theorem region_eq (hs : h.Sound) (hr : r ∈ h.regions) (hr' : r' ∈ h.regions)
    (hsame : r.1 = r'.1) : r = r' := by
  apply hs.region_unique hr hr' (hs.region_base hr)
  rw [hsame]
  exact hs.region_base hr'

theorem touch (hs : h.Sound) (hseg : (segment, size) ∈ h.regions)
    (htouch : StateTouch segment h.st st') :
    CommitHeap.Sound { h with st := st' } := by
  have hsound := hs.segments _ hseg
  have hkept : ∀ a, ¬ InRegion (segment, size) a →
      h.st.os.committed a = true → st'.os.committed a = true :=
    fun a hout ha => hsound.outside htouch.step ha hout
  refine ⟨?_, hs.mappedApart, ?_, ?_, ?_⟩
  · apply hs.run.touch
    intro i arena b a harena hb hor hin ha
    by_cases hregion : InRegion (segment, size) a
    swap
    · exact hkept a hregion ha
    obtain ⟨l, hl, hid, hhas⟩ :=
      hs.run.reserved_block (hs.reserved hseg hregion) harena hb hin
    obtain ⟨_, -, hplaced⟩ := hs.run.owned.placed hl
    rcases hor with hpinned | hfree
    · -- in pinned memory the segment purges nothing
      subst hid
      obtain ⟨home, hhome, hplaced⟩ := hs.run.owned.placed hl
      rw [harena] at hhome
      cases hhome
      have hrange := hplaced.inRange hhas hin
      have hsame := hs.region_unique (live_mem_regions hl) hseg
        ((inRegion_live (hs.blocks l hl).1).mpr hrange) hregion
      have hsegment : l.segment = segment := congrArg Prod.fst hsame
      have hmemid := hs.run.pinned l hl arena harena
      rw [hpinned] at hmemid
      have hno := hs.unpurged l hl hmemid.symm
      rw [hsegment] at hno
      exact htouch.step.noPurge hno a ha
    · have hinuse := (hs.run.inuse_iff harena hb).mpr
        ⟨l, hl, by rw [hplaced.arenaId_eq, hid], hhas⟩
      rw [hfree] at hinuse
      cases hinuse
  · intro r hr
    by_cases hsame : r.1 = segment
    · obtain rfl := hs.region_eq hr hseg hsame
      exact hsound.step htouch.same htouch.step
    · rw [htouch.others r.1 hsame]
      apply (hs.segments r hr).keeps
      intro a ha hcommitted
      apply hkept a _ hcommitted
      intro hin
      exact hsame (congrArg Prod.fst (hs.region_unique hr hseg ha hin))
  · intro l hl
    have hblocks := hs.blocks l hl
    by_cases hsame : l.segment = segment
    · unfold segmentByteSize at hblocks ⊢
      dsimp only
      rw [hsame] at hblocks ⊢
      rw [htouch.same.segmentSlices]
      exact hblocks
    · dsimp only
      rw [htouch.others _ hsame]
      exact hblocks
  · intro l hl hpinned
    have hno := hs.unpurged l hl hpinned
    by_cases hsame : l.segment = segment
    · dsimp only
      rw [hsame] at hno ⊢
      rw [htouch.same.allowPurge]
      exact hno
    · dsimp only
      rw [htouch.others _ hsame]
      exact hno

theorem other (hs : h.Sound) (hos : st'.os = h.st.os)
    (hsame : ∀ segment, h.HasSegment segment →
      SameMemory (h.st.segments segment) (st'.segments segment) ∧
        (st'.segments segment).commit = (h.st.segments segment).commit) :
    CommitHeap.Sound { h with st := st' } := by
  have hlive : ∀ l ∈ h.run.live, h.HasSegment l.segment := fun l hl =>
    ⟨_, live_mem_regions hl⟩
  refine ⟨?_, hs.mappedApart, ?_, ?_, ?_⟩
  · dsimp only
    rw [hos]
    exact hs.run
  · intro r hr
    obtain ⟨hmemory, hcommit⟩ := hsame r.1 ⟨r.2, hr⟩
    apply (hs.segments r hr).step hmemory
    dsimp only
    rw [hcommit, hos]
    exact .refl ..
  · intro l hl
    have hblocks := hs.blocks l hl
    unfold segmentByteSize at hblocks ⊢
    dsimp only
    rw [(hsame _ (hlive l hl)).1.segmentSlices]
    exact hblocks
  · intro l hl hpinned
    dsimp only
    rw [(hsame _ (hlive l hl)).1.allowPurge]
    exact hs.unpurged l hl hpinned

/-- Segments are given back, and the memory of the others is kept. -/
theorem shrink (hs : h.Sound) {run' : ArenaRun} {mapped' : List Mapped}
    (hrun : run'.Sound mapped' os')
    (hlive : ∀ l ∈ run'.live, l ∈ h.run.live)
    (hmapped : mapped'.Sublist h.mapped)
    (hkept : ∀ a, run'.Reserved mapped' a → h.st.os.committed a = true →
      os'.committed a = true) :
    CommitHeap.Sound ⟨run', mapped', { h.st with os := os' }⟩ := by
  refine ⟨hrun, hs.mappedApart.sublist hmapped, ?_,
    fun l hl => hs.blocks l (hlive l hl),
    fun l hl => hs.unpurged l (hlive l hl)⟩
  intro r hr
  have hold : r ∈ h.regions := by
    rcases mem_regions.mp hr with ⟨l, hl, rfl⟩ | hm
    · exact live_mem_regions (hlive l hl)
    · exact mem_regions.mpr (Or.inr (hmapped.subset hm))
  apply (hs.segments r hold).keeps
  intro a ha
  apply hkept a
  rcases mem_regions.mp hr with ⟨l, hl, rfl⟩ | hm
  · exact Or.inl ⟨l, hl,
      (inRegion_live (hs.blocks l (hlive l hl)).1).mp ha⟩
  · exact Or.inr ⟨r, hm, ha.1, ha.2⟩

/-- A new segment. -/
theorem grow (hs : h.Sound) {run' : ArenaRun} {mapped' : List Mapped}
    (hrun : run'.Sound mapped' os')
    (hkept : ∀ r ∈ h.regions, ∀ a, InRegion r a →
      h.st.os.committed a = true → os'.committed a = true)
    (hlive : ∀ l ∈ run'.live, l ∈ h.run.live ∨
      l.segment = segment ∧ l.blocks * arenaBlockSize = size ∧
      segmentSize ∣ l.p ∧
      divideUp (segmentByteSize info) arenaBlockSize = l.blocks ∧
      (l.memid.isPinned = true → info.allowPurge = false))
    (hmapped : ∀ r ∈ mapped', r ∈ h.mapped ∨ r = (segment, size))
    (hapart : mapped'.Pairwise fun r r' =>
      r.1 * segmentSize + r.2 ≤ r'.1 * segmentSize ∨
        r'.1 * segmentSize + r'.2 ≤ r.1 * segmentSize)
    (hnew : SegmentSound os' info (segment, size))
    (hfresh : ∀ r ∈ h.regions, r.1 ≠ segment) :
    CommitHeap.Sound ⟨run', mapped',
      ({ h.st with os := os' } : State).setSegment segment info⟩ := by
  set st₁ : State := ({ h.st with os := os' } : State).setSegment segment info
    with hst₁
  have hself : st₁.segments segment = info := State.setSegment_self _ _ _
  have hne : ∀ s, s ≠ segment → st₁.segments s = h.st.segments s :=
    fun s hs => State.setSegment_ne _ _ hs
  refine ⟨hrun, hapart, ?_, ?_, ?_⟩
  · intro r hr
    have hor : r ∈ h.regions ∨ r = (segment, size) := by
      rcases mem_regions.mp hr with ⟨l, hl, rfl⟩ | hm
      · rcases hlive l hl with hold | ⟨hsegment, hsize, -⟩
        · exact Or.inl (live_mem_regions hold)
        · rw [hsegment, hsize]
          exact Or.inr rfl
      · exact (hmapped r hm).imp_left fun hm => mem_regions.mpr (Or.inr hm)
    rcases hor with hold | rfl
    · dsimp only
      rw [hne _ (hfresh r hold)]
      exact (hs.segments r hold).keeps (hkept r hold)
    · dsimp only
      rw [hself]
      exact hnew
  · intro l hl
    dsimp only
    rcases hlive l hl with hold | ⟨hsegment, -, hdvd, hblocks, -⟩
    · rw [hne _ (hfresh _ (live_mem_regions hold))]
      exact hs.blocks l hold
    · rw [hsegment, hself]
      exact ⟨hdvd, hblocks⟩
  · intro l hl hpinned
    dsimp only
    rcases hlive l hl with hold | ⟨hsegment, -, -, -, hno⟩
    · rw [hne _ (hfresh _ (live_mem_regions hold))]
      exact hs.unpurged l hold hpinned
    · rw [hsegment, hself]
      exact hno hpinned

end Sound

end CommitHeap

end Regions

end Palloc
