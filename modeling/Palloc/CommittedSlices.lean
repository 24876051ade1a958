import Palloc.ArenaCommit
import Palloc.SegmentPurge

/-!
# The commit mask tells the truth

The slices of a segment with a bit in its commit mask are committed, whatever
the operating system answers to the commits and purges in the segment.  These
touch no memory outside its slices, and none at all in a huge segment.
-/

namespace Palloc

variable {cfg : Config} {info : SegmentInfo} {os os' os'' : Os}
variable {commit commit' commit'' : CommitState} {segment p size : ℕ}

/-- Slice `b` of the segment is committed. -/
def SliceBacked (os : Os) (segment b : ℕ) : Prop :=
  os.Backs (segment * segmentSize + b * segmentSliceSize)
    (segment * segmentSize + (b + 1) * segmentSliceSize)

/-- The slices with a bit in the commit mask are committed. -/
def CommitState.Backed (commit : CommitState) (segment : ℕ) (os : Os) :
    Prop :=
  ∀ b < 512, commit.commitMask.getBit b = true → SliceBacked os segment b

structure CommitStep (info : SegmentInfo) (segment : ℕ)
    (commit : CommitState) (os : Os) (commit' : CommitState) (os' : Os) :
    Prop where
  backed : commit.Backed segment os → commit'.Backed segment os'
  outside : ∀ a : ℕ, os.committed a = true →
    a < segment * segmentSize ∨ segment * segmentSize + segmentSize ≤ a →
      os'.committed a = true
  huge : info.kind = .huge →
    commit'.commitMask = commit.commitMask ∧ os.Keeps os'
  noPurge : info.allowPurge = false → os.Keeps os'

theorem CommitStep.refl (info : SegmentInfo) (segment : ℕ)
    (commit : CommitState) (os : Os) :
    CommitStep info segment commit os commit os :=
  ⟨fun h => h, fun _ h _ => h, fun _ => ⟨rfl, .refl os⟩, fun _ => .refl os⟩

theorem CommitStep.trans (h : CommitStep info segment commit os commit' os')
    (h' : CommitStep info segment commit' os' commit'' os'') :
    CommitStep info segment commit os commit'' os'' where
  backed hback := h'.backed (h.backed hback)
  outside a ha hout := h'.outside a (h.outside a ha hout) hout
  huge hkind := ⟨(h'.huge hkind).1.trans (h.huge hkind).1,
    (h.huge hkind).2.trans (h'.huge hkind).2⟩
  noPurge hno := (h.noPurge hno).trans (h'.noPurge hno)

theorem CommitStep.same (hmask : commit'.commitMask = commit.commitMask)
    (hos : os'.committed = os.committed) :
    CommitStep info segment commit os commit' os' := by
  have hkeeps : os.Keeps os' := by
    intro a ha
    rw [hos]
    exact ha
  refine ⟨?_, fun a ha _ => hkeeps a ha, fun _ => ⟨hmask, hkeeps⟩,
    fun _ => hkeeps⟩
  intro hback b hb hbit
  rw [hmask] at hbit
  exact (hback b hb hbit).mono hkeeps

/-! ## Committing -/

theorem ite_lt_mul (m n : ℕ) {k : ℕ} (hk : 0 < k) :
    (if n * k < m * k then n * k else m * k) = min m n * k := by
  split
  · rename_i hlt
    rw [Nat.min_eq_right (Nat.lt_of_mul_lt_mul_right hlt).le]
  · rename_i hge
    rw [Nat.min_eq_left (Nat.le_of_mul_le_mul_right (Nat.le_of_not_lt hge) hk)]

theorem segmentCommitMask_liberal (hslices : info.segmentSlices ≤ 512) :
    ∃ lo n, IsSlices segment (segmentCommitMask info segment false p size)
      lo n := by
  unfold segmentCommitMask
  by_cases hnone : size = 0 ∨ segmentSize < size ∨ info.kind = .huge
  · rw [if_pos hnone]
    exact ⟨0, 0, isSlices_nothing segment rfl rfl⟩
  rw [if_neg hnone]
  dsimp only
  by_cases hend : segment * segmentSize + segmentByteSize info ≤ p
  · rw [if_pos hend]
    exact ⟨0, 0, isSlices_nothing segment rfl rfl⟩
  rw [if_neg hend]
  simp only [Bool.false_eq_true, if_false]
  generalize p - segment * segmentSize = off
  generalize hlo : off / segmentSliceSize = lo
  have hstart : alignDown off minimalCommitSize = lo * segmentSliceSize := by
    rw [← hlo]
    unfold alignDown minimalCommitSize segmentSliceSize
    omega
  generalize hstop : min ((off + size + segmentSliceSize - 1) /
    segmentSliceSize) info.segmentSlices = stop
  have hstopEq : (if segmentByteSize info < alignUp (off + size)
      minimalCommitSize then segmentByteSize info
      else alignUp (off + size) minimalCommitSize) =
        stop * segmentSliceSize := by
    have hup : alignUp (off + size) minimalCommitSize =
        (off + size + segmentSliceSize - 1) / segmentSliceSize *
          segmentSliceSize := rfl
    have hbytes : segmentByteSize info =
        info.segmentSlices * segmentSliceSize := rfl
    rw [hup, hbytes, ← hstop]
    exact ite_lt_mul _ _ (by decide)
  have hclamp : ¬ (segmentInfoSize info ≤ off ∧
      lo * segmentSliceSize < segmentInfoSize info) := by
    unfold segmentInfoSize segmentSliceSize at *
    omega
  rw [hstart, if_neg hclamp, hstopEq]
  by_cases hsome : lo < stop
  · have hlt : lo * segmentSliceSize < stop * segmentSliceSize :=
      Nat.mul_lt_mul_of_pos_right hsome (by decide)
    have hsize : stop * segmentSliceSize - lo * segmentSliceSize =
        (stop - lo) * segmentSliceSize := (Nat.sub_mul _ _ _).symm
    have hpos : (stop - lo) * segmentSliceSize ≠ 0 := by
      unfold segmentSliceSize
      omega
    have hdiv : lo * segmentSliceSize / commitSize = lo :=
      Nat.mul_div_cancel lo (by decide)
    have hdiv' : (stop - lo) * segmentSliceSize / commitSize = stop - lo :=
      Nat.mul_div_cancel (stop - lo) (by decide)
    rw [if_pos hlt, hsize, if_neg hpos, hdiv, hdiv']
    have hfit : lo + (stop - lo) ≤ 512 := by
      rw [Nat.add_sub_cancel' hsome.le, ← hstop]
      exact (Nat.min_le_right _ _).trans hslices
    exact ⟨lo, stop - lo, hfit, rfl, getBit_create_iff hfit, fun _ => rfl⟩
  · have hge : ¬ lo * segmentSliceSize < stop * segmentSliceSize := by
      unfold segmentSliceSize
      omega
    rw [if_neg hge, if_pos rfl]
    exact ⟨0, 0, isSlices_nothing segment rfl rfl⟩

theorem segmentCommitUnpurge_committed (cfg : Config) (commit : CommitState)
    (os : Os) (mask : CommitMask) :
    (segmentCommitUnpurge cfg commit os mask).2.committed = os.committed := by
  unfold segmentCommitUnpurge
  split <;> rfl

theorem IsSlices.backs {range : CommitRange} {lo n : ℕ}
    (h : IsSlices segment range lo n)
    (hback : os.Backs range.start (range.start + range.fullSize)) {b : ℕ}
    (hb : range.mask.getBit b = true) : SliceBacked os segment b := by
  obtain ⟨hlo, hhi⟩ := (h.mask b).mp hb
  rw [h.start (by omega), h.fullSize] at hback
  apply hback.within
  · have hle := Nat.mul_le_mul_right segmentSliceSize hlo
    omega
  · have hle := Nat.mul_le_mul_right segmentSliceSize
      (show b + 1 ≤ lo + n by omega)
    rw [Nat.add_mul lo n] at hle
    omega

theorem segmentCommitMask_huge (hkind : info.kind = .huge)
    (conservative : Bool) :
    segmentCommitMask info segment conservative p size = .nothing := by
  unfold segmentCommitMask
  rw [if_pos (Or.inr (Or.inr hkind))]

theorem nothing_isEmpty : CommitRange.nothing.mask.isEmpty := fun _ => rfl

def SegmentInfo.Fits (info : SegmentInfo) : Prop :=
  info.kind = .normal → info.segmentSlices ≤ 512

theorem SegmentInfo.kind_cases (info : SegmentInfo) :
    info.kind = .huge ∨ info.kind = .normal := by
  cases info.kind
  · exact Or.inr rfl
  · exact Or.inl rfl

theorem segmentCommit_step (cfg : Config) (hfits : info.Fits) (os : Os)
    (segment p size : ℕ) :
    CommitStep info segment info.commit os
      (segmentCommit cfg info os segment p size).commit
      (segmentCommit cfg info os segment p size).os := by
  unfold segmentCommit
  dsimp only
  rcases info.kind_cases with hkind | hkind
  · rw [segmentCommitMask_huge hkind false, if_pos (Or.inl nothing_isEmpty)]
    exact .refl ..
  obtain ⟨lo, n, hrange⟩ :=
    @segmentCommitMask_liberal info segment p size (hfits hkind)
  generalize segmentCommitMask info segment false p size = range at hrange ⊢
  split
  · exact .refl ..
  split
  · have hmasks := segmentCommitUnpurge_masks cfg info.commit os range.mask
    exact .same hmasks.1 (segmentCommitUnpurge_committed ..)
  split
  · rename_i hok
    set commit : CommitState :=
      { info.commit with commitMask := info.commit.commitMask.set range.mask }
    set os' := (os.commit range.start range.fullSize).2.2
    have hmasks := segmentCommitUnpurge_masks cfg commit os' range.mask
    refine .trans ⟨?_, ?_, ?_, ?_⟩
      (.same hmasks.1 (segmentCommitUnpurge_committed cfg commit os' _))
    · intro hback b hlt hb
      have hbits := CommitMask.getBit_set info.commit.commitMask range.mask b
      rw [show commit.commitMask.getBit b = _ from hbits, Bool.or_eq_true]
        at hb
      rcases hb with hold | hnew
      · exact (hback b hlt hold).mono (os.commit_keeps _ _)
      · exact hrange.backs (Os.commit_backs _ _ hok) hnew
    · exact fun a ha _ => os.commit_keeps _ _ a ha
    · intro hhuge
      rw [hkind] at hhuge
      cases hhuge
    · exact fun _ => os.commit_keeps _ _
  · -- a refused commit changes nothing
    rename_i hrefused
    refine .same rfl ?_
    funext a
    have hno : os.answer.commitOk = false := Bool.not_eq_true _ ▸ hrefused
    simp [Os.commit, hno]

theorem segmentEnsureCommitted_step (cfg : Config) (hfits : info.Fits)
    (os : Os) (segment p size : ℕ) :
    CommitStep info segment info.commit os
      (segmentEnsureCommitted cfg info os segment p size).commit
      (segmentEnsureCommitted cfg info os segment p size).os := by
  unfold segmentEnsureCommitted
  split
  · exact .refl ..
  · exact segmentCommit_step cfg hfits os segment p size

/-! ## Purging -/

/-- What `_pa_os_purge` does to the committed memory. -/
theorem Os.purge_committed (cfg : Config) (os : Os) (start size : ℕ) :
    ((os.purge cfg start size).1 = false →
      (os.purge cfg start size).2.committed = os.committed) ∧
    ∀ a : ℕ, os.committed a = true → a < start ∨ start + size ≤ a →
      (os.purge cfg start size).2.committed a = true := by
  unfold Os.purge
  split
  · exact ⟨fun _ => rfl, fun _ h _ => h⟩
  split
  · constructor
    · intro hno
      funext a
      simp [show os.answer.needsRecommit = false from hno]
    · intro a ha hout
      simp only [ha, Bool.true_and, Bool.not_eq_true', decide_eq_false_iff_not]
      rintro ⟨-, hlo, hhi⟩
      exact hout.elim (fun h => absurd hlo (not_le.mpr h))
        fun h => absurd hhi (not_lt.mpr h)
  · exact ⟨fun _ => rfl, fun _ h _ => h⟩

theorem segmentPurge_step (cfg : Config) (hfits : info.Fits)
    (commit : CommitState) (os : Os) (segment : ℕ) {p : ℕ}
    (hp : segment * segmentSize ≤ p) (size : ℕ) :
    CommitStep info segment commit os
      (segmentPurge cfg info commit os segment p size).1
      (segmentPurge cfg info commit os segment p size).2 := by
  unfold segmentPurge
  dsimp only
  split
  · exact .refl ..
  rename_i hallowed
  rcases info.kind_cases with hkind | hkind
  · rw [segmentCommitMask_huge hkind true, if_pos (Or.inl nothing_isEmpty)]
    exact .refl ..
  obtain ⟨lo, n, hrange, -⟩ :=
    @segmentCommitMask_conservative info segment p size (hfits hkind) hp
  generalize segmentCommitMask info segment true p size = range at hrange ⊢
  split
  · exact .refl ..
  rename_i hsome
  split
  swap
  · exact .same rfl rfl
  obtain ⟨hsame, houtside⟩ :=
    os.purge_committed cfg range.start range.fullSize
  have hpos : 0 < n := by
    rcases Nat.eq_zero_or_pos n with hzero | hpos
    · exact absurd (Or.inr (by rw [hrange.fullSize, hzero, Nat.zero_mul]))
        hsome
    · exact hpos
  have hstart : @Eq ℕ range.start
      (segment * segmentSize + lo * segmentSliceSize) := hrange.start hpos
  have hfull := hrange.fullSize
  have hfit := hrange.fits
  have hslice : segmentSliceSize = 65536 := rfl
  rw [hslice] at hstart hfull
  refine ⟨?_, ?_, ?_, ?_⟩
  · intro hback b hlt hb
    dsimp only at hb ⊢
    split at hb
    · -- the slices that are left in the mask are not purged
      rw [CommitMask.getBit_clear, Bool.and_eq_true, Bool.not_eq_true'] at hb
      have hout : b < lo ∨ lo + n ≤ b := by
        by_contra hin
        rw [(hrange.mask b).mpr (by omega)] at hb
        exact nomatch hb.2
      intro a ha ha'
      apply houtside a (hback b hlt hb.1 a ha ha')
      rw [hslice] at ha ha'
      omega
    · rename_i hkept
      intro a ha ha'
      rw [hsame (Bool.not_eq_true _ ▸ hkept)]
      exact hback b hlt hb a ha ha'
  · intro a ha hout
    apply houtside a ha
    have hend : segmentSize = 512 * 65536 := rfl
    omega
  · intro hhuge
    rw [hkind] at hhuge
    cases hhuge
  · intro hno
    rw [hno] at hallowed
    exact absurd Bool.false_ne_true hallowed

theorem purgeRuns_step (cfg : Config) (hfits : info.Fits) (segment : ℕ)
    (mask : CommitMask) (fuel idx : ℕ) (commit : CommitState) (os : Os) :
    CommitStep info segment commit os
      (purgeRuns cfg info segment mask fuel idx commit os).1
      (purgeRuns cfg info segment mask fuel idx commit os).2 := by
  induction fuel generalizing idx commit os with
  | zero => exact .refl ..
  | succ fuel ih =>
      unfold purgeRuns
      dsimp only
      split
      · exact .refl ..
      · exact (segmentPurge_step cfg hfits commit os segment
          (Nat.le_add_right _ _) _).trans (ih _ _ _)

theorem segmentTryPurge_step (cfg : Config) (hfits : info.Fits)
    (commit : CommitState) (os : Os) (segment : ℕ) (force : Bool) :
    CommitStep info segment commit os
      (segmentTryPurge cfg info commit os segment force).1
      (segmentTryPurge cfg info commit os segment force).2 := by
  unfold segmentTryPurge
  -- The fuel is a closed number, which the kernel would unfold.
  generalize commitMaskBits + 1 = fuel
  by_cases hnone : ¬ info.allowPurge ∨ commit.purgeExpire = 0 ∨
      commit.purgeMask.isEmpty
  · rw [if_pos hnone]
    exact .refl ..
  rw [if_neg hnone]
  have hclock : os.clockNow.2.committed = os.committed := rfl
  generalize os.clockNow = clock at hclock
  obtain ⟨now, os'⟩ := clock
  dsimp only at hclock ⊢
  split
  · exact .same rfl hclock
  have hruns := purgeRuns_step cfg hfits segment commit.purgeMask fuel 0
    { commit with purgeExpire := 0, purgeMask := CommitMask.createEmpty } os'
  have hstart : CommitStep info segment commit os
      { commit with purgeExpire := 0, purgeMask := CommitMask.createEmpty }
      os' := .same rfl hclock
  split
  · exact (hstart.trans hruns).trans (.same rfl rfl)
  · exact hstart.trans hruns

theorem segmentSchedulePurge_step (cfg : Config) (hfits : info.Fits)
    (os : Os) (segment : ℕ) {p : ℕ} (hp : segment * segmentSize ≤ p)
    (size : ℕ) :
    CommitStep info segment info.commit os
      (segmentSchedulePurge cfg info os segment p size).1
      (segmentSchedulePurge cfg info os segment p size).2 := by
  unfold segmentSchedulePurge
  dsimp only
  split
  · exact .refl ..
  split
  · exact segmentPurge_step cfg hfits info.commit os segment hp size
  split
  · exact .refl ..
  split
  · exact .same rfl rfl
  split
  · split
    · refine .trans ?_ (segmentTryPurge_step cfg hfits _ _ segment true)
      exact .same rfl rfl
    · exact .same rfl rfl
  · exact .same rfl rfl

end Palloc
