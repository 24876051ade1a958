import Palloc.SegmentModel

/-!
# Committing and purging ranges of a segment

The commit mask of a segment records which slices are committed, the purge
mask which of them may be given back later.  None of the functions here
touches a slice entry, and of the segment header they change the commit and
purge fields only; this is all the slice structure needs to know about them.
-/

namespace Palloc

def commitSize : ℕ := segmentSliceSize
def minimalCommitSize : ℕ := segmentSliceSize

/-- `pa_segment_info_size`. -/
def segmentInfoSize (info : SegmentInfo) : ℕ :=
  info.segmentInfoSlices * segmentSliceSize

/-- `pa_segment_size`. -/
def segmentByteSize (info : SegmentInfo) : ℕ :=
  info.segmentSlices * segmentSliceSize

structure CommitRange where
  start : Addr
  fullSize : ℕ
  mask : CommitMask

/-- The result when there is nothing to commit or purge. -/
def CommitRange.nothing : CommitRange := ⟨0, 0, CommitMask.createEmpty⟩

/-- `pa_segment_commit_mask`. -/
def segmentCommitMask (info : SegmentInfo) (segment : ℕ)
    (conservative : Bool) (p : Addr) (size : ℕ) : CommitRange :=
  if size = 0 ∨ segmentSize < size ∨ info.kind = .huge then .nothing
  else
    let base := segment * segmentSize
    let segstart := segmentInfoSize info
    let segsize := segmentByteSize info
    if base + segsize ≤ p then .nothing
    else
      let pstart := p - base
      let start :=
        if conservative then alignUp pstart commitSize
        else alignDown pstart minimalCommitSize
      let stop :=
        if conservative then alignDown (pstart + size) commitSize
        else alignUp (pstart + size) minimalCommitSize
      let start :=
        if segstart ≤ pstart ∧ start < segstart then segstart else start
      let stop := if segsize < stop then segsize else stop
      let fullSize := if start < stop then stop - start else 0
      if fullSize = 0 then ⟨base + start, 0, CommitMask.createEmpty⟩
      else
        ⟨base + start, fullSize,
          CommitMask.create (start / commitSize) (fullSize / commitSize)⟩

structure CommitResult where
  ok : Bool
  isZero : Bool
  commit : CommitState
  os : Os

/-- The delay until an expiration: the segment's own, or the option. -/
def expireDelay (cfg : Config) (delayMs : ℤ) : ℤ :=
  if 0 < delayMs then delayMs else cfg.purgeDelay

/-- The end of `pa_segment_commit`: prolong the purge expiration when the
range was about to be purged, and take it out of the purge mask. -/
def segmentCommitUnpurge (cfg : Config) (commit : CommitState) (os : Os)
    (mask : CommitMask) : CommitState × Os :=
  if commit.purgeMask.anySet mask then
    let delay :=
      if commit.purgeDelayMs = 0 then 1 else commit.purgeDelayMs * 2
    let delayMs :=
      if cfg.adaptivePurge then if 1000 < delay then 1000 else delay
      else commit.purgeDelayMs
    let (now, os) := os.clockNow
    ({ purgeExpire := now + expireDelay cfg delayMs
       purgeDelayMs := delayMs
       purgeMask := commit.purgeMask.clear mask
       commitMask := commit.commitMask }, os)
  else ({ commit with purgeMask := commit.purgeMask.clear mask }, os)

/-- `pa_segment_commit`. -/
def segmentCommit (cfg : Config) (info : SegmentInfo) (os : Os)
    (segment : ℕ) (p : Addr) (size : ℕ) : CommitResult :=
  let range := segmentCommitMask info segment false p size
  if range.mask.isEmpty ∨ range.fullSize = 0 then
    ⟨true, false, info.commit, os⟩
  else if info.commit.commitMask.allSet range.mask then
    let (commit, os) := segmentCommitUnpurge cfg info.commit os range.mask
    ⟨true, false, commit, os⟩
  else
    let (ok, isZero, os) := os.commit range.start range.fullSize
    if ok then
      let (commit, os) := segmentCommitUnpurge cfg
        { info.commit with
          commitMask := info.commit.commitMask.set range.mask } os range.mask
      ⟨true, isZero, commit, os⟩
    else ⟨false, false, info.commit, os⟩

/-- `pa_segment_ensure_committed`. -/
def segmentEnsureCommitted (cfg : Config) (info : SegmentInfo) (os : Os)
    (segment : ℕ) (p : Addr) (size : ℕ) : CommitResult :=
  if info.commit.commitMask.isFull ∧ info.commit.purgeMask.isEmpty then
    ⟨true, false, info.commit, os⟩
  else segmentCommit cfg info os segment p size

/-- `pa_segment_purge`; `commit` are the current commit fields. -/
def segmentPurge (cfg : Config) (info : SegmentInfo) (commit : CommitState)
    (os : Os) (segment : ℕ) (p : Addr) (size : ℕ) : CommitState × Os :=
  if ¬ info.allowPurge then (commit, os)
  else
    let range := segmentCommitMask info segment true p size
    if range.mask.isEmpty ∨ range.fullSize = 0 then (commit, os)
    else if commit.commitMask.anySet range.mask then
      let (decommitted, os) := os.purge cfg range.start range.fullSize
      let commitMask :=
        if decommitted then commit.commitMask.clear range.mask
        else commit.commitMask
      ({ commit with
        commitMask := commitMask
        purgeMask := commit.purgeMask.clear range.mask }, os)
    else
      ({ commit with purgeMask := commit.purgeMask.clear range.mask }, os)

/-- The loop of `pa_segment_try_purge` over the runs of `mask`; a mask has at
most one run for every bit. -/
def purgeRuns (cfg : Config) (info : SegmentInfo) (segment : ℕ)
    (mask : CommitMask) :
    (fuel : ℕ) → (idx : ℕ) → CommitState → Os → CommitState × Os
  | 0, _, commit, os => (commit, os)
  | fuel + 1, idx, commit, os =>
      let (idx, count) := mask.nextRun idx
      if count = 0 then (commit, os)
      else
        let (commit, os) := segmentPurge cfg info commit os segment
          (segment * segmentSize + idx * commitSize) (count * commitSize)
        purgeRuns cfg info segment mask fuel (idx + count) commit os

/-- `pa_segment_try_purge`. -/
def segmentTryPurge (cfg : Config) (info : SegmentInfo)
    (commit : CommitState) (os : Os) (segment : ℕ) (force : Bool) :
    CommitState × Os :=
  if ¬ info.allowPurge ∨ commit.purgeExpire = 0 ∨ commit.purgeMask.isEmpty
  then (commit, os)
  else
    let (now, os) := os.clockNow
    if ¬ force ∧ now < commit.purgeExpire then (commit, os)
    else
      let (commit, os) :=
        purgeRuns cfg info segment commit.purgeMask (commitMaskBits + 1) 0
          { commit with
            purgeExpire := 0
            purgeMask := CommitMask.createEmpty } os
      if cfg.adaptivePurge ∧ ¬ force then
        let delayMs := commit.purgeDelayMs -
          (commit.purgeDelayMs - cfg.purgeDelay).tdiv 4
        ({ commit with
          purgeDelayMs :=
            if delayMs < cfg.purgeDelay then cfg.purgeDelay else delayMs },
          os)
      else (commit, os)

/-- `pa_segment_schedule_purge`. -/
def segmentSchedulePurge (cfg : Config) (info : SegmentInfo) (os : Os)
    (segment : ℕ) (p : Addr) (size : ℕ) : CommitState × Os :=
  let commit := info.commit
  if ¬ info.allowPurge then (commit, os)
  else if cfg.purgeDelay = 0 then
    segmentPurge cfg info commit os segment p size
  else
    let range := segmentCommitMask info segment true p size
    if range.mask.isEmpty ∨ range.fullSize = 0 then (commit, os)
    else
      let cmask := CommitMask.createIntersect commit.commitMask range.mask
      let commit := { commit with purgeMask := commit.purgeMask.set cmask }
      let (now, os) := os.clockNow
      if commit.purgeExpire = 0 then
        ({ commit with
          purgeExpire := now + expireDelay cfg commit.purgeDelayMs }, os)
      else if commit.purgeExpire ≤ now then
        if commit.purgeExpire + cfg.purgeExtendDelay ≤ now then
          segmentTryPurge cfg info commit os segment true
        else
          ({ commit with purgeExpire := now + cfg.purgeExtendDelay }, os)
      else
        ({ commit with
          purgeExpire := commit.purgeExpire + cfg.purgeExtendDelay }, os)

/-- The operating system is asked to commit the range. -/
def CommitNeeded (info : SegmentInfo) (segment : ℕ) (p : Addr) (size : ℕ) :
    Prop :=
  let range := segmentCommitMask info segment false p size
  ¬ (info.commit.commitMask.isFull ∧ info.commit.purgeMask.isEmpty) ∧
    ¬ info.commit.commitMask.allSet range.mask ∧ range.fullSize ≠ 0

instance (info : SegmentInfo) (segment : ℕ) (p : Addr) (size : ℕ) :
    Decidable (CommitNeeded info segment p size) :=
  inferInstanceAs (Decidable (_ ∧ _ ∧ _))

theorem segmentEnsureCommitted_ok_eq_false (cfg : Config)
    (info : SegmentInfo) (os : Os) (segment : ℕ) (p : Addr) (size : ℕ) :
    (segmentEnsureCommitted cfg info os segment p size).ok = false ↔
      CommitNeeded info segment p size ∧ os.answer.commitOk = false := by
  unfold segmentEnsureCommitted segmentCommit CommitNeeded
  set range := segmentCommitMask info segment false p size with hrange
  by_cases hfull : info.commit.commitMask.isFull ∧
      info.commit.purgeMask.isEmpty
  · rw [if_pos hfull]
    simp [hfull]
  · rw [if_neg hfull]
    by_cases hnothing : range.mask.isEmpty ∨ range.fullSize = 0
    · rw [if_pos hnothing]
      simp only [Bool.true_eq_false, false_iff]
      rintro ⟨⟨_, hset, hsize⟩, _⟩
      rcases hnothing with hempty | hzero
      · apply hset
        intro i
        simp [hempty i]
      · exact hsize hzero
    · rw [if_neg hnothing]
      push Not at hnothing
      by_cases hset : info.commit.commitMask.allSet range.mask
      · rw [if_pos hset]
        simp [hset]
      · rw [if_neg hset]
        cases hok : os.answer.commitOk with
        | false => simp [Os.commit, hok, hfull, hset, hnothing.2]
        | true => simp [Os.commit, hok]

end Palloc
