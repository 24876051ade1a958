import Palloc.CommitMaskRuns
import Palloc.SegmentCommit

/-!
# What committing and purging do to the masks

Committing rounds outward and purging inward, so a purge never reaches a slice
outside its range.  A slice is safe when it is committed and not scheduled for
a purge.
-/

namespace Palloc

variable {cfg : Config} {info : SegmentInfo} {os : Os}
variable {commit commit' commit'' : CommitState} {segment p size : ℕ}

/-! ## The range of a commit or a purge -/

theorem getBit_of_ge (cm : CommitMask) {b : ℕ} (hb : 512 ≤ b) :
    cm.getBit b = false := by
  have hout : ¬ b / 64 < 8 := by omega
  simp [CommitMask.getBit, hout]

theorem getBit_create_iff {lo n : ℕ} (hend : lo + n ≤ 512) (b : ℕ) :
    (CommitMask.create lo n).getBit b = true ↔ lo ≤ b ∧ b < lo + n := by
  by_cases hb : b < 512
  · rw [CommitMask.getBit_create hend hb, decide_eq_true_eq]
  · rw [getBit_of_ge _ (not_lt.mp hb)]
    simp only [Bool.false_eq_true, false_iff]
    omega

structure IsSlices (segment : ℕ) (range : CommitRange) (lo n : ℕ) :
    Prop where
  fits : lo + n ≤ 512
  fullSize : range.fullSize = n * segmentSliceSize
  mask : ∀ b, range.mask.getBit b = true ↔ lo ≤ b ∧ b < lo + n
  start : 0 < n → range.start = segment * segmentSize + lo * segmentSliceSize

theorem isSlices_nothing (segment : ℕ) {range : CommitRange}
    (hsize : range.fullSize = 0) (hmask : range.mask = .createEmpty) :
    IsSlices segment range 0 0 := by
  constructor
  · omega
  · rw [hsize, Nat.zero_mul]
  · intro b
    rw [hmask, CommitMask.getBit_createEmpty]
    simp
  · intro hpos
    exact absurd hpos (lt_irrefl 0)

/-- A purge stays inside its range. -/
theorem segmentCommitMask_conservative (hslices : info.segmentSlices ≤ 512)
    (hp : segment * segmentSize ≤ p) :
    ∃ lo n, IsSlices segment (segmentCommitMask info segment true p size)
        lo n ∧
      (0 < n → p ≤ segment * segmentSize + lo * segmentSliceSize ∧
        segment * segmentSize + (lo + n) * segmentSliceSize ≤ p + size) := by
  unfold segmentCommitMask
  by_cases hnone : size = 0 ∨ segmentSize < size ∨ info.kind = .huge
  · rw [if_pos hnone]
    exact ⟨0, 0, isSlices_nothing segment rfl rfl, fun h => by omega⟩
  rw [if_neg hnone]
  dsimp only
  by_cases hend : segment * segmentSize + segmentByteSize info ≤ p
  · rw [if_pos hend]
    exact ⟨0, 0, isSlices_nothing segment rfl rfl, fun h => by omega⟩
  rw [if_neg hend]
  simp only [if_true]
  generalize hoff : p - segment * segmentSize = off
  have hp' : p = segment * segmentSize + off := by omega
  generalize hlo : (off + segmentSliceSize - 1) / segmentSliceSize = lo
  have hstart : alignUp off commitSize = lo * segmentSliceSize := by
    rw [← hlo]
    rfl
  have hle : off ≤ lo * segmentSliceSize := by
    unfold segmentSliceSize at hlo ⊢
    omega
  generalize hstop : min ((off + size) / segmentSliceSize)
    info.segmentSlices = stop
  have hstopEq : (if segmentByteSize info < alignDown (off + size) commitSize
      then segmentByteSize info else alignDown (off + size) commitSize) =
      stop * segmentSliceSize := by
    rw [← hstop]
    unfold segmentByteSize alignDown commitSize segmentSliceSize
    split <;> omega
  have hclamp : ¬ (segmentInfoSize info ≤ off ∧
      lo * segmentSliceSize < segmentInfoSize info) := by omega
  rw [hstart, if_neg hclamp, hstopEq]
  by_cases hsome : lo < stop
  · have hlt : lo * segmentSliceSize < stop * segmentSliceSize := by
      unfold segmentSliceSize
      omega
    have hsize : stop * segmentSliceSize - lo * segmentSliceSize =
        (stop - lo) * segmentSliceSize := (Nat.sub_mul _ _ _).symm
    have hpos : (stop - lo) * segmentSliceSize ≠ 0 := by
      unfold segmentSliceSize
      omega
    have hdiv : lo * segmentSliceSize / commitSize = lo :=
      Nat.mul_div_cancel lo (by decide)
    have hdiv' : (stop - lo) * segmentSliceSize / commitSize = stop - lo :=
      Nat.mul_div_cancel (stop - lo) (by decide)
    rw [if_pos hlt, hsize, if_neg hpos, hdiv, hdiv']
    refine ⟨lo, stop - lo, ⟨by omega, rfl,
      getBit_create_iff (by omega), fun _ => rfl⟩, fun _ => ⟨by omega, ?_⟩⟩
    unfold segmentSliceSize at hstop ⊢
    omega
  · have hge : ¬ lo * segmentSliceSize < stop * segmentSliceSize := by
      unfold segmentSliceSize
      omega
    rw [if_neg hge, if_pos rfl]
    exact ⟨0, 0, isSlices_nothing segment rfl rfl, fun h => by omega⟩

/-- A commit of whole slices covers exactly them. -/
theorem segmentCommitMask_slices {idx count : ℕ}
    (hkind : info.kind = .normal) (hslices : info.segmentSlices ≤ 512)
    (hpos : 0 < count) (hfit : idx + count ≤ info.segmentSlices) :
    IsSlices segment
      (segmentCommitMask info segment false
        (segment * segmentSize + idx * segmentSliceSize)
        (count * segmentSliceSize)) idx count := by
  have hsome : ¬ (count * segmentSliceSize = 0 ∨
      segmentSize < count * segmentSliceSize ∨ info.kind = .huge) := by
    rw [hkind]
    unfold segmentSliceSize segmentSize
    simp only [reduceCtorEq, or_false]
    omega
  have hinside : ¬ segment * segmentSize + segmentByteSize info ≤
      segment * segmentSize + idx * segmentSliceSize := by
    unfold segmentByteSize segmentSliceSize
    omega
  have hoff : segment * segmentSize + idx * segmentSliceSize -
      segment * segmentSize = idx * segmentSliceSize :=
    Nat.add_sub_cancel_left ..
  have hstart : alignDown (idx * segmentSliceSize) minimalCommitSize =
      idx * segmentSliceSize := by
    unfold alignDown minimalCommitSize segmentSliceSize
    omega
  have hstop : alignUp (idx * segmentSliceSize + count * segmentSliceSize)
      minimalCommitSize = (idx + count) * segmentSliceSize := by
    unfold alignUp minimalCommitSize segmentSliceSize
    omega
  have hclamp : ¬ (segmentInfoSize info ≤ idx * segmentSliceSize ∧
      idx * segmentSliceSize < segmentInfoSize info) := by omega
  have hstopClamp : ¬ segmentByteSize info <
      (idx + count) * segmentSliceSize := by
    unfold segmentByteSize segmentSliceSize
    omega
  have hlt : idx * segmentSliceSize < (idx + count) * segmentSliceSize := by
    unfold segmentSliceSize
    omega
  have hsize : (idx + count) * segmentSliceSize - idx * segmentSliceSize =
      count * segmentSliceSize := by
    rw [Nat.add_mul, Nat.add_sub_cancel_left]
  have hne : count * segmentSliceSize ≠ 0 := by
    unfold segmentSliceSize
    omega
  have hdiv : idx * segmentSliceSize / commitSize = idx :=
    Nat.mul_div_cancel idx (by decide)
  have hdiv' : count * segmentSliceSize / commitSize = count :=
    Nat.mul_div_cancel count (by decide)
  unfold segmentCommitMask
  rw [if_neg hsome]
  dsimp only
  rw [if_neg hinside, hoff]
  simp only [Bool.false_eq_true, if_false]
  rw [hstart, hstop, if_neg hclamp, if_neg hstopClamp, if_pos hlt, hsize,
    if_neg hne, hdiv, hdiv']
  exact ⟨by omega, rfl, getBit_create_iff (by omega), fun _ => rfl⟩

/-! ## Safe slices -/

/-- Slice `b` is committed and will not be purged. -/
def CommitState.Safe (commit : CommitState) (b : ℕ) : Prop :=
  commit.commitMask.getBit b = true ∧ commit.purgeMask.getBit b = false

def CommitState.PurgeCommitted (commit : CommitState) : Prop :=
  ∀ b, commit.purgeMask.getBit b = true → commit.commitMask.getBit b = true

structure KeepsSafe (touched : ℕ → Prop) (commit commit' : CommitState) :
    Prop where
  safe : ∀ b, ¬ touched b → commit.Safe b → commit'.Safe b
  committed : commit.PurgeCommitted → commit'.PurgeCommitted
  scheduled : ∀ b, commit'.purgeMask.getBit b = true →
    commit.purgeMask.getBit b = true ∨ touched b

variable {touched : ℕ → Prop}

theorem KeepsSafe.refl (touched : ℕ → Prop) (commit : CommitState) :
    KeepsSafe touched commit commit :=
  ⟨fun _ _ h => h, fun h => h, fun _ h => Or.inl h⟩

theorem KeepsSafe.trans (hfirst : KeepsSafe touched commit commit')
    (hrest : KeepsSafe touched commit' commit'') :
    KeepsSafe touched commit commit'' := by
  constructor
  · intro b hb hsafe
    exact hrest.safe b hb (hfirst.safe b hb hsafe)
  · intro hcommitted
    exact hrest.committed (hfirst.committed hcommitted)
  · intro b hb
    rcases hrest.scheduled b hb with hb | hb
    · exact hfirst.scheduled b hb
    · exact Or.inr hb

theorem KeepsSafe.mono {touched' : ℕ → Prop}
    (hkeeps : KeepsSafe touched commit commit')
    (hle : ∀ b, touched b → touched' b) :
    KeepsSafe touched' commit commit' := by
  constructor
  · intro b hb
    exact hkeeps.safe b fun h => hb (hle b h)
  · exact hkeeps.committed
  · intro b hb
    exact (hkeeps.scheduled b hb).imp_right (hle b)

theorem KeepsSafe.congr (hkeeps : KeepsSafe touched commit commit')
    (hcommit : commit''.commitMask = commit'.commitMask)
    (hpurge : commit''.purgeMask = commit'.purgeMask) :
    KeepsSafe touched commit commit'' := by
  have hsafe : ∀ b, commit'.Safe b → commit''.Safe b := by
    intro b hb
    unfold CommitState.Safe at hb ⊢
    rw [hcommit, hpurge]
    exact hb
  have hcommitted : commit'.PurgeCommitted → commit''.PurgeCommitted := by
    intro h
    unfold CommitState.PurgeCommitted at h ⊢
    rw [hcommit, hpurge]
    exact h
  constructor
  · exact fun b hb hold => hsafe b (hkeeps.safe b hb hold)
  · exact fun h => hcommitted (hkeeps.committed h)
  · rw [hpurge]
    exact hkeeps.scheduled

/-- Committing more and scheduling less. -/
theorem keepsSafe_of_le
    (hcommit : ∀ b, commit.commitMask.getBit b = true →
      commit'.commitMask.getBit b = true)
    (hpurge : ∀ b, commit'.purgeMask.getBit b = true →
      commit.purgeMask.getBit b = true) (touched : ℕ → Prop) :
    KeepsSafe touched commit commit' := by
  constructor
  · intro b _ hsafe
    refine ⟨hcommit b hsafe.1, ?_⟩
    rw [← Bool.not_eq_true]
    intro hb
    have hold := hpurge b hb
    rw [hsafe.2] at hold
    cases hold
  · intro hcommitted b hb
    exact hcommit b (hcommitted b (hpurge b hb))
  · intro b hb
    exact Or.inl (hpurge b hb)

/-! ## Committing -/

theorem segmentCommitUnpurge_masks (cfg : Config) (commit : CommitState)
    (os : Os) (mask : CommitMask) :
    (segmentCommitUnpurge cfg commit os mask).1.commitMask =
        commit.commitMask ∧
      (segmentCommitUnpurge cfg commit os mask).1.purgeMask =
        commit.purgeMask.clear mask := by
  unfold segmentCommitUnpurge
  split
  · exact ⟨rfl, rfl⟩
  · exact ⟨rfl, rfl⟩

/-- A commit either leaves the masks alone or commits its range and takes it
out of the purge mask. -/
theorem segmentCommit_masks (cfg : Config) (info : SegmentInfo) (os : Os)
    (segment p size : ℕ) :
    let result := segmentCommit cfg info os segment p size
    let mask := (segmentCommitMask info segment false p size).mask
    result.commit = info.commit ∧
        (result.ok = true → mask.isEmpty ∨
          (segmentCommitMask info segment false p size).fullSize = 0) ∨
      result.commit.purgeMask = info.commit.purgeMask.clear mask ∧
        (∀ b, result.commit.commitMask.getBit b =
          (info.commit.commitMask.getBit b || mask.getBit b)) := by
  unfold segmentCommit
  dsimp only
  split
  · rename_i hnone
    exact Or.inl ⟨rfl, fun _ => hnone⟩
  split
  · rename_i hset
    have hmasks := segmentCommitUnpurge_masks cfg info.commit os
      (segmentCommitMask info segment false p size).mask
    refine Or.inr ⟨hmasks.2, ?_⟩
    intro b
    rw [hmasks.1]
    cases hb : (segmentCommitMask info segment false p size).mask.getBit b with
    | false => rw [Bool.or_false]
    | true =>
        have hlt : b < 512 := by
          by_contra hge
          rw [getBit_of_ge _ (not_lt.mp hge)] at hb
          cases hb
        rw [CommitMask.allSet_iff.mp hset b hlt hb]
        rfl
  · cases hok : (os.commit
        (segmentCommitMask info segment false p size).start
        (segmentCommitMask info segment false p size).fullSize).1 with
    | false => exact Or.inl ⟨rfl, fun h => by cases h⟩
    | true =>
        have hmasks := segmentCommitUnpurge_masks cfg
          { info.commit with
            commitMask := info.commit.commitMask.set
              (segmentCommitMask info segment false p size).mask }
          (os.commit (segmentCommitMask info segment false p size).start
            (segmentCommitMask info segment false p size).fullSize).2.2
          (segmentCommitMask info segment false p size).mask
        refine Or.inr ⟨hmasks.2, ?_⟩
        intro b
        rw [← CommitMask.getBit_set]
        exact congrArg (fun cm => CommitMask.getBit cm b) hmasks.1

theorem segmentCommit_keepsSafe (cfg : Config) (info : SegmentInfo) (os : Os)
    (segment p size : ℕ) (touched : ℕ → Prop) :
    KeepsSafe touched info.commit
      (segmentCommit cfg info os segment p size).commit := by
  rcases segmentCommit_masks cfg info os segment p size with
    ⟨hsame, -⟩ | ⟨hpurge, hcommit⟩
  · rw [hsame]
    exact KeepsSafe.refl touched _
  · apply keepsSafe_of_le
    · intro b hb
      rw [hcommit, hb]
      rfl
    · intro b hb
      rw [hpurge, CommitMask.getBit_clear, Bool.and_eq_true] at hb
      exact hb.1

theorem segmentEnsureCommitted_keepsSafe (cfg : Config) (info : SegmentInfo)
    (os : Os) (segment p size : ℕ) (touched : ℕ → Prop) :
    KeepsSafe touched info.commit
      (segmentEnsureCommitted cfg info os segment p size).commit := by
  unfold segmentEnsureCommitted
  split
  · exact KeepsSafe.refl touched _
  · exact segmentCommit_keepsSafe cfg info os segment p size touched

/-- Slices that were committed for a page are safe. -/
theorem segmentEnsureCommitted_safe {idx count : ℕ}
    (hkind : info.kind = .normal) (hslices : info.segmentSlices ≤ 512)
    (hpos : 0 < count) (hfit : idx + count ≤ info.segmentSlices)
    (hok : (segmentEnsureCommitted cfg info os segment
      (segment * segmentSize + idx * segmentSliceSize)
      (count * segmentSliceSize)).ok = true) {b : ℕ} (hlo : idx ≤ b)
    (hhi : b < idx + count) :
    (segmentEnsureCommitted cfg info os segment
      (segment * segmentSize + idx * segmentSliceSize)
      (count * segmentSliceSize)).commit.Safe b := by
  unfold segmentEnsureCommitted at hok ⊢
  by_cases hfull : info.commit.commitMask.isFull ∧
      info.commit.purgeMask.isEmpty
  · rw [if_pos hfull]
    exact ⟨CommitMask.isFull_iff.mp hfull.1 b (by omega),
      CommitMask.isEmpty_iff.mp hfull.2 b (by omega)⟩
  · rw [if_neg hfull] at hok ⊢
    have hrange := @segmentCommitMask_slices info segment idx count hkind
      hslices hpos hfit
    have hb := (hrange.mask b).mpr ⟨hlo, hhi⟩
    rcases segmentCommit_masks cfg info os segment
      (segment * segmentSize + idx * segmentSliceSize)
      (count * segmentSliceSize) with ⟨-, hnone⟩ | ⟨hpurge, hcommit⟩
    · exfalso
      rcases hnone hok with hempty | hzero
      · rw [CommitMask.isEmpty_iff.mp hempty b (by omega)] at hb
        cases hb
      · rw [hrange.fullSize] at hzero
        unfold segmentSliceSize at hzero
        omega
    · constructor
      · rw [hcommit, hb, Bool.or_true]
      · rw [hpurge, CommitMask.getBit_clear, hb]
        exact Bool.and_false _

/-! ## Purging -/

/-- The range that `pa_segment_purge` gives to `_pa_os_purge`, if any. -/
def segmentPurged (info : SegmentInfo) (commit : CommitState)
    (segment : ℕ) (p : Addr) (size : ℕ) : List (Addr × ℕ) :=
  if ¬ info.allowPurge then []
  else
    let range := segmentCommitMask info segment true p size
    if range.mask.isEmpty ∨ range.fullSize = 0 then []
    else if commit.commitMask.anySet range.mask then
      [(range.start, range.fullSize)]
    else []

/-- Give ranges to `_pa_os_purge` one after another. -/
def Os.purgeAll (cfg : Config) (os : Os) (ranges : List (Addr × ℕ)) : Os :=
  ranges.foldl (fun os range => (os.purge cfg range.1 range.2).2) os

theorem segmentPurge_os (cfg : Config) (info : SegmentInfo)
    (commit : CommitState) (os : Os) (segment p size : ℕ) :
    (segmentPurge cfg info commit os segment p size).2 =
      os.purgeAll cfg (segmentPurged info commit segment p size) := by
  unfold segmentPurge segmentPurged
  dsimp only
  split
  · rfl
  split
  · rfl
  split
  · rfl
  · rfl

theorem segmentPurge_masks (cfg : Config) (info : SegmentInfo)
    (commit : CommitState) (os : Os) (segment p size : ℕ) :
    let commit' := (segmentPurge cfg info commit os segment p size).1
    let mask := (segmentCommitMask info segment true p size).mask
    commit' = commit ∨
      commit'.purgeMask = commit.purgeMask.clear mask ∧
        (commit'.commitMask = commit.commitMask ∨
          commit'.commitMask = commit.commitMask.clear mask) := by
  unfold segmentPurge
  dsimp only
  split
  · exact Or.inl rfl
  split
  · exact Or.inl rfl
  split
  · refine Or.inr ⟨rfl, ?_⟩
    dsimp only
    split
    · exact Or.inr rfl
    · exact Or.inl rfl
  · exact Or.inr ⟨rfl, Or.inl rfl⟩

theorem segmentPurge_keepsSafe (cfg : Config) (info : SegmentInfo)
    (commit : CommitState) (os : Os) (segment p size : ℕ)
    (hinside : ∀ b,
      (segmentCommitMask info segment true p size).mask.getBit b = true →
        touched b) :
    KeepsSafe touched commit
      (segmentPurge cfg info commit os segment p size).1 := by
  rcases segmentPurge_masks cfg info commit os segment p size with
    hsame | ⟨hpurge, hcommit⟩
  · rw [hsame]
    exact KeepsSafe.refl touched commit
  · have hpurge' : ∀ b, (segmentPurge cfg info commit os segment p
        size).1.purgeMask.getBit b = true →
        commit.purgeMask.getBit b = true ∧
          (segmentCommitMask info segment true p size).mask.getBit b =
            false := by
      intro b hb
      rw [hpurge, CommitMask.getBit_clear, Bool.and_eq_true,
        Bool.not_eq_true'] at hb
      exact hb
    have hcommit' : ∀ b, commit.commitMask.getBit b = true →
        (segmentCommitMask info segment true p size).mask.getBit b = false →
        (segmentPurge cfg info commit os segment p
          size).1.commitMask.getBit b = true := by
      intro b hb hout
      rcases hcommit with hcommit | hcommit
      · rw [hcommit, hb]
      · rw [hcommit, CommitMask.getBit_clear, hb, hout]
        rfl
    constructor
    · intro b hb hsafe
      have hout : (segmentCommitMask info segment true p
          size).mask.getBit b = false := by
        rw [← Bool.not_eq_true]
        exact fun h => hb (hinside b h)
      refine ⟨hcommit' b hsafe.1 hout, ?_⟩
      rw [← Bool.not_eq_true]
      intro hstill
      have hold := (hpurge' b hstill).1
      rw [hsafe.2] at hold
      cases hold
    · intro hcommitted b hb
      rcases hpurge' b hb with ⟨hold, hout⟩
      exact hcommit' b (hcommitted b hold) hout
    · intro b hb
      exact Or.inl (hpurge' b hb).1

/-- The range consists of whole slices of the segment with a property. -/
def OnSlices (segment : ℕ) (good : ℕ → Prop) (range : Addr × ℕ) : Prop :=
  ∃ lo n, range = (segment * segmentSize + lo * segmentSliceSize,
      n * segmentSliceSize) ∧
    ∀ b, lo ≤ b → b < lo + n → good b

theorem OnSlices.mono {good good' : ℕ → Prop} {range : Addr × ℕ}
    (h : OnSlices segment good range) (hle : ∀ b, good b → good' b) :
    OnSlices segment good' range := by
  rcases h with ⟨lo, n, heq, hgood⟩
  exact ⟨lo, n, heq, fun b hlo hhi => hle b (hgood b hlo hhi)⟩

/-- Purging slices `idx` to `idx + count` reaches no others. -/
theorem segmentCommitMask_run (hslices : info.segmentSlices ≤ 512)
    (idx count : ℕ) :
    ∃ lo n, IsSlices segment (segmentCommitMask info segment true
        (segment * segmentSize + idx * commitSize) (count * commitSize))
        lo n ∧
      (0 < n → idx ≤ lo ∧ lo + n ≤ idx + count) := by
  rcases @segmentCommitMask_conservative info segment
    (segment * segmentSize + idx * commitSize) (count * commitSize) hslices
    (Nat.le_add_right _ _) with ⟨lo, n, hrange, hinside⟩
  refine ⟨lo, n, hrange, ?_⟩
  intro hpos
  have hin := hinside hpos
  unfold commitSize segmentSliceSize at hin
  omega

theorem segmentPurged_onSlices {good : ℕ → Prop}
    (hslices : info.segmentSlices ≤ 512) (hp : segment * segmentSize ≤ p)
    (hgood : ∀ b, p ≤ segment * segmentSize + b * segmentSliceSize →
      segment * segmentSize + (b + 1) * segmentSliceSize ≤ p + size →
        good b) :
    ∀ range ∈ segmentPurged info commit segment p size,
      OnSlices segment good range := by
  rcases @segmentCommitMask_conservative info segment p size hslices hp with
    ⟨lo, n, hrange, hinside⟩
  intro range hmem
  unfold segmentPurged at hmem
  dsimp only at hmem
  split at hmem
  · cases hmem
  split at hmem
  · cases hmem
  rename_i hsome
  split at hmem
  · rw [List.mem_singleton.mp hmem]
    have hpos : 0 < n := by
      by_contra hzero
      apply hsome
      apply Or.inr
      rw [hrange.fullSize, Nat.eq_zero_of_not_pos hzero, Nat.zero_mul]
    refine ⟨lo, n, ?_, ?_⟩
    · rw [hrange.start hpos, hrange.fullSize]
    · intro b hlo hhi
      have hin := hinside hpos
      unfold segmentSliceSize at hin hgood
      exact hgood b (by omega) (by omega)
  · cases hmem

/-- The ranges that `purgeRuns` gives to `_pa_os_purge`. -/
def purgedRuns (cfg : Config) (info : SegmentInfo) (segment : ℕ)
    (mask : CommitMask) :
    (fuel : ℕ) → (idx : ℕ) → CommitState → Os → List (Addr × ℕ)
  | 0, _, _, _ => []
  | fuel + 1, idx, commit, os =>
      let (idx, count) := mask.nextRun idx
      if count = 0 then []
      else
        let p := segment * segmentSize + idx * commitSize
        let next := segmentPurge cfg info commit os segment p
          (count * commitSize)
        segmentPurged info commit segment p (count * commitSize) ++
          purgedRuns cfg info segment mask fuel (idx + count) next.1 next.2

theorem purgeRuns_os (cfg : Config) (info : SegmentInfo) (segment : ℕ)
    (mask : CommitMask) (fuel idx : ℕ) (commit : CommitState) (os : Os) :
    (purgeRuns cfg info segment mask fuel idx commit os).2 =
      os.purgeAll cfg
        (purgedRuns cfg info segment mask fuel idx commit os) := by
  induction fuel generalizing idx commit os with
  | zero => rfl
  | succ fuel ih =>
      unfold purgeRuns purgedRuns
      dsimp only
      split
      · rfl
      · rw [ih, segmentPurge_os]
        exact (List.foldl_append ..).symm

theorem purgedRuns_onSlices (cfg : Config)
    (hslices : info.segmentSlices ≤ 512) (mask : CommitMask) (fuel idx : ℕ)
    (commit : CommitState) (os : Os) :
    ∀ range ∈ purgedRuns cfg info segment mask fuel idx commit os,
      OnSlices segment (fun b => mask.getBit b = true) range := by
  induction fuel generalizing idx commit os with
  | zero =>
      intro range hmem
      cases hmem
  | succ fuel ih =>
      intro range hmem
      unfold purgedRuns at hmem
      dsimp only at hmem
      split at hmem
      · cases hmem
      · rcases List.mem_append.mp hmem with hmem | hmem
        · apply segmentPurged_onSlices hslices (Nat.le_add_right _ _) _ range
            hmem
          intro b hlo hhi
          unfold commitSize segmentSliceSize at hlo hhi
          exact mask.nextRun_spec idx b (by omega) (by omega)
        · exact ih _ _ _ range hmem

theorem purgeRuns_keepsSafe (cfg : Config)
    (hslices : info.segmentSlices ≤ 512) (mask : CommitMask)
    (fuel idx : ℕ) (commit : CommitState) (os : Os) :
    KeepsSafe (fun b => mask.getBit b = true) commit
      (purgeRuns cfg info segment mask fuel idx commit os).1 := by
  induction fuel generalizing idx commit os with
  | zero => exact KeepsSafe.refl _ commit
  | succ fuel ih =>
      unfold purgeRuns
      dsimp only
      split
      · exact KeepsSafe.refl _ commit
      · apply KeepsSafe.trans _ (ih _ _ _)
        apply segmentPurge_keepsSafe
        intro b hb
        rcases @segmentCommitMask_run info segment hslices
          (mask.nextRun idx).1 (mask.nextRun idx).2 with
          ⟨lo, n, hrange, hinside⟩
        have hin := (hrange.mask b).mp hb
        have hrun := hinside (by omega)
        exact mask.nextRun_spec idx b (by omega) (by omega)

/-! ## Scheduled purges -/

/-- The ranges that `pa_segment_try_purge` gives to `_pa_os_purge`. -/
def segmentTryPurged (cfg : Config) (info : SegmentInfo)
    (commit : CommitState) (os : Os) (segment : ℕ) (force : Bool) :
    List (Addr × ℕ) :=
  if ¬ info.allowPurge ∨ commit.purgeExpire = 0 ∨ commit.purgeMask.isEmpty
  then []
  else if ¬ force ∧ os.clockNow.1 < commit.purgeExpire then []
  else
    purgedRuns cfg info segment commit.purgeMask (commitMaskBits + 1) 0
      { commit with
        purgeExpire := 0
        purgeMask := CommitMask.createEmpty } os.clockNow.2

/-- `pa_segment_try_purge` reads the clock and purges these ranges. -/
theorem segmentTryPurge_os (cfg : Config) (info : SegmentInfo)
    (commit : CommitState) (os : Os) (segment : ℕ) (force : Bool) :
    (segmentTryPurge cfg info commit os segment force).2 =
      Os.purgeAll cfg
        (if ¬ info.allowPurge ∨ commit.purgeExpire = 0 ∨
          commit.purgeMask.isEmpty then os else os.clockNow.2)
        (segmentTryPurged cfg info commit os segment force) := by
  unfold segmentTryPurge segmentTryPurged
  -- The fuel is a closed number, which the kernel would unfold.
  generalize commitMaskBits + 1 = fuel
  by_cases hnone : ¬ info.allowPurge ∨ commit.purgeExpire = 0 ∨
      commit.purgeMask.isEmpty
  · rw [if_pos hnone, if_pos hnone, if_pos hnone]
    rfl
  rw [if_neg hnone, if_neg hnone, if_neg hnone]
  generalize os.clockNow = clock
  obtain ⟨now, os⟩ := clock
  dsimp only
  split
  · rfl
  · split
    · exact purgeRuns_os ..
    · exact purgeRuns_os ..

theorem segmentTryPurged_onSlices (cfg : Config)
    (hslices : info.segmentSlices ≤ 512) (commit : CommitState) (os : Os)
    (force : Bool) :
    ∀ range ∈ segmentTryPurged cfg info commit os segment force,
      OnSlices segment (fun b => commit.purgeMask.getBit b = true) range := by
  intro range hmem
  unfold segmentTryPurged at hmem
  split at hmem
  · cases hmem
  split at hmem
  · cases hmem
  · exact purgedRuns_onSlices cfg hslices _ _ _ _ _ range hmem

theorem segmentTryPurge_keepsSafe (cfg : Config)
    (hslices : info.segmentSlices ≤ 512) (commit : CommitState) (os : Os)
    (force : Bool) (touched : ℕ → Prop) :
    KeepsSafe touched commit
      (segmentTryPurge cfg info commit os segment force).1 := by
  have hnone : ∀ b, CommitMask.createEmpty.getBit b = true → False := by
    intro b hb
    rw [CommitMask.getBit_createEmpty] at hb
    cases hb
  have hcleared : KeepsSafe touched commit
      { commit with
        purgeExpire := 0
        purgeMask := CommitMask.createEmpty } := by
    apply keepsSafe_of_le
    · exact fun _ hb => hb
    · intro b hb
      dsimp only at hb
      exact (hnone b hb).elim
  have hall (fuel : ℕ) (os : Os) : KeepsSafe touched commit
      (purgeRuns cfg info segment commit.purgeMask fuel 0
        { commit with
          purgeExpire := 0
          purgeMask := CommitMask.createEmpty } os).1 := by
    have hruns := @purgeRuns_keepsSafe info segment cfg hslices
      commit.purgeMask fuel 0
      { commit with
        purgeExpire := 0
        purgeMask := CommitMask.createEmpty } os
    constructor
    · intro b hb hsafe
      apply hruns.safe b _ (hcleared.safe b hb hsafe)
      rw [hsafe.2]
      exact Bool.false_ne_true
    · intro hcommitted
      exact hruns.committed (hcleared.committed hcommitted)
    · intro b hb
      rcases hruns.scheduled b hb with hb | hb
      · exact (hnone b hb).elim
      · exact Or.inl hb
  unfold segmentTryPurge
  generalize commitMaskBits + 1 = fuel
  by_cases hnone : ¬ info.allowPurge ∨ commit.purgeExpire = 0 ∨
      commit.purgeMask.isEmpty
  · rw [if_pos hnone]
    exact KeepsSafe.refl touched commit
  rw [if_neg hnone]
  generalize os.clockNow = clock
  obtain ⟨now, os⟩ := clock
  dsimp only
  split
  · exact KeepsSafe.refl touched commit
  split
  · exact (hall fuel os).congr rfl rfl
  · exact hall fuel os

/-- Scheduling a purge of whole slices touches only them. -/
theorem segmentSchedulePurge_keepsSafe (cfg : Config)
    (hslices : info.segmentSlices ≤ 512) (os : Os)
    (hp : segment * segmentSize ≤ p)
    (hinside : ∀ b, p ≤ segment * segmentSize + b * segmentSliceSize →
      segment * segmentSize + (b + 1) * segmentSliceSize ≤ p + size →
        touched b) :
    KeepsSafe touched info.commit
      (segmentSchedulePurge cfg info os segment p size).1 := by
  rcases @segmentCommitMask_conservative info segment p size hslices hp with
    ⟨lo, n, hrange, hin⟩
  have htouched : ∀ b,
      (segmentCommitMask info segment true p size).mask.getBit b = true →
        touched b := by
    intro b hb
    have hbit := (hrange.mask b).mp hb
    have hbounds := hin (by omega)
    unfold segmentSliceSize at hbounds hinside
    exact hinside b (by omega) (by omega)
  have hscheduled : KeepsSafe touched info.commit
      { info.commit with
        purgeMask := info.commit.purgeMask.set
          (CommitMask.createIntersect info.commit.commitMask
            (segmentCommitMask info segment true p size).mask) } := by
    have hset : ∀ b, (info.commit.purgeMask.set
        (CommitMask.createIntersect info.commit.commitMask
          (segmentCommitMask info segment true p size).mask)).getBit b =
            true →
        info.commit.purgeMask.getBit b = true ∨
          info.commit.commitMask.getBit b = true ∧ touched b := by
      intro b hb
      rw [CommitMask.getBit_set, CommitMask.getBit_createIntersect,
        Bool.or_eq_true, Bool.and_eq_true] at hb
      exact hb.imp_right (fun h => ⟨h.1, htouched b h.2⟩)
    constructor
    · intro b hb hsafe
      refine ⟨hsafe.1, ?_⟩
      rw [← Bool.not_eq_true]
      intro hstill
      rcases hset b hstill with hold | hnew
      · rw [hsafe.2] at hold
        cases hold
      · exact hb hnew.2
    · intro hcommitted b hb
      rcases hset b hb with hold | hnew
      · exact hcommitted b hold
      · exact hnew.1
    · intro b hb
      exact (hset b hb).imp_right And.right
  unfold segmentSchedulePurge
  dsimp only
  split
  · exact KeepsSafe.refl touched _
  split
  · exact segmentPurge_keepsSafe cfg info _ os segment p size htouched
  split
  · exact KeepsSafe.refl touched _
  split
  · exact hscheduled.congr rfl rfl
  split
  · split
    · exact hscheduled.trans
        (segmentTryPurge_keepsSafe cfg hslices _ _ true touched)
    · exact hscheduled.congr rfl rfl
  · exact hscheduled.congr rfl rfl

/-- The ranges that `pa_segment_schedule_purge` gives to `_pa_os_purge`: at
once without a delay, or all that was scheduled when that has expired. -/
def segmentSchedulePurged (cfg : Config) (info : SegmentInfo) (os : Os)
    (segment : ℕ) (p : Addr) (size : ℕ) : List (Addr × ℕ) :=
  if ¬ info.allowPurge then []
  else if cfg.purgeDelay = 0 then
    segmentPurged info info.commit segment p size
  else
    let range := segmentCommitMask info segment true p size
    if range.mask.isEmpty ∨ range.fullSize = 0 then []
    else
      let cmask :=
        CommitMask.createIntersect info.commit.commitMask range.mask
      let (now, os) := os.clockNow
      if info.commit.purgeExpire ≠ 0 ∧ info.commit.purgeExpire ≤ now ∧
          info.commit.purgeExpire + cfg.purgeExtendDelay ≤ now then
        segmentTryPurged cfg info
          { info.commit with purgeMask := info.commit.purgeMask.set cmask }
          os segment true
      else []

theorem segmentSchedulePurge_os (cfg : Config) (info : SegmentInfo)
    (os : Os) (segment p size : ℕ) :
    ∃ os₁ : Os, os₁.committed = os.committed ∧
      (segmentSchedulePurge cfg info os segment p size).2 =
        os₁.purgeAll cfg
          (segmentSchedulePurged cfg info os segment p size) := by
  unfold segmentSchedulePurge segmentSchedulePurged
  dsimp only
  split
  · exact ⟨os, rfl, rfl⟩
  split
  · exact ⟨os, rfl, segmentPurge_os ..⟩
  split
  · exact ⟨os, rfl, rfl⟩
  by_cases hzero : info.commit.purgeExpire = 0
  · rw [if_pos hzero, if_neg (fun h => h.1 hzero)]
    exact ⟨os.clockNow.2, rfl, rfl⟩
  rw [if_neg hzero]
  by_cases hexpired : info.commit.purgeExpire ≤ os.clockNow.1
  · rw [if_pos hexpired]
    by_cases hextended :
        info.commit.purgeExpire + cfg.purgeExtendDelay ≤ os.clockNow.1
    · rw [if_pos hextended, if_pos ⟨hzero, hexpired, hextended⟩,
        segmentTryPurge_os]
      refine ⟨_, ?_, rfl⟩
      split
      · rfl
      · rfl
    · rw [if_neg hextended, if_neg (fun h => hextended h.2.2)]
      exact ⟨os.clockNow.2, rfl, rfl⟩
  · rw [if_neg hexpired, if_neg (fun h => hexpired h.2.1)]
    exact ⟨os.clockNow.2, rfl, rfl⟩

/-- Only slices of the range and slices that were scheduled before are
purged. -/
theorem segmentSchedulePurged_onSlices (cfg : Config) {good : ℕ → Prop}
    (hslices : info.segmentSlices ≤ 512) (os : Os)
    (hp : segment * segmentSize ≤ p)
    (hscheduled : ∀ b, info.commit.purgeMask.getBit b = true → good b)
    (hgood : ∀ b, p ≤ segment * segmentSize + b * segmentSliceSize →
      segment * segmentSize + (b + 1) * segmentSliceSize ≤ p + size →
        good b) :
    ∀ range ∈ segmentSchedulePurged cfg info os segment p size,
      OnSlices segment good range := by
  rcases @segmentCommitMask_conservative info segment p size hslices hp with
    ⟨lo, n, hrange, hinside⟩
  intro range hmem
  unfold segmentSchedulePurged at hmem
  dsimp only at hmem
  split at hmem
  · cases hmem
  split at hmem
  · exact segmentPurged_onSlices hslices hp hgood range hmem
  split at hmem
  · cases hmem
  split at hmem
  · apply (segmentTryPurged_onSlices cfg hslices _ _ _ range hmem).mono
    intro b hb
    dsimp only at hb
    rw [CommitMask.getBit_set, CommitMask.getBit_createIntersect,
      Bool.or_eq_true, Bool.and_eq_true] at hb
    rcases hb with hb | ⟨-, hb⟩
    · exact hscheduled b hb
    · have hbit := (hrange.mask b).mp hb
      have hbounds := hinside (by omega)
      unfold segmentSliceSize at hbounds hgood
      exact hgood b (by omega) (by omega)
  · cases hmem

end Palloc
