import Palloc.PomaiRun
import Mathlib.Algebra.BigOperators.Ring.List

/-!
# The Pomai arena of one thread

The other half of `p_arena_alloc_vector`: without `shared`, the offset and the
watermark are plain fields, and the offset moves only after the commit.  What
an allocation returns depends on the offset alone, unless its commit fails; so
a replay after a reset returns the same addresses as long as the same commits
fail.
-/

namespace Palloc

open MachineWord

/-! ## The calls -/

structure SingleState where
  offset : ℕ
  committed : ℕ
  deriving Repr, DecidableEq

namespace PomaiArena

/-- `pa_arena_ensure_committed_single`: the new watermark, or `none` for an
error. -/
def ensureCommittedSingle (arena : PomaiArena) (committed needCommitted : ℕ)
    (commitOk : Bool) : Option ℕ :=
  if needCommitted ≤ committed then some committed
  else
    let newCommitted := wordAlignUp needCommitted arena.commitGrain
    if newCommitted < needCommitted then none
    else
      let newCommitted :=
        if arena.totalSize < newCommitted then arena.totalSize
        else newCommitted
      if commitOk then some newCommitted else none

/-- The checks of `p_arena_alloc_vector` up to the new offset. -/
def newOffset (arena : PomaiArena) (vectorDim elementSize cur : ℕ) :
    Option ℕ :=
  match alignedRequest vectorDim elementSize with
  | none => none
  | some alignedSize =>
      if arena.hardLimit < alignedSize ∨
          arena.hardLimit - alignedSize < cur then none
      else some ((cur + alignedSize) % wordSize)

/-- `p_arena_alloc_vector` on an arena that is not shared. -/
def allocVectorSingle (arena : PomaiArena) (vectorDim elementSize : ℕ)
    (commitOk : Bool) (st : SingleState) : Option ℕ × SingleState :=
  let cur := st.offset
  match arena.newOffset vectorDim elementSize cur with
  | none => (none, st)
  | some newOffset =>
      if arena.useOsReserve then
        match arena.ensureCommittedSingle st.committed newOffset commitOk with
        | none => (none, st)
        | some committed =>
            (some ((arena.base + cur) % wordSize), ⟨newOffset, committed⟩)
      else
        (some ((arena.base + cur) % wordSize), { st with offset := newOffset })

/-- `p_arena_reset` on an arena that is not shared; the outcome of the decommit
is not looked at. -/
def resetSingle (arena : PomaiArena) (st : SingleState) : SingleState :=
  if arena.useOsReserve then ⟨arena.payloadStart, arena.payloadStart⟩
  else { st with offset := arena.payloadStart }

/-- Whether a request passes the checks and then fails to commit. -/
def commitFails (arena : PomaiArena) (vectorDim elementSize : ℕ)
    (commitOk : Bool) (st : SingleState) : Bool :=
  match arena.newOffset vectorDim elementSize st.offset with
  | none => false
  | some newOffset =>
      arena.useOsReserve &&
        (arena.ensureCommittedSingle st.committed newOffset commitOk).isNone

end PomaiArena

/-! ## Runs -/

inductive SingleCall where
  | alloc (vectorDim elementSize : Word) (commitOk : Bool)
  | reset

structure SingleRun where
  state : SingleState
  handed : List (ℕ × ℕ)

def SingleRun.call (arena : PomaiArena) (run : SingleRun) :
    SingleCall → SingleRun
  | .alloc vectorDim elementSize commitOk =>
      let (p, state) :=
        arena.allocVectorSingle vectorDim elementSize commitOk run.state
      ⟨state, run.handed ++
        p.toList.map fun p => (p, vectorDim.val * elementSize.val)⟩
  | .reset => ⟨arena.resetSingle run.state, []⟩

def singleRun (arena : PomaiArena) (firstCommit : ℕ)
    (calls : List SingleCall) : SingleRun :=
  calls.foldl (SingleRun.call arena) ⟨⟨arena.payloadStart, firstCommit⟩, []⟩

/-- The addresses that requests return one after another; `ok i` is what the
operating system would answer to a commit of the `i`-th one. -/
def allocResults (arena : PomaiArena) :
    (requests : List (Word × Word)) → (ok : ℕ → Bool) → SingleState →
    List (Option ℕ)
  | [], _, _ => []
  | (vectorDim, elementSize) :: requests, ok, st =>
      let (p, st) := arena.allocVectorSingle vectorDim elementSize (ok 0) st
      p :: allocResults arena requests (fun i => ok (i + 1)) st

def commitFailures (arena : PomaiArena) :
    (requests : List (Word × Word)) → (ok : ℕ → Bool) → SingleState →
    List Bool
  | [], _, _ => []
  | (vectorDim, elementSize) :: requests, ok, st =>
      arena.commitFails vectorDim elementSize (ok 0) st ::
        commitFailures arena requests (fun i => ok (i + 1))
          (arena.allocVectorSingle vectorDim elementSize (ok 0) st).2

def AtStart (calls : List SingleCall) : Prop :=
  calls = [] ∨ ∃ before, calls = before ++ [.reset]

/-! ## Creation -/

structure PomaiArena.Sized (os : PrimOs) (capacityBytes : ℕ)
    (arena : PomaiArena) (firstCommit : ℕ) : Prop where
  payload_eq : arena.payloadStart =
    exactAlignUp arenaVectorHeaderSize (max arenaVectorAlign os.pageSize)
  total_eq : arena.totalSize =
    exactAlignUp (arena.payloadStart + capacityBytes) os.pageSize
  grain_eq : arena.commitGrain = max (2 * 1024 * 1024) os.pageSize
  first_eq : firstCommit =
    if arena.useOsReserve then
      min (exactAlignUp (arena.payloadStart + arena.commitGrain) os.pageSize)
        arena.totalSize
    else arena.totalSize
  firstLe : firstCommit ≤ arena.totalSize
  watermark : arena.useOsReserve = true →
    firstCommit + arena.commitGrain ≤ wordSize

theorem PrimOs.commitGrain_eq (os : PrimOs) :
    os.commitGrain = max (2 * 1024 * 1024) os.pageSize := by
  have hpos := os.pageSize_pos
  have hle := os.pageSize_le
  unfold PrimOs.commitGrain
  dsimp only
  by_cases hsmall : 2 * 1024 * 1024 < os.pageSize
  · rw [if_pos hsmall, max_eq_right hsmall.le, wordAlignUp_of_lt,
      exactAlignUp_of_dvd hpos dvd_rfl]
    unfold wordSize
    omega
  · have hdvd : os.pageSize ∣ 2 * 1024 * 1024 := by
      have hpow : 2 * 1024 * 1024 = 2 ^ 21 := by decide
      unfold PrimOs.pageSize at hsmall ⊢
      rw [hpow] at hsmall ⊢
      exact pow_dvd_pow 2
        ((Nat.pow_le_pow_iff_right (by decide)).mp (not_lt.mp hsmall))
    rw [if_neg hsmall, max_eq_left (not_lt.mp hsmall), wordAlignUp_of_lt,
      exactAlignUp_of_dvd hpos hdvd]
    unfold wordSize
    omega

theorem PrimOs.commitGrain_dvd (os : PrimOs) : os.commitGrain ∣ wordSize := by
  rw [os.commitGrain_eq]
  rcases max_choice (2 * 1024 * 1024) os.pageSize with heq | heq
  · rw [heq]
    decide +kernel
  · rw [heq]
    exact pow_dvd_pow 2 os.pageShift_lt.le

theorem arenaPayloadStart_eq (os : PrimOs) :
    arenaPayloadStart os =
      exactAlignUp arenaVectorHeaderSize
        (max arenaVectorAlign os.pageSize) := by
  have hle := os.pageSize_le
  have halign : (if arenaVectorAlign < os.pageSize then os.pageSize
      else arenaVectorAlign) = max arenaVectorAlign os.pageSize := by
    rcases lt_or_ge arenaVectorAlign os.pageSize with hlt | hge
    · rw [if_pos hlt, max_eq_right hlt.le]
    · rw [if_neg (not_lt.mpr hge), max_eq_left hge]
  have hmax : max arenaVectorAlign os.pageSize ≤ 2 ^ 63 :=
    max_le (by decide) hle
  unfold arenaPayloadStart
  dsimp only
  rw [halign, wordAlignUp_of_lt]
  unfold arenaVectorHeaderSize wordSize
  omega

/-- The first commit ends a grain before the end of the address space. -/
theorem firstCommitEnd_spec {os : PrimOs} {capacityBytes totalSize base : ℕ}
    (hcapacity : 0 < capacityBytes)
    (htotal : totalSize =
      exactAlignUp (arenaPayloadStart os + capacityBytes) os.pageSize)
    (hbase : 0 < base) (hdvd : os.pageSize ∣ base)
    (hend : base + totalSize ≤ wordSize) :
    arenaPayloadStart os + os.commitGrain + os.pageSize - 1 < wordSize ∧
      exactAlignUp (arenaPayloadStart os + os.commitGrain) os.pageSize +
        os.commitGrain ≤ wordSize := by
  have hpos := os.pageSize_pos
  have hword : wordSize = 2 ^ 64 := rfl
  have hpage : os.pageSize ≤ base := Nat.le_of_dvd hbase hdvd
  have hstart := arenaPayloadStart_eq os
  rw [os.commitGrain_eq]
  by_cases hsmall : os.pageSize ≤ 2 * 1024 * 1024
  · have hstartLt : arenaPayloadStart os <
        arenaVectorHeaderSize + max arenaVectorAlign os.pageSize := by
      rw [hstart]
      exact exactAlignUp_lt (lt_max_of_lt_right hpos)
    have hmax : max arenaVectorAlign os.pageSize ≤ 2 * 1024 * 1024 :=
      max_le (by decide) hsmall
    have hround := @exactAlignUp_lt
      (arenaPayloadStart os + 2 * 1024 * 1024) os.pageSize hpos
    unfold arenaVectorHeaderSize at hstartLt
    rw [max_eq_left hsmall]
    omega
  · have hlarge := not_le.mp hsmall
    have hstartEq : arenaPayloadStart os = os.pageSize := by
      rw [hstart, max_eq_right (by unfold arenaVectorAlign; omega)]
      refine le_antisymm ?_ ?_
      · exact exactAlignUp_le_of_dvd
          (by unfold arenaVectorHeaderSize; omega) dvd_rfl
      · refine Nat.le_of_dvd ?_ (dvd_exactAlignUp _ _)
        exact (by decide : 0 < arenaVectorHeaderSize).trans_le
          (le_exactAlignUp hpos)
    have htwo : os.pageSize + os.pageSize ≤ totalSize := by
      -- the payload needs a second page
      have hle : arenaPayloadStart os + capacityBytes ≤ totalSize := by
        rw [htotal]
        exact le_exactAlignUp hpos
      have htotalDvd : os.pageSize ∣ totalSize := by
        rw [htotal]
        exact dvd_exactAlignUp _ _
      obtain ⟨pages, rfl⟩ := htotalDvd
      have hpages : 1 < pages := by
        by_contra hone
        have hmul : os.pageSize * pages ≤ os.pageSize * 1 :=
          Nat.mul_le_mul_left _ (not_lt.mp hone)
        omega
      have hmul : os.pageSize * 2 ≤ os.pageSize * pages :=
        Nat.mul_le_mul_left _ hpages
      omega
    rw [max_eq_right hlarge.le, hstartEq,
      exactAlignUp_of_dvd hpos (Nat.dvd_add dvd_rfl dvd_rfl)]
    omega

theorem arenaCreateForVectorEx_sized {os : PrimOs} {capacityBytes : ℕ}
    {commitOk : Bool} {arena : PomaiArena} {firstCommit : ℕ}
    (hcreate : arenaCreateForVectorEx os capacityBytes commitOk =
      some (arena, firstCommit)) :
    arena.Sized os capacityBytes firstCommit := by
  have hword : maxWord + 1 = wordSize := by decide
  have hpos := os.pageSize_pos
  unfold arenaCreateForVectorEx at hcreate
  by_cases hzero : capacityBytes = 0
  · rw [if_pos hzero] at hcreate
    cases hcreate
  rw [if_neg hzero] at hcreate
  dsimp only at hcreate
  by_cases hroom : maxWord - arenaPayloadStart os < capacityBytes
  · rw [if_pos hroom] at hcreate
    cases hcreate
  rw [if_neg hroom] at hcreate
  have hsum : arenaPayloadStart os + capacityBytes < wordSize := by
    have hlt : arenaPayloadStart os < wordSize := wordAlignUp_lt_wordSize
    omega
  rw [Nat.mod_eq_of_lt hsum] at hcreate
  cases halloc : os.alloc (wordAlignUp
      (arenaPayloadStart os + capacityBytes) os.pageSize) os.pageSize with
  | none =>
      rw [halloc] at hcreate
      cases hcreate
  | some base =>
      obtain ⟨htotalPos, hbase, hdvd, hend⟩ := os.alloc_spec _ _ _ halloc
      have hexact : wordAlignUp (arenaPayloadStart os + capacityBytes)
          os.pageSize =
          exactAlignUp (arenaPayloadStart os + capacityBytes) os.pageSize := by
        apply wordAlignUp_of_lt
        by_contra hwrap
        rw [wordAlignUp_of_wrap hsum (os.pageSize_le.trans (by decide))
          (not_lt.mp hwrap)] at htotalPos
        exact lt_irrefl 0 htotalPos
      rw [halloc] at hcreate
      rw [hexact] at hend
      obtain ⟨hfit, hfirst⟩ := firstCommitEnd_spec
        (Nat.pos_of_ne_zero hzero) rfl hbase hdvd hend
      rw [hexact, Nat.mod_eq_of_lt (by omega), wordAlignUp_of_lt hfit]
        at hcreate
      generalize hmin : (if exactAlignUp
            (arenaPayloadStart os + os.commitGrain) os.pageSize <
          exactAlignUp (arenaPayloadStart os + capacityBytes) os.pageSize then
          exactAlignUp (arenaPayloadStart os + os.commitGrain) os.pageSize
        else exactAlignUp (arenaPayloadStart os + capacityBytes)
          os.pageSize) = first at hcreate
      have hminEq : first =
          min (exactAlignUp (arenaPayloadStart os + os.commitGrain)
              os.pageSize)
            (exactAlignUp (arenaPayloadStart os + capacityBytes)
              os.pageSize) := by
        rw [← hmin]
        split
        · rw [min_eq_left (le_of_lt ‹_›)]
        · rw [min_eq_right (not_lt.mp ‹_›)]
      dsimp only at hcreate
      by_cases hfail : os.virtualReserve = true ∧ ¬ commitOk = true
      · rw [if_pos hfail] at hcreate
        cases hcreate
      rw [if_neg hfail] at hcreate
      cases hcreate
      constructor
      · exact arenaPayloadStart_eq os
      · rfl
      · exact os.commitGrain_eq
      · dsimp only
        rw [hminEq]
      · dsimp only
        split
        · rw [hminEq]
          exact min_le_right _ _
        · exact le_rfl
      · intro hreserve
        dsimp only at hreserve ⊢
        rw [if_pos hreserve, hminEq]
        exact (Nat.add_le_add_right (min_le_left _ _) _).trans hfirst

/-! ## One allocation -/

variable {arena : PomaiArena} {capacityBytes : ℕ} {st st' : SingleState}
variable {vectorDim elementSize : ℕ} {commitOk commitOk' : Bool}

theorem PomaiArena.Created.hardLimit_lt (hcreated : arena.Created capacityBytes) :
    arena.hardLimit < wordSize := by
  have hle := hcreated.hardLimitLe
  have hend := hcreated.endLe
  have hpos := hcreated.basePos
  omega

/-- A request that passes the checks ends at the exact sum, within the hard
limit. -/
theorem newOffset_spec (hcreated : arena.Created capacityBytes) {cur new : ℕ}
    (hnew : arena.newOffset vectorDim elementSize cur = some new) :
    0 < vectorDim * elementSize ∧
      new = cur + exactAlignUp (vectorDim * elementSize) arenaVectorAlign ∧
      new ≤ arena.hardLimit := by
  have hlimit := hcreated.hardLimit_lt
  unfold PomaiArena.newOffset at hnew
  cases hrequest : alignedRequest vectorDim elementSize with
  | none =>
      rw [hrequest] at hnew
      cases hnew
  | some alignedSize =>
      obtain ⟨hpos, heq⟩ := alignedRequest_spec hrequest
      rw [hrequest] at hnew
      dsimp only at hnew
      by_cases hover : arena.hardLimit < alignedSize ∨
          arena.hardLimit - alignedSize < cur
      · rw [if_pos hover] at hnew
        cases hnew
      · rw [if_neg hover, Nat.mod_eq_of_lt (by omega)] at hnew
        cases hnew
        rw [← heq]
        exact ⟨hpos, rfl, by omega⟩

/-- An allocation moves the offset by its exact rounded size, or changes
nothing. -/
theorem allocVectorSingle_spec (hcreated : arena.Created capacityBytes)
    (vectorDim elementSize : ℕ) (commitOk : Bool) (st : SingleState) :
    arena.allocVectorSingle vectorDim elementSize commitOk st = (none, st) ∨
    ∃ committed,
      arena.allocVectorSingle vectorDim elementSize commitOk st =
        (some (arena.base + st.offset),
          ⟨st.offset +
            exactAlignUp (vectorDim * elementSize) arenaVectorAlign,
            committed⟩) ∧
      0 < vectorDim * elementSize ∧
      st.offset + exactAlignUp (vectorDim * elementSize) arenaVectorAlign ≤
        arena.hardLimit ∧
      (arena.useOsReserve = true →
        arena.ensureCommittedSingle st.committed (st.offset +
          exactAlignUp (vectorDim * elementSize) arenaVectorAlign)
            commitOk = some committed) := by
  unfold PomaiArena.allocVectorSingle
  dsimp only
  cases hnew : arena.newOffset vectorDim elementSize st.offset with
  | none => exact .inl rfl
  | some new =>
      obtain ⟨hpos, rfl, hle⟩ := newOffset_spec hcreated hnew
      have hlimit := hcreated.hardLimitLe
      have hend := hcreated.endLe
      have hround : vectorDim * elementSize ≤
          exactAlignUp (vectorDim * elementSize) arenaVectorAlign :=
        le_exactAlignUp (by decide)
      have haddress : arena.base + st.offset < wordSize := by omega
      rw [Nat.mod_eq_of_lt haddress]
      dsimp only
      cases hreserve : arena.useOsReserve with
      | false =>
          exact .inr ⟨st.committed, rfl, hpos, hle,
            fun hbad => absurd hbad Bool.false_ne_true⟩
      | true =>
          rw [if_pos rfl]
          cases hcommit : arena.ensureCommittedSingle st.committed
              (st.offset + exactAlignUp (vectorDim * elementSize)
                arenaVectorAlign) commitOk with
          | none => exact .inl rfl
          | some committed =>
              exact .inr ⟨committed, rfl, hpos, hle, fun _ => rfl⟩

/-- What a request returns and where the offset goes depends on the offset and
on whether the commit fails. -/
theorem allocVectorSingle_congr (hoffset : st.offset = st'.offset)
    (hfails : arena.commitFails vectorDim elementSize commitOk st =
      arena.commitFails vectorDim elementSize commitOk' st') :
    (arena.allocVectorSingle vectorDim elementSize commitOk st).1 =
        (arena.allocVectorSingle vectorDim elementSize commitOk' st').1 ∧
      (arena.allocVectorSingle vectorDim elementSize commitOk st).2.offset =
        (arena.allocVectorSingle vectorDim elementSize commitOk'
          st').2.offset := by
  unfold PomaiArena.commitFails at hfails
  unfold PomaiArena.allocVectorSingle
  dsimp only
  rw [hoffset] at hfails ⊢
  cases hnew : arena.newOffset vectorDim elementSize st'.offset with
  | none => exact ⟨rfl, hoffset⟩
  | some new =>
      rw [hnew] at hfails
      dsimp only at hfails ⊢
      cases hreserve : arena.useOsReserve with
      | false => exact ⟨rfl, rfl⟩
      | true =>
          rw [hreserve, Bool.true_and, Bool.true_and] at hfails
          rw [if_pos rfl, if_pos rfl]
          cases hcommit : arena.ensureCommittedSingle st.committed new
              commitOk with
          | none =>
              cases hcommit' : arena.ensureCommittedSingle st'.committed new
                  commitOk' with
              | none => exact ⟨rfl, hoffset⟩
              | some committed' =>
                  rw [hcommit, hcommit'] at hfails
                  cases hfails
          | some committed =>
              cases hcommit' : arena.ensureCommittedSingle st'.committed new
                  commitOk' with
              | none =>
                  rw [hcommit, hcommit'] at hfails
                  cases hfails
              | some committed' => exact ⟨rfl, rfl⟩

/-! ## The watermark -/

/-- When the operating system refuses no commit, only a rounding that wraps
fails, and that depends on the new offset alone. -/
theorem ensureCommittedSingle_none_iff
    (hdvd : arena.commitGrain ∣ wordSize) {committed need : ℕ}
    (hwatermark : committed + arena.commitGrain ≤ wordSize)
    (hneed : need < wordSize) :
    arena.ensureCommittedSingle committed need true = none ↔
      wordSize < need + arena.commitGrain := by
  have hpos : 0 < arena.commitGrain := Nat.pos_of_dvd_of_pos hdvd (by decide)
  unfold PomaiArena.ensureCommittedSingle
  by_cases hlow : need ≤ committed
  · rw [if_pos hlow]
    constructor
    · intro hsome
      cases hsome
    · intro hwrap
      omega
  · rw [if_neg hlow]
    dsimp only
    by_cases hwrap : wordSize < need + arena.commitGrain
    · rw [wordAlignUp_of_wrap hneed (Nat.le_of_dvd (by decide) hdvd)
        (by omega), if_pos (by omega)]
      exact ⟨fun _ => hwrap, fun _ => rfl⟩
    · have hround : need ≤ exactAlignUp need arena.commitGrain :=
        le_exactAlignUp hpos
      rw [wordAlignUp_of_lt (by omega), if_neg (not_lt.mpr hround),
        if_pos rfl]
      exact ⟨fun hsome => absurd hsome (Option.some_ne_none _),
        fun hbad => absurd hbad hwrap⟩

/-- A commit that succeeds ends at the exact rounding, or at the end of the
reservation. -/
theorem ensureCommittedSingle_exact
    (hdvd : arena.commitGrain ∣ wordSize) {committed committed' need : ℕ}
    (hneed : need < wordSize)
    (hcommit : arena.ensureCommittedSingle committed need commitOk =
      some committed') :
    need ≤ committed ∧ committed' = committed ∨
    need + arena.commitGrain ≤ wordSize ∧
      committed' =
        min (exactAlignUp need arena.commitGrain) arena.totalSize := by
  have hpos : 0 < arena.commitGrain := Nat.pos_of_dvd_of_pos hdvd (by decide)
  have hle := Nat.le_of_dvd (by decide) hdvd
  unfold PomaiArena.ensureCommittedSingle at hcommit
  by_cases hlow : need ≤ committed
  · rw [if_pos hlow] at hcommit
    cases hcommit
    exact .inl ⟨hlow, rfl⟩
  · rw [if_neg hlow] at hcommit
    dsimp only at hcommit
    by_cases hwrap : wordSize < need + arena.commitGrain
    · rw [wordAlignUp_of_wrap hneed hle (by omega), if_pos (by omega)]
        at hcommit
      cases hcommit
    · have hround : need ≤ exactAlignUp need arena.commitGrain :=
        le_exactAlignUp hpos
      rw [wordAlignUp_of_lt (by omega), if_neg (not_lt.mpr hround)] at hcommit
      cases commitOk with
      | false => cases hcommit
      | true =>
          rw [if_pos rfl] at hcommit
          cases hcommit
          refine .inr ⟨not_lt.mp hwrap, ?_⟩
          by_cases hover :
              arena.totalSize < exactAlignUp need arena.commitGrain
          · rw [if_pos hover, min_eq_right hover.le]
          · rw [if_neg hover, min_eq_left (not_lt.mp hover)]

theorem ensureCommittedSingle_watermark
    (hdvd : arena.commitGrain ∣ wordSize) {committed committed' need : ℕ}
    (hwatermark : committed + arena.commitGrain ≤ wordSize)
    (hneed : need < wordSize)
    (hcommit : arena.ensureCommittedSingle committed need commitOk =
      some committed') :
    committed' + arena.commitGrain ≤ wordSize := by
  rcases ensureCommittedSingle_exact hdvd hneed hcommit with
    ⟨-, rfl⟩ | ⟨hroom, rfl⟩
  · exact hwatermark
  · have hround : exactAlignUp need arena.commitGrain ≤
        wordSize - arena.commitGrain :=
      exactAlignUp_le_of_dvd (by omega) (Nat.dvd_sub hdvd dvd_rfl)
    have hmin := min_le_left (exactAlignUp need arena.commitGrain)
      arena.totalSize
    omega

/-! ## The invariant of a run -/

/-- The bytes that ranges take, each with its rounding. -/
def roundedTotal (handed : List (ℕ × ℕ)) : ℕ :=
  (handed.map fun range => exactAlignUp range.2 arenaVectorAlign).sum

theorem roundedTotal_concat (handed : List (ℕ × ℕ)) (range : ℕ × ℕ) :
    roundedTotal (handed ++ [range]) =
      roundedTotal handed + exactAlignUp range.2 arenaVectorAlign := by
  unfold roundedTotal
  rw [List.map_append, List.sum_append]
  simp

theorem dvd_roundedTotal (handed : List (ℕ × ℕ)) :
    arenaVectorAlign ∣ roundedTotal handed := by
  unfold roundedTotal
  apply List.dvd_sum
  intro size hsize
  obtain ⟨range, -, rfl⟩ := List.mem_map.mp hsize
  exact dvd_exactAlignUp _ _

structure SingleInvariant (arena : PomaiArena) (run : SingleRun) : Prop where
  offset_eq :
    run.state.offset = arena.payloadStart + roundedTotal run.handed
  offsetLe : run.state.offset ≤ arena.hardLimit
  consecutive : ∀ (i : ℕ) (hi : i < run.handed.length),
    run.handed[i].1 =
      arena.base + arena.payloadStart + roundedTotal (run.handed.take i)
  sizePos : ∀ range ∈ run.handed, 0 < range.2
  endLe : ∀ range ∈ run.handed,
    range.1 + range.2 ≤ arena.base + run.state.offset
  disjoint : run.handed.Pairwise fun earlier later =>
    earlier.1 + earlier.2 ≤ later.1
  watermark : arena.useOsReserve = true →
    run.state.committed + arena.commitGrain ≤ wordSize

theorem SingleInvariant.start (hcreated : arena.Created capacityBytes)
    {committed : ℕ} (hwatermark : arena.useOsReserve = true →
      committed + arena.commitGrain ≤ wordSize) :
    SingleInvariant arena ⟨⟨arena.payloadStart, committed⟩, []⟩ := by
  constructor
  · rfl
  · rw [hcreated.hardLimit_eq]
    exact Nat.le_add_right _ _
  · intro i hi
    exact absurd hi (Nat.not_lt_zero i)
  · simp
  · simp
  · exact List.Pairwise.nil
  · exact hwatermark

theorem SingleInvariant.call {run : SingleRun}
    (hcreated : arena.Created capacityBytes)
    (hdvd : arena.commitGrain ∣ wordSize)
    (hreset : arena.useOsReserve = true →
      arena.payloadStart + arena.commitGrain ≤ wordSize)
    (hinv : SingleInvariant arena run) (call : SingleCall) :
    SingleInvariant arena (run.call arena call) := by
  cases call with
  | reset =>
      show SingleInvariant arena ⟨arena.resetSingle run.state, []⟩
      unfold PomaiArena.resetSingle
      cases hreserve : arena.useOsReserve with
      | true => exact SingleInvariant.start hcreated hreset
      | false =>
          refine SingleInvariant.start hcreated ?_
          rw [hreserve]
          exact fun hbad => absurd hbad Bool.false_ne_true
  | alloc vectorDim elementSize commitOk =>
      unfold SingleRun.call
      dsimp only
      rcases allocVectorSingle_spec hcreated vectorDim elementSize commitOk
          run.state with hnone | ⟨committed, hsome, hpos, hle, hcommit⟩
      · rw [hnone]
        dsimp only [Option.toList, List.map]
        rw [List.append_nil]
        exact hinv
      · rw [hsome]
        dsimp only [Option.toList, List.map]
        have hround : vectorDim.val * elementSize.val ≤
            exactAlignUp (vectorDim.val * elementSize.val)
              arenaVectorAlign :=
          le_exactAlignUp (by decide)
        have hlimit := hcreated.hardLimit_lt
        constructor
        · dsimp only
          rw [roundedTotal_concat, hinv.offset_eq, Nat.add_assoc]
        · exact hle
        · intro i hi
          dsimp only at hi ⊢
          rw [List.length_append, List.length_singleton] at hi
          by_cases hold : i < run.handed.length
          · rw [List.getElem_append_left hold, hinv.consecutive i hold,
              List.take_append_of_le_length hold.le]
          · obtain rfl : i = run.handed.length := by omega
            rw [List.getElem_append_right le_rfl, List.take_left]
            simp only [Nat.sub_self, List.getElem_cons_zero]
            rw [hinv.offset_eq, Nat.add_assoc]
        · intro range hrange
          rcases List.mem_append.mp hrange with hold | hnew
          · exact hinv.sizePos range hold
          · rw [List.mem_singleton.mp hnew]
            exact hpos
        · intro range hrange
          dsimp only
          rcases List.mem_append.mp hrange with hold | hnew
          · have hend := hinv.endLe range hold
            omega
          · rw [List.mem_singleton.mp hnew]
            dsimp only
            omega
        · refine List.pairwise_append.mpr
            ⟨hinv.disjoint, List.pairwise_singleton _ _, ?_⟩
          intro earlier hearlier later hlater
          rw [List.mem_singleton.mp hlater]
          exact hinv.endLe earlier hearlier
        · intro hreserve
          exact ensureCommittedSingle_watermark hdvd (hinv.watermark hreserve)
            (hle.trans_lt hlimit) (hcommit hreserve)

/-! ## Replays -/

/-- From the same offset, requests return the same addresses when the same
commits fail. -/
theorem allocResults_congr {requests : List (Word × Word)}
    {ok ok' : ℕ → Bool} (hoffset : st.offset = st'.offset)
    (hfails : commitFailures arena requests ok st =
      commitFailures arena requests ok' st') :
    allocResults arena requests ok st =
      allocResults arena requests ok' st' := by
  induction requests generalizing st st' ok ok' with
  | nil => rfl
  | cons request requests ih =>
      obtain ⟨vectorDim, elementSize⟩ := request
      unfold commitFailures at hfails
      obtain ⟨hfirst, hrest⟩ := List.cons.inj hfails
      obtain ⟨hresult, hnext⟩ := allocVectorSingle_congr hoffset hfirst
      unfold allocResults
      dsimp only
      rw [hresult, ih hnext hrest]

structure Replayable (arena : PomaiArena) (st : SingleState) : Prop where
  watermark : arena.useOsReserve = true →
    st.committed + arena.commitGrain ≤ wordSize

theorem Replayable.alloc (hcreated : arena.Created capacityBytes)
    (hdvd : arena.commitGrain ∣ wordSize) (h : Replayable arena st) :
    Replayable arena
      (arena.allocVectorSingle vectorDim elementSize commitOk st).2 := by
  rcases allocVectorSingle_spec hcreated vectorDim elementSize commitOk st with
    hnone | ⟨committed, hsome, -, hle, hcommit⟩
  · rw [hnone]
    exact h
  · rw [hsome]
    refine ⟨fun hreserve => ?_⟩
    exact ensureCommittedSingle_watermark hdvd (h.watermark hreserve)
      (hle.trans_lt hcreated.hardLimit_lt) (hcommit hreserve)

theorem commitFails_congr (hcreated : arena.Created capacityBytes)
    (hdvd : arena.commitGrain ∣ wordSize) (h : Replayable arena st)
    (h' : Replayable arena st') (hoffset : st.offset = st'.offset) :
    arena.commitFails vectorDim elementSize true st =
      arena.commitFails vectorDim elementSize true st' := by
  unfold PomaiArena.commitFails
  rw [hoffset]
  cases hnew : arena.newOffset vectorDim elementSize st'.offset with
  | none => rfl
  | some new =>
      obtain ⟨-, -, hle⟩ := newOffset_spec hcreated hnew
      have hlt := hle.trans_lt hcreated.hardLimit_lt
      dsimp only
      cases hreserve : arena.useOsReserve with
      | false => rfl
      | true =>
          rw [Bool.true_and, Bool.true_and, Bool.eq_iff_iff,
            Option.isNone_iff_eq_none, Option.isNone_iff_eq_none,
            ensureCommittedSingle_none_iff hdvd (h.watermark hreserve) hlt,
            ensureCommittedSingle_none_iff hdvd (h'.watermark hreserve) hlt]

theorem commitFailures_congr (hcreated : arena.Created capacityBytes)
    (hdvd : arena.commitGrain ∣ wordSize) {requests : List (Word × Word)}
    (h : Replayable arena st) (h' : Replayable arena st')
    (hoffset : st.offset = st'.offset) :
    commitFailures arena requests (fun _ => true) st =
      commitFailures arena requests (fun _ => true) st' := by
  induction requests generalizing st st' with
  | nil => rfl
  | cons request requests ih =>
      obtain ⟨vectorDim, elementSize⟩ := request
      have hfirst := @commitFails_congr arena capacityBytes st st' vectorDim
        elementSize hcreated hdvd h h' hoffset
      unfold commitFailures
      rw [hfirst, ih (h.alloc hcreated hdvd) (h'.alloc hcreated hdvd)
        (allocVectorSingle_congr hoffset hfirst).2]

/-! ## Every run -/

theorem SingleInvariant.run {run : SingleRun}
    (hcreated : arena.Created capacityBytes)
    (hdvd : arena.commitGrain ∣ wordSize)
    (hreset : arena.useOsReserve = true →
      arena.payloadStart + arena.commitGrain ≤ wordSize)
    (hinv : SingleInvariant arena run) (calls : List SingleCall) :
    SingleInvariant arena (calls.foldl (SingleRun.call arena) run) := by
  induction calls generalizing run with
  | nil => exact hinv
  | cons call calls ih => exact ih (hinv.call hcreated hdvd hreset call)

theorem AtStart.offset_eq {firstCommit : ℕ} {calls : List SingleCall}
    (hstart : AtStart calls) :
    (singleRun arena firstCommit calls).state.offset =
      arena.payloadStart := by
  rcases hstart with rfl | ⟨before, rfl⟩
  · rfl
  · unfold singleRun
    rw [List.foldl_append]
    show (arena.resetSingle _).offset = arena.payloadStart
    unfold PomaiArena.resetSingle
    split
    · rfl
    · rfl

/-- Whatever is called on a created arena, and whatever its commits do: sizes
and addresses are exact sums; the ranges handed out since the last reset lie
one after another in the payload; a refused allocation changes nothing; and a
replay returns the same addresses when the same commits fail, as they do when
the operating system refuses none. -/
theorem pomai_single_bump {os : PrimOs} {capacity : Word} {commitOk : Bool}
    {arena : PomaiArena} {firstCommit : ℕ}
    (hcreate : arenaCreateForVectorEx os capacity commitOk =
      some (arena, firstCommit)) :
    arena.Sized os capacity firstCommit ∧
    arena.payloadStart + capacity ≤ arena.totalSize ∧
    arena.hardLimit = arena.payloadStart + capacity ∧
    arena.base + arena.totalSize ≤ wordSize ∧
    (∀ calls : List SingleCall,
      let run := singleRun arena firstCommit calls
      (∀ (i : ℕ) (hi : i < run.handed.length),
        run.handed[i].1 = arena.base + arena.payloadStart +
          roundedTotal (run.handed.take i)) ∧
      (∀ range ∈ run.handed, arenaVectorAlign ∣ range.1 ∧ 0 < range.2 ∧
        arena.base + arena.payloadStart ≤ range.1 ∧
        range.1 + range.2 ≤ arena.base + arena.payloadStart + capacity) ∧
      (run.handed.Pairwise fun earlier later =>
        earlier.1 + earlier.2 ≤ later.1) ∧
      ∀ (vectorDim elementSize : Word) (commitOk : Bool),
        arena.allocVectorSingle vectorDim elementSize commitOk run.state =
            (none, run.state) ∨
        ∃ offset committed,
          arena.allocVectorSingle vectorDim elementSize commitOk run.state =
            (some (arena.base + run.state.offset), ⟨offset, committed⟩) ∧
          offset = run.state.offset + exactAlignUp
            (vectorDim.val * elementSize.val) arenaVectorAlign ∧
          (arena.useOsReserve = true →
            offset ≤ run.state.committed ∧
              committed = run.state.committed ∨
            committed = min (exactAlignUp offset arena.commitGrain)
              arena.totalSize)) ∧
    ∀ calls calls' : List SingleCall, AtStart calls → AtStart calls' →
      ∀ requests : List (Word × Word),
        let st := (singleRun arena firstCommit calls).state
        let st' := (singleRun arena firstCommit calls').state
        (∀ ok ok' : ℕ → Bool,
          commitFailures arena requests ok st =
              commitFailures arena requests ok' st' →
            allocResults arena requests ok st =
              allocResults arena requests ok' st') ∧
        allocResults arena requests (fun _ => true) st =
          allocResults arena requests (fun _ => true) st' := by
  obtain ⟨hcreated, -⟩ := arenaCreateForVectorEx_spec hcreate
  have hsized := arenaCreateForVectorEx_sized hcreate
  have hdvd : arena.commitGrain ∣ wordSize := by
    rw [hsized.grain_eq, ← os.commitGrain_eq]
    exact os.commitGrain_dvd
  have hlimit := hcreated.hardLimit_eq
  have htotal := hcreated.hardLimitLe
  have hreset : arena.useOsReserve = true →
      arena.payloadStart + arena.commitGrain ≤ wordSize := by
    intro hreserve
    have hfirst := hsized.first_eq
    have hwatermark := hsized.watermark hreserve
    have hround : arena.payloadStart + arena.commitGrain ≤
        exactAlignUp (arena.payloadStart + arena.commitGrain) os.pageSize :=
      le_exactAlignUp os.pageSize_pos
    rw [if_pos hreserve] at hfirst
    have hle : arena.payloadStart ≤ firstCommit := by
      rw [hfirst]
      exact le_min (by omega) (by omega)
    omega
  have hinv : ∀ calls,
      SingleInvariant arena (singleRun arena firstCommit calls) := fun calls =>
    (SingleInvariant.start hcreated hsized.watermark).run hcreated hdvd hreset
      calls
  refine ⟨hsized, by omega, hlimit, hcreated.endLe, ?_, ?_⟩
  · intro calls run
    have hrun := hinv calls
    have hoffset := hrun.offsetLe
    refine ⟨hrun.consecutive, ?_, hrun.disjoint, ?_⟩
    · intro range hrange
      obtain ⟨i, hi, rfl⟩ := List.mem_iff_getElem.mp hrange
      have hend := hrun.endLe _ hrange
      have hstart := hrun.consecutive i hi
      refine ⟨?_, hrun.sizePos _ hrange, ?_, ?_⟩
      · rw [hstart]
        exact Nat.dvd_add (Nat.dvd_add hcreated.baseDvd hcreated.payloadDvd)
          (dvd_roundedTotal _)
      · rw [hstart]
        exact Nat.le_add_right _ _
      · rw [hlimit] at hoffset
        omega
    · intro vectorDim elementSize commitOk
      rcases allocVectorSingle_spec hcreated vectorDim elementSize commitOk
          run.state with hnone | ⟨committed, hsome, -, hle, hcommit⟩
      · exact .inl hnone
      · refine .inr ⟨_, committed, hsome, rfl, fun hreserve => ?_⟩
        exact (ensureCommittedSingle_exact hdvd
          (hle.trans_lt hcreated.hardLimit_lt) (hcommit hreserve)).imp_right
            And.right
  · intro calls calls' hstart hstart' requests st st'
    have hoffset : st.offset = st'.offset :=
      hstart.offset_eq.trans hstart'.offset_eq.symm
    refine ⟨fun ok ok' => allocResults_congr hoffset, ?_⟩
    exact allocResults_congr hoffset (commitFailures_congr hcreated hdvd
      ⟨(hinv calls).watermark⟩ ⟨(hinv calls').watermark⟩ hoffset)

/-! ## A replay -/

/-- After a reset the first request returns the start of the payload again. -/
theorem pomai_single_bump_replay :
    ∃ before after : List (Option ℕ),
      before = [some 8192, some (8192 + 3 * 1024 * 1024)] ∧
      after = before ∧
      after = allocResults eightMegabytes [(3 * 1024 * 1024, 1), (64, 1)]
        (fun _ => true)
        (singleRun eightMegabytes (4096 + 2 * 1024 * 1024)
          [.alloc 100 1 true, .reset]).state := by
  have hreplay := (pomai_single_bump
    arenaCreateForVectorEx_pageOs).2.2.2.2.2 [.alloc 100 1 true, .reset] []
    (.inr ⟨[.alloc 100 1 true], rfl⟩) (.inl rfl)
    [(3 * 1024 * 1024, 1), (64, 1)]
  refine ⟨_, _, ?_, hreplay.2, rfl⟩
  decide +kernel

/-- A commit that fails in the replay makes it return null; and the rounding of
a request near the maximum wraps around, which the comparison with the size
then finds. -/
theorem pomai_single_replay_fails :
    (¬ ∀ (os : PrimOs) (capacity : Word) (commitOk : Bool)
        (arena : PomaiArena) (firstCommit : ℕ),
      arenaCreateForVectorEx os capacity commitOk =
          some (arena, firstCommit) →
        ∀ calls calls' : List SingleCall, AtStart calls → AtStart calls' →
          ∀ (requests : List (Word × Word)) (ok ok' : ℕ → Bool),
            allocResults arena requests ok
                (singleRun arena firstCommit calls).state =
              allocResults arena requests ok'
                (singleRun arena firstCommit calls').state) ∧
    ¬ ∀ vectorDim elementSize : Word,
      wordAlignUp (vectorDim.val * elementSize.val % wordSize)
          arenaVectorAlign =
        exactAlignUp (vectorDim.val * elementSize.val % wordSize)
          arenaVectorAlign := by
  constructor
  · intro hreplay
    have hsame := hreplay pageOs (8 * 1024 * 1024) true eightMegabytes _
      arenaCreateForVectorEx_pageOs []
      [.alloc (3 * 1024 * 1024) 1 true, .reset] (.inl rfl)
      (.inr ⟨[.alloc (3 * 1024 * 1024) 1 true], rfl⟩)
      [(3 * 1024 * 1024, 1)] (fun _ => true) (fun _ => false)
    revert hsame
    decide +kernel
  · intro hexact
    have hround := hexact ⟨maxWord, by decide⟩ 1
    revert hround
    decide +kernel

end Palloc
