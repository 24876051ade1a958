import Palloc.AllocatorModel
import Palloc.CommitMask
import Palloc.LinkedQueue

/-!
# Segments, span queues and the operating system

The slice entries of all segments are kept in one function, and their `next`
and `prev` fields in one `Links` record: a free span is linked in a span
queue of its thread, a used one in a page queue of its heap.

The operating system answers each commit, purge and clock call from a stream
of answers, so a statement about every stream covers every outcome.  It also
keeps which bytes are committed, which no code can read.
-/

namespace Palloc

open LinkedQueue

/-! ## The operating system -/

structure OsAnswer where
  commitOk : Bool
  commitZero : Bool
  needsRecommit : Bool
  now : ℤ
  deriving Repr, DecidableEq

structure Os where
  answers : ℕ → OsAnswer
  calls : ℕ
  committed : Addr → Bool

def Os.answer (os : Os) : OsAnswer := os.answers os.calls

/-- `_pa_os_commit`: whether it succeeded and whether the memory is zero. -/
def Os.commit (os : Os) (start : Addr) (size : ℕ) : Bool × Bool × Os :=
  (os.answer.commitOk, os.answer.commitZero,
    { os with
      calls := os.calls + 1
      committed := fun addr =>
        os.committed addr ||
          decide (os.answer.commitOk ∧ start ≤ addr ∧ addr < start + size) })

/-- `_pa_os_purge`: whether the memory must be committed again before use.
With `purge_decommits` off, or while preloading, memory is only reset. -/
def Os.purge (cfg : Config) (os : Os) (start : Addr) (size : ℕ) :
    Bool × Os :=
  if cfg.purgeDelay < 0 then (false, os)
  else if cfg.purgeDecommits then
    (os.answer.needsRecommit,
      { os with
        calls := os.calls + 1
        committed := fun addr =>
          os.committed addr &&
            !decide (os.answer.needsRecommit ∧
              start ≤ addr ∧ addr < start + size) })
  else (false, os)

/-- `_pa_clock_now`. -/
def Os.clockNow (os : Os) : ℤ × Os :=
  (os.answer.now, { os with calls := os.calls + 1 })

/-! ## Segments -/

inductive SegmentKind where
  | normal
  | huge
  deriving Repr, DecidableEq

inductive MemKind where
  | none
  | external
  | static
  | os
  | osHuge
  | osRemap
  | arena
  deriving Repr, DecidableEq

/-- `pa_memid_t`; the block index and the arena id matter for arena memory
only. -/
structure Memid where
  memkind : MemKind
  blockIndex : ℕ
  arenaId : ℕ
  isExclusive : Bool
  isPinned : Bool
  initiallyCommitted : Bool
  initiallyZero : Bool
  deriving Repr, DecidableEq

/-- The commit and purge fields of `pa_segment_t`. -/
structure CommitState where
  purgeExpire : ℤ
  purgeDelayMs : ℤ
  purgeMask : CommitMask
  commitMask : CommitMask

/-- The fields of `pa_segment_t` before its slice entries. -/
structure SegmentInfo where
  memid : Memid
  allowDecommit : Bool
  allowPurge : Bool
  segmentSize : ℕ
  commit : CommitState
  wasReclaimed : Bool
  dontFree : Bool
  freeIsZero : Bool
  abandoned : ℕ
  abandonedVisits : ℕ
  used : ℕ
  segmentSlices : ℕ
  segmentInfoSlices : ℕ
  kind : SegmentKind
  sliceEntries : ℕ
  threadId : ℕ

def SegmentInfo.withUsed (info : SegmentInfo) (used : ℕ) : SegmentInfo :=
  { info with used := used }

def SegmentInfo.withCommit (info : SegmentInfo) (commit : CommitState) :
    SegmentInfo :=
  { info with commit := commit }

@[simp] theorem SegmentInfo.withUsed_used (info : SegmentInfo) (used : ℕ) :
    (info.withUsed used).used = used := rfl

theorem SegmentInfo.withUsed_withUsed (info : SegmentInfo) (m n : ℕ) :
    (info.withUsed m).withUsed n = info.withUsed n := rfl

@[ext] structure SlicePtr where
  segment : ℕ
  idx : ℕ
  deriving DecidableEq, Repr

/-- `pa_slice_start`. -/
def SlicePtr.start (slice : SlicePtr) : Addr :=
  slice.segment * segmentSize + slice.idx * segmentSliceSize

/-- The segments, their slice entries, and for every thread the ends of its
span queues. -/
structure State where
  segments : ℕ → SegmentInfo
  slices : SlicePtr → PageFields
  links : Links SlicePtr
  spans : ℕ → ℕ → Ends SlicePtr
  os : Os

namespace State

def setSegment (st : State) (segment : ℕ) (info : SegmentInfo) : State :=
  { st with segments := Function.update st.segments segment info }

def setSlice (st : State) (slice : SlicePtr) (page : PageFields) : State :=
  { st with slices := Function.update st.slices slice page }

@[simp] theorem setSlice_segments (st : State) (slice : SlicePtr)
    (page : PageFields) : (st.setSlice slice page).segments = st.segments :=
  rfl

@[simp] theorem setSlice_links (st : State) (slice : SlicePtr)
    (page : PageFields) : (st.setSlice slice page).links = st.links := rfl

@[simp] theorem setSlice_spans (st : State) (slice : SlicePtr)
    (page : PageFields) : (st.setSlice slice page).spans = st.spans := rfl

@[simp] theorem setSlice_os (st : State) (slice : SlicePtr)
    (page : PageFields) : (st.setSlice slice page).os = st.os := rfl

@[simp] theorem setSegment_self (st : State) (segment : ℕ)
    (info : SegmentInfo) :
    (st.setSegment segment info).segments segment = info :=
  Function.update_self _ _ _

theorem setSegment_setSegment (st : State) (segment : ℕ)
    (info info' : SegmentInfo) :
    (st.setSegment segment info).setSegment segment info' =
      st.setSegment segment info' := by
  simp [setSegment]

theorem setSegment_ne (st : State) {segment other : ℕ} (info : SegmentInfo)
    (hne : other ≠ segment) :
    (st.setSegment segment info).segments other = st.segments other :=
  Function.update_of_ne hne _ _

@[simp] theorem setSlice_self (st : State) (slice : SlicePtr)
    (page : PageFields) : (st.setSlice slice page).slices slice = page :=
  Function.update_self _ _ _

theorem setSlice_ne (st : State) {slice other : SlicePtr} (page : PageFields)
    (hne : other ≠ slice) :
    (st.setSlice slice page).slices other = st.slices other :=
  Function.update_of_ne hne _ _

end State

end Palloc
