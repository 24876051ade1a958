import Palloc.ReservedMemory
import Mathlib.Logic.Function.Basic

/-!
# The shared Pomai arena

`p_arena_alloc_vector` on a shared arena: each call moves the offset up with a
CAS, makes sure that the bytes below the new offset are committed, under a lock
when they are not, and moves the offset back when the commit fails.  Every
access to the offset, the watermark and the lock is one atomic step; the local
computations of a call happen together with its next access.
-/

namespace Palloc

open MachineWord

/-- `pa_arena_vector_t`, with the address it lies at. -/
structure PomaiArena where
  base : ℕ
  payloadStart : ℕ
  payloadCapacity : ℕ
  maxCapacityBytes : ℕ
  totalSize : ℕ
  commitGrain : ℕ
  useOsReserve : Bool
  deriving Repr, DecidableEq

/-- `PA_ARENA_VECTOR_ALIGN`. -/
def arenaVectorAlign : ℕ := 64

/-- `PA_ARENA_VECTOR_HEADER_SIZE`. -/
def arenaVectorHeaderSize : ℕ := 88

/-- `pa_arena_payload_start`. -/
def arenaPayloadStart (os : PrimOs) : ℕ :=
  let align :=
    if arenaVectorAlign < os.pageSize then os.pageSize else arenaVectorAlign
  wordAlignUp arenaVectorHeaderSize align

/-- `pa_arena_hard_limit`. -/
def PomaiArena.hardLimit (arena : PomaiArena) : ℕ :=
  (arena.payloadStart + arena.maxCapacityBytes) % wordSize

/-- `p_arena_create_for_vector_ex` for a shared arena, with the size of the
first commit; `commitOk` is the outcome of that commit. -/
def arenaCreateForVectorEx (os : PrimOs) (capacityBytes : ℕ)
    (commitOk : Bool) : Option (PomaiArena × ℕ) :=
  if capacityBytes = 0 then none
  else
    let pageSize := os.pageSize
    let payloadStart := arenaPayloadStart os
    if maxWord - payloadStart < capacityBytes then none
    else
      let totalSize :=
        wordAlignUp ((payloadStart + capacityBytes) % wordSize) pageSize
      let commitGrain := os.commitGrain
      match os.alloc totalSize pageSize with
      | none => none
      | some p =>
          let firstCommitEnd :=
            wordAlignUp ((payloadStart + commitGrain) % wordSize) pageSize
          let firstCommitSize :=
            if firstCommitEnd < totalSize then firstCommitEnd else totalSize
          if os.virtualReserve ∧ ¬ commitOk then none
          else
            some
              ({ base := p
                 payloadStart := payloadStart
                 payloadCapacity := capacityBytes
                 maxCapacityBytes := capacityBytes
                 totalSize := totalSize
                 commitGrain := commitGrain
                 useOsReserve := os.virtualReserve },
                if os.virtualReserve then firstCommitSize else totalSize)

/-- The checks on a request before the arena is read: the aligned size. -/
def alignedRequest (vectorDim elementSize : ℕ) : Option ℕ :=
  if elementSize = 0 ∨ (0 < vectorDim ∧ maxWord / vectorDim < elementSize) then
    none
  else
    let size := vectorDim * elementSize % wordSize
    if size = 0 then none
    else
      let alignedSize := wordAlignUp size arenaVectorAlign
      if alignedSize < size then none else some alignedSize

/-! ## The atomic steps of a call -/

/-- What a call of `p_arena_alloc_vector` does next, with its local
variables. -/
inductive PomaiPc where
  /-- Load the offset. -/
  | start
  /-- CAS the offset from `old` up. -/
  | bump (alignedSize old : ℕ)
  /-- Load the watermark on entry of `pa_arena_ensure_committed_shared`. -/
  | load (old new : ℕ)
  /-- CAS the lock. -/
  | acquire (old new : ℕ)
  /-- Load the watermark after a failed CAS on the lock. -/
  | recheck (old new : ℕ)
  /-- Load the watermark with the lock. -/
  | locked (old new : ℕ)
  /-- Commit from `cur` to `newCommitted`. -/
  | commit (old new cur newCommitted : ℕ)
  /-- Store the watermark. -/
  | publish (old new newCommitted : ℕ)
  /-- Release the lock. -/
  | unlock (old new : ℕ) (ok : Bool)
  /-- CAS the offset from `new` back to `old`. -/
  | rollback (old new : ℕ)
  /-- Returned `base + old`. -/
  | returned (old : ℕ)
  /-- Returned `NULL`. -/
  | failed
  deriving Repr, DecidableEq

/-- The shared words, the bytes committed so far and the calls.  A thread that
allocates several times is several calls, one after another. -/
structure PomaiState (ι : Type*) where
  offset : ℕ
  committed : ℕ
  commitLock : ℕ
  committedBytes : ℕ → Bool
  pc : ι → PomaiPc

def PomaiState.initial {ι : Type*} (arena : PomaiArena) (firstCommit : ℕ) :
    PomaiState ι where
  offset := arena.payloadStart
  committed := firstCommit
  commitLock := 0
  committedBytes b := b < firstCommit
  pc _ := .start

structure Outcome where
  casOk : Bool
  commitOk : Bool

variable {ι : Type*} [DecidableEq ι]

def PomaiState.goto (st : PomaiState ι) (i : ι) (pc : PomaiPc) :
    PomaiState ι :=
  { st with pc := Function.update st.pc i pc }

/-- The next atomic step of call `i`; `request` holds `vector_dim` and
`element_size` of each call. -/
def PomaiState.step (arena : PomaiArena) (request : ι → Word × Word)
    (st : PomaiState ι) (i : ι) (outcome : Outcome) : PomaiState ι :=
  match st.pc i with
  | .start =>
      match alignedRequest (request i).1 (request i).2 with
      | none => st.goto i .failed
      | some alignedSize => st.goto i (.bump alignedSize st.offset)
  | .bump alignedSize old =>
      if arena.hardLimit < alignedSize ∨
          arena.hardLimit - alignedSize < old then
        st.goto i .failed
      else
        let new := (old + alignedSize) % wordSize
        if st.offset = old ∧ outcome.casOk then
          { st with offset := new }.goto i
            (if arena.useOsReserve then .load old new else .returned old)
        else st.goto i (.bump alignedSize st.offset)
  | .load old new =>
      if new ≤ st.committed then st.goto i (.returned old)
      else st.goto i (.acquire old new)
  | .acquire old new =>
      if st.commitLock = 0 then
        { st with commitLock := 1 }.goto i (.locked old new)
      else st.goto i (.recheck old new)
  | .recheck old new =>
      if new ≤ st.committed then st.goto i (.returned old)
      else st.goto i (.acquire old new)
  | .locked old new =>
      if st.committed < new then
        let newCommitted := wordAlignUp new arena.commitGrain
        if newCommitted < new then st.goto i (.unlock old new false)
        else
          let newCommitted :=
            if arena.totalSize < newCommitted then arena.totalSize
            else newCommitted
          st.goto i (.commit old new st.committed newCommitted)
      else st.goto i (.unlock old new true)
  | .commit old new cur newCommitted =>
      if outcome.commitOk then
        { st with committedBytes := fun b => st.committedBytes b ||
            (decide (cur ≤ b) && decide (b < newCommitted)) }.goto i
          (.publish old new newCommitted)
      else st.goto i (.unlock old new false)
  | .publish old new newCommitted =>
      { st with committed := newCommitted }.goto i (.unlock old new true)
  | .unlock old new ok =>
      { st with commitLock := 0 }.goto i
        (if ok then .returned old else .rollback old new)
  | .rollback old new =>
      { st with offset := if st.offset = new then old else st.offset }.goto i
        .failed
  | .returned _ => st
  | .failed => st

/-- A schedule says which call steps, and with what outcome. -/
def PomaiState.run (arena : PomaiArena) (request : ι → Word × Word)
    (st : PomaiState ι) (schedule : List (ι × Outcome)) : PomaiState ι :=
  schedule.foldl (fun st step => st.step arena request step.1 step.2) st

end Palloc
