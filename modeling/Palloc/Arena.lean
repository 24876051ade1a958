import Palloc.Bitmap
import Palloc.MachineWord

/-!
# Arenas

An arena divides an area of memory into blocks of one segment and tracks them
in bitmaps: the blocks in use, the committed blocks and the blocks that are
scheduled for a purge.  Statistics and NUMA nodes are left out, and nobody else
is at work.
-/

namespace Palloc

open BitFields MachineWord

/-- `PA_ARENA_BLOCK_SIZE`, which is also `PA_SEGMENT_ALIGN`. -/
def arenaBlockSize : ℕ := 32 * 1024 * 1024

/-- `PA_MAX_ARENAS`. -/
def maxArenas : ℕ := 132

structure OsArea where
  start : ℕ
  size : ℕ
  initiallyCommitted : Bool
  initiallyZero : Bool
  isPinned : Bool
  end_le : start + size ≤ wordSize

structure ArenaMemid where
  arenaId : ℕ
  blockIndex : ℕ
  isExclusive : Bool
  isPinned : Bool
  initiallyCommitted : Bool
  initiallyZero : Bool
  deriving Repr, DecidableEq

/-- `pa_arena_t`.  `blocksCommitted` and `blocksPurge` are null for pinned
memory.  `purged` lists the ranges of blocks given to `_pa_os_purge`. -/
structure Arena where
  id : ℕ
  start : ℕ
  blockCount : ℕ
  fieldCount : ℕ
  exclusive : Bool
  isPinned : Bool
  initiallyZero : Bool
  searchIdx : ℕ
  purgeExpire : ℤ
  blocksInuse : Fields
  blocksDirty : Fields
  blocksCommitted : Option Fields
  blocksPurge : Option Fields
  purged : List (ℕ × ℕ)

/-- `pa_arenas` up to `pa_arena_count`, and `pa_arenas_purge_expire`. -/
structure Arenas where
  arenas : List Arena
  purgeExpire : ℤ

/-- What a call reads from outside: the options, the clock on entry, the clock
again after an arena is purged, and whether memory that the system purged has
to be committed again. -/
structure ArenaEnv where
  purgeDelay : ℤ
  preloading : Bool
  now : ℤ
  later : ℕ → ℤ
  osPurge : (start size : ℕ) → (allowReset : Bool) → Bool

/-! ## Registration -/

/-- The body of `pa_manage_os_memory_ex2` up to `pa_arena_add`. -/
def manageOsMemory (area : OsArea) (exclusive metaOk : Bool) :
    Option Arena :=
  if area.size < arenaBlockSize then none
  else
    let alignedStart := wordAlignUp area.start arenaBlockSize
    let diff := alignedStart - area.start
    if area.start % arenaBlockSize ≠ 0 ∧
        (area.size ≤ diff ∨ area.size - diff < arenaBlockSize) then none
    else
      let start :=
        if area.start % arenaBlockSize ≠ 0 then alignedStart else area.start
      let size :=
        if area.start % arenaBlockSize ≠ 0 then area.size - diff
        else area.size
      let bcount := size / arenaBlockSize
      let fields := divideUp bcount 64
      if ¬ metaOk then none
      else
        let empty : Fields := fun _ => 0
        let committed : Fields := fun i =>
          if area.initiallyCommitted ∧ i < fields then BitVec.allOnes 64
          else 0
        let post := fields * 64 - bcount
        some
          { id := 0
            start := start
            blockCount := bcount
            fieldCount := fields
            exclusive := exclusive
            isPinned := area.isPinned
            initiallyZero := area.initiallyZero
            searchIdx := 0
            purgeExpire := 0
            blocksInuse :=
              if 0 < post then
                (bitmapClaim empty post (64 * (fields - 1) + (64 - post))).2
              else empty
            blocksDirty := empty
            blocksCommitted := if area.isPinned then none else some committed
            blocksPurge := if area.isPinned then none else some empty
            purged := [] }

/-- `pa_manage_os_memory_ex2`: `pa_arena_add` gives the arena the next
index. -/
def Arenas.manage (st : Arenas) (area : OsArea) (exclusive metaOk : Bool) :
    Arenas :=
  match manageOsMemory area exclusive metaOk with
  | none => st
  | some arena =>
      if st.arenas.length < maxArenas then
        { st with
          arenas := st.arenas ++ [{ arena with id := st.arenas.length + 1 }] }
      else st

/-! ## Allocation -/

namespace Arena

/-- `pa_arena_block_start`. -/
def blockStart (arena : Arena) (bindex : ℕ) : ℕ :=
  arena.start + bindex * arenaBlockSize

/-- `pa_arena_try_claim`. -/
def tryClaim (arena : Arena) (blocks : ℕ) : Option ℕ × Arena :=
  match tryFindFromClaimAcross arena.blocksInuse arena.fieldCount 0 blocks with
  | (some bitmapIdx, inuse) =>
      (some bitmapIdx,
        { arena with blocksInuse := inuse, searchIdx := bitmapIdx / 64 })
  | (none, inuse) => (none, { arena with blocksInuse := inuse })

/-- The commit state of a fresh allocation: `initially_committed`, and the
bitmap.  `commitOk` is the outcome of `_pa_os_commit_ex`. -/
def commitBlocks (committed : Option Fields) (blocks bitmapIdx : ℕ)
    (commit commitOk : Bool) : Bool × Option Fields :=
  match committed with
  | none => (true, none)
  | some map =>
      if commit then
        let claimed := bitmapClaimAcross map blocks bitmapIdx
        (if claimed.anyZero then commitOk else true, some claimed.bitmap)
      else
        let (allCommitted, alreadyCommitted) :=
          bitmapIsClaimedAcross map blocks bitmapIdx
        if ¬ allCommitted ∧ 0 < alreadyCommitted then
          (allCommitted, some (bitmapUnclaimAcross map blocks bitmapIdx).2)
        else (allCommitted, some map)

/-- `pa_arena_try_alloc_at`. -/
def tryAllocAt (arena : Arena) (neededBcount : ℕ)
    (commit commitOk commitZero : Bool) :
    Option (ℕ × ArenaMemid) × Arena :=
  match arena.tryClaim neededBcount with
  | (none, arena) => (none, arena)
  | (some bitmapIdx, arena) =>
      let purge := arena.blocksPurge.map fun map =>
        (bitmapUnclaimAcross map neededBcount bitmapIdx).2
      let dirty := bitmapClaimAcross arena.blocksDirty neededBcount bitmapIdx
      let (committed, blocksCommitted) :=
        commitBlocks arena.blocksCommitted neededBcount bitmapIdx commit
          commitOk
      let freshCommit :=
        commit && commitOk && match arena.blocksCommitted with
          | none => false
          | some map => (bitmapClaimAcross map neededBcount bitmapIdx).anyZero
      let memid : ArenaMemid :=
        { arenaId := arena.id
          blockIndex := bitmapIdx
          isExclusive := arena.exclusive
          isPinned := arena.isPinned
          initiallyCommitted := committed
          initiallyZero :=
            (arena.initiallyZero && dirty.allZero) || (freshCommit && commitZero) }
      (some (arena.blockStart bitmapIdx, memid),
        { arena with
          blocksPurge := purge
          blocksDirty :=
            if arena.initiallyZero then dirty.bitmap else arena.blocksDirty
          blocksCommitted := blocksCommitted })

/-! ## Purging one arena -/

/-- `pa_arena_purge`. -/
def purge (arena : Arena) (env : ArenaEnv) (bitmapIdx blocks : ℕ) : Arena :=
  let allCommitted := match arena.blocksCommitted with
    | none => true
    | some map => (bitmapIsClaimedAcross map blocks bitmapIdx).1
  let needsRecommit :=
    env.osPurge (arena.blockStart bitmapIdx) (blocks * arenaBlockSize)
      allCommitted
  { arena with
    purged := arena.purged ++ [(bitmapIdx, blocks)]
    blocksPurge := arena.blocksPurge.map fun map =>
      (bitmapUnclaimAcross map blocks bitmapIdx).2
    blocksCommitted :=
      if needsRecommit then
        arena.blocksCommitted.map fun map =>
          (bitmapUnclaimAcross map blocks bitmapIdx).2
      else arena.blocksCommitted }

/-- The number of consecutive ones of `purge` from `bitidx` on, below
`endidx`. -/
def countOnes (purge : BitVec 64) (endidx : ℕ) : (fuel bitidx : ℕ) → ℕ
  | 0, _ => 0
  | fuel + 1, bitidx =>
      if bitidx < endidx ∧ purge.getLsbD bitidx then
        countOnes purge endidx fuel (bitidx + 1) + 1
      else 0

/-- The loop of `pa_arena_purge_range`; whether the full range was purged. -/
def purgeRange (env : ArenaEnv) (idx endidx bitlen : ℕ) (purge : BitVec 64) :
    (fuel bitidx : ℕ) → (allPurged : Bool) → Arena → Bool × Arena
  | 0, _, allPurged, arena => (allPurged, arena)
  | fuel + 1, bitidx, allPurged, arena =>
      if bitidx < endidx then
        let count := countOnes purge endidx 64 bitidx
        if 0 < count then
          purgeRange env idx endidx bitlen purge fuel (bitidx + (count + 1))
            (allPurged || decide (count = bitlen))
            (arena.purge env (64 * idx + bitidx) count)
        else
          purgeRange env idx endidx bitlen purge fuel (bitidx + (count + 1))
            allPurged arena
      else (allPurged, arena)

/-- Claim the longest prefix of `bitlen` blocks that is not in use. -/
def claimLongest (inuse : Fields) (bitmapIdx : ℕ) : ℕ → ℕ × Fields
  | 0 => (0, inuse)
  | bitlen + 1 =>
      match bitmapTryClaim inuse (bitlen + 1) bitmapIdx with
      | (true, inuse) => (bitlen + 1, inuse)
      | (false, _) => claimLongest inuse bitmapIdx bitlen

/-- The field `i` of the purge bitmap. -/
def purgeField (arena : Arena) (i : ℕ) : BitVec 64 :=
  match arena.blocksPurge with
  | none => 0
  | some map => map i

/-- The walk of `pa_arena_try_purge` over the runs of ones of field `i`: what
was purged at all, and whether every claimed range was purged in full. -/
def purgeRuns (env : ArenaEnv) (i : ℕ) :
    (fuel bitidx : ℕ) → (purge : BitVec 64) → (anyPurged fullPurge : Bool) →
      Arena → Bool × Bool × Arena
  | 0, _, _, anyPurged, fullPurge, arena => (anyPurged, fullPurge, arena)
  | fuel + 1, bitidx, purge, anyPurged, fullPurge, arena =>
      if bitidx < 64 then
        let (bitlen, inuse) := claimLongest arena.blocksInuse (64 * i + bitidx)
          (countOnes purge 64 64 bitidx)
        if 0 < bitlen then
          let arena := { arena with blocksInuse := inuse }
          let purge := arena.purgeField i
          let (full, arena) := purgeRange env i (bitidx + bitlen) bitlen purge
            64 bitidx false arena
          let arena := { arena with
            blocksInuse :=
              (bitmapUnclaim arena.blocksInuse bitlen (64 * i + bitidx)).2 }
          purgeRuns env i fuel (bitidx + (bitlen + 1)) purge true
            (fullPurge && full) arena
        else
          purgeRuns env i fuel (bitidx + (bitlen + 1)) purge anyPurged
            fullPurge arena
      else (anyPurged, fullPurge, arena)

/-- The loop of `pa_arena_try_purge` over the fields. -/
def purgeFields (env : ArenaEnv) :
    (left i : ℕ) → (anyPurged fullPurge : Bool) → Arena →
      Bool × Bool × Arena
  | 0, _, anyPurged, fullPurge, arena => (anyPurged, fullPurge, arena)
  | left + 1, i, anyPurged, fullPurge, arena =>
      let purge := arena.purgeField i
      if purge ≠ 0 then
        let (anyPurged, fullPurge, arena) :=
          purgeRuns env i 64 0 purge anyPurged fullPurge arena
        purgeFields env left (i + 1) anyPurged fullPurge arena
      else purgeFields env left (i + 1) anyPurged fullPurge arena

/-- `pa_arena_try_purge`; whether anything was purged. -/
def tryPurge (arena : Arena) (env : ArenaEnv) (force : Bool) : Bool × Arena :=
  if arena.isPinned then (false, arena)
  else if ¬ force ∧ (arena.purgeExpire = 0 ∨ env.now < arena.purgeExpire) then
    (false, arena)
  else
    let (anyPurged, fullPurge, arena) :=
      purgeFields env arena.fieldCount 0 false true
        { arena with purgeExpire := 0 }
    if fullPurge then (anyPurged, arena)
    else
      (anyPurged,
        { arena with
          purgeExpire :=
            if arena.purgeExpire = 0 then env.later arena.id + env.purgeDelay
            else arena.purgeExpire })

end Arena

/-! ## All arenas -/

namespace Arenas

/-- Replace the arena at `index`. -/
def setArena (st : Arenas) (index : ℕ) (arena : Arena) : Arenas :=
  { st with arenas := st.arenas.set index arena }

/-- `pa_arena_schedule_purge` for the arena at `index`. -/
def schedulePurge (st : Arenas) (env : ArenaEnv) (index : ℕ) (arena : Arena)
    (bitmapIdx blocks : ℕ) : Arenas :=
  if env.purgeDelay < 0 then st
  else if env.preloading ∨ env.purgeDelay = 0 then
    st.setArena index (arena.purge env bitmapIdx blocks)
  else
    let expire := env.now + env.purgeDelay
    let armed := arena.purgeExpire ≠ 0
    let arena := { arena with
      purgeExpire := if armed then arena.purgeExpire else expire
      blocksPurge := arena.blocksPurge.map fun map =>
        (bitmapClaimAcross map blocks bitmapIdx).bitmap }
    { st.setArena index arena with
      purgeExpire :=
        if ¬ armed ∧ st.purgeExpire = 0 then expire else st.purgeExpire }

/-- The loop of `pa_arenas_try_purge`; whether all arenas were visited. -/
def purgeLoop (env : ArenaEnv) (force : Bool) :
    List Arena → (maxPurgeCount : ℕ) → Bool × List Arena
  | [], _ => (true, [])
  | arena :: rest, maxPurgeCount =>
      match arena.tryPurge env force with
      | (true, arena) =>
          if maxPurgeCount ≤ 1 then (false, arena :: rest)
          else
            let (allVisited, rest) :=
              purgeLoop env force rest (maxPurgeCount - 1)
            (allVisited, arena :: rest)
      | (false, arena) =>
          let (allVisited, rest) := purgeLoop env force rest maxPurgeCount
          (allVisited, arena :: rest)

/-- `pa_arenas_try_purge`. -/
def tryPurge (st : Arenas) (env : ArenaEnv) (force visitAll : Bool) : Arenas :=
  if env.preloading ∨ env.purgeDelay ≤ 0 then st
  else if ¬ force ∧ (st.purgeExpire = 0 ∨ st.purgeExpire < env.now) then st
  else if st.arenas.length = 0 then st
  else
    let maxPurgeCount := if visitAll then st.arenas.length else 2
    let (allVisited, arenas) := purgeLoop env force st.arenas maxPurgeCount
    { arenas := arenas
      purgeExpire := if allVisited then 0 else env.now + env.purgeDelay }

/-- `_pa_arena_free` of an arena allocation; `envPass` is what the purge pass
at its end reads. -/
def free (st : Arenas) (env envPass : ArenaEnv) (size committedSize : ℕ)
    (memid : ArenaMemid) : Arenas :=
  let index := memid.arenaId - 1
  let blocks := divideUp size arenaBlockSize
  if size = 0 then st
  else
    match st.arenas[index]? with
    | none => st
    | some arena =>
        if arena.fieldCount ≤ memid.blockIndex / 64 then st
        else
          let st :=
            if arena.isPinned ∨ arena.blocksCommitted.isNone then st
            else
              let arena :=
                if committedSize = size then arena
                else
                  { arena with
                    blocksCommitted := arena.blocksCommitted.map fun map =>
                      (bitmapUnclaimAcross map blocks memid.blockIndex).2 }
              (st.setArena index arena).schedulePurge env index arena
                memid.blockIndex blocks
          match st.arenas[index]? with
          | none => st
          | some arena =>
              let (allInuse, inuse) :=
                bitmapUnclaimAcross arena.blocksInuse blocks memid.blockIndex
              let st := st.setArena index { arena with blocksInuse := inuse }
              if ¬ allInuse then st else st.tryPurge envPass false false

end Arenas

end Palloc
