import Palloc.BitSlots
import Palloc.VecArena

/-!
# The vector pool

`pa_vec_pool_t` hands out slots of one size from slabs of 64 slots.  A slab
keeps its slots twice, as the bits of `bitmap` and as `free_count`, and the
pool remembers a slab that had a free slot when it was last used.

The heap is a parameter: a call that may create a slab takes the addresses of
the slab and of its data, or `none` when one of the two requests fails.
-/

namespace Palloc

open MachineWord BitSlots

/-- `pa_vec_slab_t` and its address; its capacity is 64. -/
structure VecSlab where
  self : ℕ
  bitmap : BitVec 64
  freeCount : BitVec 32
  data : ℕ
  deriving Repr, DecidableEq

/-- `pa_vec_pool_t`, except its heap. -/
structure VecPool where
  objectSize : ℕ
  slabs : List VecSlab
  activeSlab : Option ℕ
  deriving Repr, DecidableEq

structure SlabMemory where
  self : ℕ
  data : ℕ
  deriving Repr, DecidableEq

/-- `pa_vec_slab_create`. -/
def vecSlabCreate (objectSize : ℕ) (mem : Option SlabMemory) :
    Option VecSlab :=
  match countSizeOverflow 64 objectSize with
  | none => none
  | some _ => mem.map fun mem => ⟨mem.self, 0, 64, mem.data⟩

namespace VecPool

def prepend (pool : VecPool) (slab : VecSlab) : VecPool :=
  { pool with slabs := slab :: pool.slabs }

/-- A write to the slab at the address of `slab`. -/
def setSlab (pool : VecPool) (slab : VecSlab) : VecPool :=
  { pool with
    slabs := pool.slabs.map fun s => if s.self = slab.self then slab else s }

def slabAt (pool : VecPool) (self : ℕ) : Option VecSlab :=
  pool.slabs.find? fun slab => slab.self = self

end VecPool

/-- The slabs made by `pa_vec_pool_create`; `mem s` is what the heap gives for
the `s`-th one. -/
def createSlabs (mem : ℕ → Option SlabMemory) : ℕ → VecPool → VecPool
  | 0, pool => pool
  | count + 1, pool =>
      let pool := createSlabs mem count pool
      match vecSlabCreate pool.objectSize (mem count) with
      | none => pool
      | some slab => { pool.prepend slab with activeSlab := some slab.self }

def realObjectSize (objectSize : ℕ) : ℕ :=
  let real := if objectSize < 16 then 16 else objectSize
  wordAlignUp real 16

/-- `pa_vec_pool_create`; `poolOk` tells whether the heap has room for the pool
itself. -/
def vecPoolCreate (objectSize initialCount : ℕ) (poolOk : Bool)
    (mem : ℕ → Option SlabMemory) : Option VecPool :=
  if objectSize = 0 then none
  else if ¬ poolOk then none
  else
    let neededSlabs := (initialCount + 63) % wordSize / 64
    some (createSlabs mem neededSlabs ⟨realObjectSize objectSize, [], none⟩)

namespace VecPool

/-- The slab that `pa_vec_pool_alloc` searches, after the cursor was moved to
it. -/
def allocSlab (pool : VecPool) (mem : Option SlabMemory) :
    Option (VecSlab × VecPool) :=
  match (pool.activeSlab.bind pool.slabAt).filter (·.freeCount ≠ 0) with
  | some slab => some (slab, pool)
  | none =>
      match pool.slabs.find? (·.freeCount ≠ 0) with
      | some slab => some (slab, { pool with activeSlab := some slab.self })
      | none =>
          (vecSlabCreate pool.objectSize mem).map fun slab =>
            (slab, { pool.prepend slab with activeSlab := some slab.self })

/-- `pa_vec_pool_alloc`. -/
def alloc (pool : VecPool) (mem : Option SlabMemory) : Option ℕ × VecPool :=
  match pool.allocSlab mem with
  | none => (none, pool)
  | some (slab, pool) =>
      let freeBits := ~~~slab.bitmap
      let slot := freeBits.ctz.toNat
      (some (slab.data + slot * pool.objectSize),
        pool.setSlab { slab with
          bitmap := slab.bitmap ||| 1#64 <<< slot
          freeCount := slab.freeCount - 1 })

/-- The slab whose data `ptr` points into. -/
def ownerSlab (pool : VecPool) (ptr : ℕ) : Option VecSlab :=
  let totalSlabBytes := 64 * pool.objectSize % wordSize
  pool.slabs.find? fun slab =>
    slab.data ≤ ptr ∧ ptr < slab.data + totalSlabBytes

/-- `pa_vec_pool_free`. -/
def free (pool : VecPool) (ptr : ℕ) : VecPool :=
  match pool.ownerSlab ptr with
  | none => pool
  | some slab =>
      let slot := (ptr - slab.data) / pool.objectSize
      if slot < 64 then
        { pool.setSlab { slab with
            bitmap := slab.bitmap &&& ~~~(1#64 <<< slot)
            freeCount := slab.freeCount + 1 } with
          activeSlab := some slab.self }
      else pool

end VecPool

/-- `pa_slab_find_contiguous`; its `-1` is `none`. -/
def slabFindContiguous (mask : BitVec 64) (k : ℕ) : Option ℕ :=
  if k = 0 ∨ 64 < k then none
  else if k = 1 then
    if mask ≠ 0 then some mask.ctz.toNat else none
  else (shiftOnto (k - 1) mask).map fun run => run.ctz.toNat

namespace VecPool

/-- The first slab with a run of `count` free slots, and where it starts. -/
def findRun (pool : VecPool) (count : ℕ) : Option (VecSlab × ℕ) :=
  pool.slabs.findSome? fun slab =>
    if count ≤ slab.freeCount.toNat then
      (slabFindContiguous (~~~slab.bitmap) count).map fun slot => (slab, slot)
    else none

def takeRun (pool : VecPool) (slab : VecSlab) (count slot : ℕ) : VecPool :=
  pool.setSlab { slab with
    bitmap := slab.bitmap ||| runMask count slot
    freeCount := slab.freeCount - BitVec.ofNat 32 count }

/-- `pa_vec_pool_alloc_contiguous`. -/
def allocContiguous (pool : VecPool) (count : ℕ) (mem : Option SlabMemory) :
    Option ℕ × VecPool :=
  if count = 0 ∨ 64 < count then (none, pool)
  else
    match pool.findRun count with
    | some (slab, slot) =>
        (some (slab.data + slot * pool.objectSize),
          pool.takeRun slab count slot)
    | none =>
        match vecSlabCreate pool.objectSize mem with
        | none => (none, pool)
        | some slab => (some slab.data, (pool.prepend slab).takeRun slab count 0)

/-- `pa_vec_pool_free_contiguous`. -/
def freeContiguous (pool : VecPool) (ptr count : ℕ) : VecPool :=
  if count = 0 ∨ 64 < count then pool
  else
    match pool.ownerSlab ptr with
    | none => pool
    | some slab =>
        let slot := (ptr - slab.data) / pool.objectSize
        if slot + count ≤ 64 then
          pool.setSlab { slab with
            bitmap := slab.bitmap &&& ~~~runMask count slot
            freeCount := slab.freeCount + BitVec.ofNat 32 count }
        else pool

end VecPool

/-! ## Searching for a run -/

theorem slabFindContiguous_spec {mask : BitVec 64} {k slot : ℕ}
    (hfind : slabFindContiguous mask k = some slot) :
    0 < k ∧ slot + k ≤ 64 ∧
      ∀ i, slot ≤ i → i < slot + k → i ∈ slots mask := by
  unfold slabFindContiguous at hfind
  split at hfind
  · cases hfind
  rename_i hk
  split at hfind
  · rename_i hone
    split at hfind
    · rename_i hmask
      injection hfind with hfind
      have hmem := ctz_mem_slots hmask
      rw [hfind] at hmem
      have hlt := lt_of_mem_slots hmem
      refine ⟨by omega, by omega, ?_⟩
      intro i hlo hhi
      have hi : i = slot := by omega
      rw [hi]
      exact hmem
    · cases hfind
  · rename_i hone
    rcases Option.map_eq_some_iff.mp hfind with ⟨run, hshift, hslot⟩
    have hspec := shiftOnto_spec hshift
    have hrun : run ≠ 0 := by
      intro hzero
      obtain ⟨rounds, hrounds⟩ : ∃ rounds, k - 1 = rounds + 1 :=
        ⟨k - 2, by omega⟩
      rw [hrounds, hzero] at hshift
      exact shiftOnto_ne_zero hshift rfl
    have hmem := ctz_mem_slots hrun
    rw [hslot] at hmem
    have hbits := (hspec slot).mp hmem
    have hlast := lt_of_mem_slots (hbits (k - 1) le_rfl)
    refine ⟨by omega, by omega, ?_⟩
    intro i hlo hhi
    have hbit := hbits (i - slot) (by omega)
    rw [Nat.add_sub_cancel' hlo] at hbit
    exact hbit

/-- The starts of the runs of `k` set bits. -/
def runStarts (mask : BitVec 64) (k : ℕ) : Set ℕ :=
  {start | ∀ j < k, mask.getLsbD (start + j) = true}

theorem mem_runStarts {mask : BitVec 64} {k start : ℕ} :
    start ∈ runStarts mask k ↔ ∀ j < k, start + j ∈ slots mask := by
  simp only [runStarts, Set.mem_ofPred_eq, mem_slots]

theorem slabFindContiguous_le {mask : BitVec 64} {k slot start : ℕ}
    (hfind : slabFindContiguous mask k = some slot)
    (hstart : start ∈ runStarts mask k) : slot ≤ start := by
  rw [mem_runStarts] at hstart
  unfold slabFindContiguous at hfind
  split at hfind
  · cases hfind
  rename_i hk
  split at hfind
  · split at hfind
    · injection hfind with hfind
      rw [← hfind]
      exact ctz_le_of_mem_slots (hstart 0 (by omega))
    · cases hfind
  · rcases Option.map_eq_some_iff.mp hfind with ⟨run, hshift, hslot⟩
    rw [← hslot]
    apply ctz_le_of_mem_slots
    rw [shiftOnto_spec hshift]
    intro j hj
    exact hstart j (by omega)

theorem runStarts_eq_empty {mask : BitVec 64} {k : ℕ} (hpos : 0 < k)
    (hle : k ≤ 64) (hfind : slabFindContiguous mask k = none) :
    runStarts mask k = ∅ := by
  apply Set.eq_empty_of_forall_notMem
  intro start hstart
  rw [mem_runStarts] at hstart
  unfold slabFindContiguous at hfind
  rw [if_neg (by omega)] at hfind
  split at hfind
  · rename_i hone
    split at hfind
    · cases hfind
    · rename_i hzero
      have hfirst := hstart 0 hpos
      rw [not_not.mp hzero, slots_zero] at hfirst
      exact Finset.notMem_empty _ hfirst
  · obtain ⟨j, hj, hclear⟩ :=
      shiftOnto_eq_none (Option.map_eq_none_iff.mp hfind) start
    exact hclear (hstart j (by omega))

/-- The search is exact: it finds the first run of `k` set bits, and gives up
only if there is none. -/
theorem slabFindContiguous_exact (mask : BitVec 64) {k : ℕ} (hpos : 0 < k)
    (hle : k ≤ 64) :
    (∀ slot, slabFindContiguous mask k = some slot ↔
      IsLeast (runStarts mask k) slot) ∧
    (slabFindContiguous mask k = none ↔ runStarts mask k = ∅) := by
  have hleast : ∀ slot, slabFindContiguous mask k = some slot →
      IsLeast (runStarts mask k) slot := by
    intro slot hfind
    obtain ⟨-, -, hrun⟩ := slabFindContiguous_spec hfind
    constructor
    · rw [mem_runStarts]
      intro j hj
      exact hrun (slot + j) (by omega) (by omega)
    · intro start hstart
      exact slabFindContiguous_le hfind hstart
  constructor
  · intro slot
    refine ⟨hleast slot, ?_⟩
    intro hslot
    cases hfind : slabFindContiguous mask k with
    | none =>
        have hempty := runStarts_eq_empty hpos hle hfind
        rw [hempty] at hslot
        exact absurd hslot.1 (Set.notMem_empty slot)
    | some found => rw [(hleast found hfind).unique hslot]
  · refine ⟨runStarts_eq_empty hpos hle, ?_⟩
    intro hempty
    cases hfind : slabFindContiguous mask k with
    | none => rfl
    | some found =>
        have hfound := (hleast found hfind).1
        rw [hempty] at hfound
        exact absurd hfound (Set.notMem_empty found)

theorem slabFindContiguous_exact_three :
    IsLeast (runStarts 0b111011#64 3) 3 ∧ runStarts 0b11011#64 3 = ∅ :=
  ⟨((slabFindContiguous_exact _ (by decide) (by decide)).1 3).mp
      (by decide +kernel),
    (slabFindContiguous_exact _ (by decide) (by decide)).2.mp
      (by decide +kernel)⟩

end Palloc
