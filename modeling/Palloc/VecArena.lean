import Palloc.ReservedMemory
import Mathlib.Data.List.Range

/-!
# The vector arena

`pa_vec_arena_t` hands out ranges of one reserved region by advancing `used`;
memory below `committed` is committed.  Every sum and every rounding is a sum
of machine words and may wrap around; the checks of the source are what keeps
a wrapped value out of the state and out of the pointers.
-/

namespace Palloc

open MachineWord

/-- `pa_vec_arena_t`, except the heap that holds it. -/
@[ext] structure VecArena where
  osBlock : ℕ
  osBlockSize : ℕ
  base : ℕ
  alignment : ℕ
  capacity : ℕ
  used : ℕ
  committed : ℕ
  commitGrain : ℕ
  maxSize : ℕ
  useOsReserve : Bool
  deriving Repr, DecidableEq

/-- The end of `pa_vec_arena_create_ex`: the payload inside the reserved block
and the first commit, whose outcome the code ignores. -/
def vecArenaInit (os : PrimOs) (alignment capacity extra osBlockSize : ℕ)
    (osBlock : ℕ) : VecArena :=
  let base :=
    if 0 < extra ∧ osBlock &&& (alignment - 1) ≠ 0 then
      wordAlignUp osBlock alignment
    else osBlock
  let slop := base - osBlock
  let actualCapacity := if slop < osBlockSize then osBlockSize - slop else 0
  let finalCapacity :=
    if actualCapacity < capacity then actualCapacity else capacity
  let commitGrain := os.commitGrain
  { osBlock := osBlock
    osBlockSize := osBlockSize
    base := base
    alignment := alignment
    capacity := finalCapacity
    used := 0
    committed :=
      if os.virtualReserve ∧ 0 < finalCapacity then
        if commitGrain < finalCapacity then commitGrain else finalCapacity
      else if os.virtualReserve then 0 else finalCapacity
    commitGrain := commitGrain
    maxSize := 0
    useOsReserve := os.virtualReserve }

/-- `pa_vec_arena_create_ex`.  `heap` is null when `none`, and `structOk` tells
whether the heap has room for the arena itself. -/
def vecArenaCreateEx (os : PrimOs) (heap : Option ℕ) (structOk : Bool)
    (initialSize alignment : ℕ) : Option VecArena :=
  if heap = none ∨ initialSize = 0 ∨ alignment = 0 then none
  else if alignment &&& (alignment - 1) ≠ 0 then none
  else
    let pageSize := os.pageSize
    if maxWord - pageSize < initialSize then none
    else
      let capacity := wordAlignUp initialSize pageSize
      if pageSize < alignment ∧ maxWord - capacity < alignment then none
      else
        let extra := if pageSize < alignment then alignment else 0
        if maxWord - capacity < extra then none
        else
          let osBlockSize := (capacity + extra) % wordSize
          if ¬ structOk then none
          else
            let tryAlign := if pageSize < alignment then alignment else pageSize
            (os.alloc osBlockSize tryAlign).map
              (vecArenaInit os alignment capacity extra osBlockSize)

namespace VecArena

/-- The lazy commit of `pa_vec_arena_alloc` and `_alloc_batch`; `none` when
they give up. -/
def commitTo (arena : VecArena) (newUsed : ℕ) (commitOk : Bool) :
    Option VecArena :=
  if arena.committed < newUsed then
    let need := wordAlignUp newUsed arena.commitGrain
    if need < newUsed then none
    else
      let need := if arena.capacity < need then arena.capacity else need
      if 0 < need - arena.committed then
        if commitOk then some { arena with committed := need } else none
      else some arena
  else some arena

/-- What `pa_vec_arena_alloc` and `_alloc_batch` do with the aligned bytes of
a call: the checks, the lazy commit and the advance. -/
def bump (arena : VecArena) (bytes : ℕ) (commitOk : Bool) : Option VecArena :=
  if maxWord - arena.used < bytes then none
  else
    let newUsed := (arena.used + bytes) % wordSize
    if arena.capacity < newUsed then none
    else if arena.maxSize ≠ 0 ∧ arena.maxSize < newUsed then none
    else
      match arena.commitTo newUsed commitOk with
      | none => none
      | some arena' => some { arena' with used := newUsed }

/-- `pa_vec_arena_alloc`. -/
def alloc (arena : VecArena) (size : ℕ) (commitOk : Bool) :
    Option ℕ × VecArena :=
  if size = 0 then (none, arena)
  else
    let alignedSize := wordAlignUp size arena.alignment
    if alignedSize < size then (none, arena)
    else
      match arena.bump alignedSize commitOk with
      | none => (none, arena)
      | some arena' => (some ((arena.base + arena.used) % wordSize), arena')

end VecArena

/-! ## Pointer streams -/

def materializeTail (cur step : ℕ) : ℕ → List ℕ
  | 0 => []
  | count + 1 => cur :: materializeTail ((cur + step) % wordSize) step count

/-- `pa_vec_materialize_ptrs_scalar`: four pointers in a turn. -/
def materializePtrsScalar (cur step : ℕ) : ℕ → List ℕ
  | count + 4 =>
      cur :: (cur + step) % wordSize :: (cur + 2 * step) % wordSize ::
        (cur + 3 * step) % wordSize ::
        materializePtrsScalar ((cur + 4 * step) % wordSize) step count
  | count => materializeTail cur step count

structure Lanes where
  lane0 : ℕ
  lane1 : ℕ
  lane2 : ℕ
  lane3 : ℕ

/-- `_mm256_add_epi64`. -/
def Lanes.add (v w : Lanes) : Lanes :=
  ⟨(v.lane0 + w.lane0) % wordSize, (v.lane1 + w.lane1) % wordSize,
    (v.lane2 + w.lane2) % wordSize, (v.lane3 + w.lane3) % wordSize⟩

/-- `_mm256_set1_epi64x`. -/
def Lanes.set1 (x : ℕ) : Lanes := ⟨x, x, x, x⟩

def Lanes.toList (v : Lanes) : List ℕ := [v.lane0, v.lane1, v.lane2, v.lane3]

/-- The loops of `pa_vec_materialize_ptrs_avx2`: two vectors in a turn, then
one, then single pointers.  `tail` is `base + i * step`. -/
def materializeLoop (advance : Lanes) (step : ℕ) :
    (count : ℕ) → (vcur : Lanes) → (tail : ℕ) → List ℕ
  | count + 8, vcur, tail =>
      let vnext := vcur.add advance
      vcur.toList ++ vnext.toList ++
        materializeLoop advance step count (vnext.add advance)
          ((tail + 8 * step) % wordSize)
  | count + 4, vcur, tail =>
      vcur.toList ++
        materializeTail ((tail + 4 * step) % wordSize) step count
  | count, _, tail => materializeTail tail step count

/-- `pa_vec_materialize_ptrs_avx2`. -/
def materializePtrsAvx2 (base step count : ℕ) : List ℕ :=
  let vstep : Lanes :=
    ⟨0, step % wordSize, 2 * step % wordSize, 3 * step % wordSize⟩
  materializeLoop (Lanes.set1 (4 * step % wordSize)) step count
    ((Lanes.set1 base).add vstep) base

/-- `pa_vec_materialize_ptrs`. -/
def materializePtrs (hasAvx2 : Bool) (base step count : ℕ) : List ℕ :=
  if count < 32 then materializePtrsScalar base step count
  else if hasAvx2 then materializePtrsAvx2 base step count
  else materializePtrsScalar base step count

/-- `pa_count_size_overflow`: the product when it fits. -/
def countSizeOverflow (count size : ℕ) : Option ℕ :=
  if count = 1 then some size
  else if wordSize ≤ count * size then none
  else some (count * size)

namespace VecArena

/-- `pa_vec_arena_alloc_batch` with a non-null `out`: the pointers written to
it, as many as the result of the call. -/
def allocBatch (arena : VecArena) (count size : ℕ) (commitOk hasAvx2 : Bool) :
    List ℕ × VecArena :=
  if count = 0 ∨ size = 0 then ([], arena)
  else
    let alignedSize := wordAlignUp size arena.alignment
    if alignedSize < size then ([], arena)
    else
      match countSizeOverflow count alignedSize with
      | none => ([], arena)
      | some totalBytes =>
          match arena.bump totalBytes commitOk with
          | none => ([], arena)
          | some arena' =>
              (materializePtrs hasAvx2 ((arena.base + arena.used) % wordSize)
                alignedSize count, arena')

/-- `pa_vec_arena_reset`. -/
def reset (arena : VecArena) : VecArena :=
  let arena :=
    if 0 < arena.committed ∧ arena.useOsReserve then
      { arena with committed := 0 }
    else arena
  { arena with used := 0 }

/-- `pa_vec_arena_clear`. -/
def clear (arena : VecArena) : VecArena := { arena with used := 0 }

/-- `pa_vec_arena_set_max_size`. -/
def setMaxSize (arena : VecArena) (maxBytes : ℕ) : VecArena :=
  { arena with maxSize := maxBytes }

end VecArena

/-! ## Runs -/

/-- A call on an arena; the flags are the outcome of the commit and whether
the processor has AVX2. -/
inductive VecCall where
  | alloc (size : Word) (commitOk : Bool)
  | allocBatch (count size : Word) (commitOk hasAvx2 : Bool)
  | reset
  | clear
  | setMaxSize (maxBytes : Word)

structure VecState where
  arena : VecArena
  handed : List (ℕ × ℕ)

def VecState.call (st : VecState) : VecCall → VecState
  | .alloc size commitOk =>
      let (p, arena) := st.arena.alloc size commitOk
      ⟨arena, st.handed ++ p.toList.map fun p => (p, size.val)⟩
  | .allocBatch count size commitOk hasAvx2 =>
      let (ptrs, arena) := st.arena.allocBatch count size commitOk hasAvx2
      ⟨arena, st.handed ++ ptrs.map fun p => (p, size.val)⟩
  | .reset => ⟨st.arena.reset, []⟩
  | .clear => ⟨st.arena.clear, []⟩
  | .setMaxSize maxBytes => { st with arena := st.arena.setMaxSize maxBytes }

/-! ## The kernels write the same pointers -/

/-- `count` pointers at distance `step`. -/
def pointerStream (base step count : ℕ) : List ℕ :=
  (List.range count).map fun i => (base + i * step) % wordSize

theorem pointerStream_add (base step a b : ℕ) :
    pointerStream base step (a + b) =
      pointerStream base step a ++ pointerStream (base + a * step) step b := by
  unfold pointerStream
  rw [List.range_add, List.map_append, List.map_map]
  congr 1
  apply List.map_congr_left
  intro i _
  show (base + (a + i) * step) % wordSize = _
  rw [Nat.add_mul, Nat.add_assoc]

theorem pointerStream_add_four (base step count : ℕ) :
    pointerStream base step (count + 4) =
      pointerStream base step 4 ++
        pointerStream (base + 4 * step) step count := by
  rw [Nat.add_comm, pointerStream_add]

theorem pointerStream_mod (base step count : ℕ) :
    pointerStream (base % wordSize) step count =
      pointerStream base step count := by
  unfold pointerStream
  apply List.map_congr_left
  intro i _
  exact Nat.mod_add_mod base wordSize (i * step)

theorem pointerStream_one {base step : ℕ} (hbase : base < wordSize) :
    pointerStream base step 1 = [base] := by
  simp [pointerStream, Nat.mod_eq_of_lt hbase]

theorem pointerStream_four {base step : ℕ} (hbase : base < wordSize) :
    pointerStream base step 4 =
      [base, (base + step) % wordSize, (base + 2 * step) % wordSize,
        (base + 3 * step) % wordSize] := by
  simp [pointerStream, List.range_succ, Nat.mod_eq_of_lt hbase]

theorem pointerStream_shift (base step shift count : ℕ) :
    (pointerStream base step count).map (fun p => (p + shift) % wordSize) =
      pointerStream (base + shift) step count := by
  unfold pointerStream
  rw [List.map_map]
  apply List.map_congr_left
  intro i _
  show ((base + i * step) % wordSize + shift) % wordSize = _
  rw [Nat.mod_add_mod]
  congr 1
  omega

theorem mod_lt_wordSize (x : ℕ) : x % wordSize < wordSize :=
  Nat.mod_lt x (by decide)

theorem materializeTail_eq {cur : ℕ} (step count : ℕ) (hcur : cur < wordSize) :
    materializeTail cur step count = pointerStream cur step count := by
  induction count generalizing cur with
  | zero => rfl
  | succ count ih =>
      rw [Nat.add_comm, pointerStream_add, pointerStream_one hcur,
        Nat.add_comm]
      show cur :: materializeTail _ step count = _
      rw [ih (mod_lt_wordSize _), pointerStream_mod, Nat.one_mul]
      rfl

theorem materializePtrsScalar_eq {cur : ℕ} (step count : ℕ)
    (hcur : cur < wordSize) :
    materializePtrsScalar cur step count = pointerStream cur step count := by
  induction cur, count using materializePtrsScalar.induct step with
  | case1 cur count ih =>
      show _ = pointerStream cur step (count + 4)
      rw [pointerStream_add_four, pointerStream_four hcur,
        materializePtrsScalar, ih (mod_lt_wordSize _), pointerStream_mod]
      rfl
  | case2 cur count hsmall =>
      rw [materializePtrsScalar]
      · exact materializeTail_eq step count hcur
      · exact hsmall

theorem Lanes.toList_add_set1 (v : Lanes) (x : ℕ) :
    (v.add (Lanes.set1 x)).toList =
      v.toList.map fun p => (p + x) % wordSize := rfl

theorem materializeLoop_eq {tail : ℕ} {vcur : Lanes} (step count : ℕ)
    (htail : tail < wordSize)
    (hlanes : vcur.toList = pointerStream tail step 4) :
    materializeLoop (Lanes.set1 (4 * step % wordSize)) step count vcur tail =
      pointerStream tail step count := by
  have hnext : ∀ {v : Lanes} {base : ℕ},
      v.toList = pointerStream base step 4 →
        (v.add (Lanes.set1 (4 * step % wordSize))).toList =
          pointerStream (base + 4 * step) step 4 := by
    intro v base hv
    rw [Lanes.toList_add_set1, hv, pointerStream_shift, ← pointerStream_mod,
      Nat.add_mod_mod, pointerStream_mod]
  induction count, vcur, tail using
    materializeLoop.induct (Lanes.set1 (4 * step % wordSize)) step with
  | case1 count vcur tail vnext ih =>
      have h1 : vnext.toList = pointerStream (tail + 4 * step) step 4 :=
        hnext hlanes
      have h2 := hnext h1
      rw [materializeLoop, ih (mod_lt_wordSize _)]
      · show vcur.toList ++ vnext.toList ++ _ =
          pointerStream tail step (count + 4 + 4)
        rw [hlanes, h1, pointerStream_mod,
          pointerStream_add_four tail step (count + 4),
          pointerStream_add_four (tail + 4 * step) step count,
          ← List.append_assoc]
        congr 2
        omega
      · rw [h2, pointerStream_mod]
        congr 1
        omega
  | case2 count vcur tail hsmall =>
      rw [materializeLoop]
      · show _ = pointerStream tail step (count + 4)
        rw [hlanes, materializeTail_eq _ _ (mod_lt_wordSize _),
          pointerStream_mod, pointerStream_add_four tail step count]
      · exact hsmall
  | case3 count vcur tail hsmall hsmall' =>
      rw [materializeLoop]
      · exact materializeTail_eq step _ htail
      · exact hsmall
      · exact hsmall'

theorem materializePtrsAvx2_eq {base : ℕ} (step count : ℕ)
    (hbase : base < wordSize) :
    materializePtrsAvx2 base step count = pointerStream base step count := by
  apply materializeLoop_eq step count hbase
  rw [pointerStream_four hbase]
  simp [Lanes.toList, Lanes.add, Lanes.set1, Nat.mod_eq_of_lt hbase]

theorem materializePtrs_eq {base : ℕ} (hasAvx2 : Bool) (step count : ℕ)
    (hbase : base < wordSize) :
    materializePtrs hasAvx2 base step count =
      pointerStream base step count := by
  unfold materializePtrs
  split
  · exact materializePtrsScalar_eq step count hbase
  · split
    · exact materializePtrsAvx2_eq step count hbase
    · exact materializePtrsScalar_eq step count hbase

end Palloc
