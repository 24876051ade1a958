import Palloc.VecArenaInvariant
import Mathlib.Data.List.Nodup
import Mathlib.Algebra.Order.BigOperators.Group.List
import Mathlib.Data.List.Perm.Basic

/-!
# Allocating vectors in a batch

`pa_vector_batch_alloc` and `pa_vector_batch_alloc_floats` ask the heap for an
array of pointers and then for one block after another; when a request is
refused they free what they have, the last block first.  The heap is a
parameter: it decides which requests it refuses, and hands out addresses that
no live block has.
-/

namespace Palloc

open MachineWord

/-! ## The heap -/

/-- A request: `pa_heap_malloc` or `pa_heap_malloc_aligned`. -/
inductive BatchRequest where
  | malloc (size : ℕ)
  | mallocAligned (size alignment : ℕ)
  deriving Repr, DecidableEq

def BatchRequest.size : BatchRequest → ℕ
  | malloc size => size
  | mallocAligned size _ => size

structure BatchBlock where
  ptr : ℕ
  request : BatchRequest
  deriving Repr, DecidableEq

/-- A heap.  The `n`-th request may be refused; an address that is handed out
is not null and not that of a live block. -/
structure BatchHeap where
  refuses : (n : ℕ) → BatchRequest → Bool
  pick : List BatchBlock → (n : ℕ) → BatchRequest → ℕ
  pick_pos : ∀ live n request, 0 < pick live n request
  pick_fresh : ∀ live n request, ∀ block ∈ live,
    block.ptr ≠ pick live n request

/-- The number of requests so far, the live blocks, and the addresses that were
handed out and those that were freed, in order. -/
structure VectorBatchState where
  requests : ℕ
  live : List BatchBlock
  handed : List ℕ
  freed : List ℕ
  deriving Repr, DecidableEq

namespace VectorBatchState

def alloc (heap : BatchHeap) (request : BatchRequest) (st : VectorBatchState) :
    Option ℕ × VectorBatchState :=
  if heap.refuses st.requests request then
    (none, { st with requests := st.requests + 1 })
  else
    let p := heap.pick st.live st.requests request
    (some p,
      { st with
        requests := st.requests + 1
        live := ⟨p, request⟩ :: st.live
        handed := st.handed ++ [p] })

/-- `pa_free`. -/
def free (p : ℕ) (st : VectorBatchState) : VectorBatchState :=
  { st with
    live := st.live.eraseP fun block => block.ptr = p
    freed := st.freed ++ [p] }

end VectorBatchState

variable {heap : BatchHeap} {request : BatchRequest} {st : VectorBatchState}

theorem VectorBatchState.alloc_refused
    (hrefuses : heap.refuses st.requests request = true) :
    st.alloc heap request =
      (none, { st with requests := st.requests + 1 }) := by
  unfold VectorBatchState.alloc
  rw [if_pos hrefuses]

theorem VectorBatchState.alloc_granted
    (hrefuses : heap.refuses st.requests request = false) :
    st.alloc heap request =
      (some (heap.pick st.live st.requests request),
        { st with
          requests := st.requests + 1
          live := ⟨heap.pick st.live st.requests request, request⟩ :: st.live
          handed :=
            st.handed ++ [heap.pick st.live st.requests request] }) := by
  unfold VectorBatchState.alloc
  rw [if_neg (by rw [hrefuses]; exact Bool.false_ne_true)]

/-! ## The batch -/

/-- The loop `while (i > 0) pa_free(ptrs[--i])`. -/
def undoBatch (ptrs : List ℕ) : (i : ℕ) → VectorBatchState → VectorBatchState
  | 0, st => st
  | i + 1, st => undoBatch ptrs i (st.free (ptrs.getD i 0))

/-- The loop over the blocks that are `left`, after those in `ptrs`: the
pointers, or `none` after the blocks were freed. -/
def batchLoop (heap : BatchHeap) (request : BatchRequest) :
    (left : ℕ) → (ptrs : List ℕ) → VectorBatchState →
      Option (List ℕ) × VectorBatchState
  | 0, ptrs, st => (some ptrs, st)
  | left + 1, ptrs, st =>
      match st.alloc heap request with
      | (none, st) => (none, undoBatch ptrs ptrs.length st)
      | (some p, st) => batchLoop heap request left (ptrs ++ [p]) st

/-- What both functions do after their checks: the array and its pointers. -/
def batchAlloc (heap : BatchHeap) (request : BatchRequest)
    (count totalPtrs : ℕ) (st : VectorBatchState) :
    Option (ℕ × List ℕ) × VectorBatchState :=
  match st.alloc heap (.malloc totalPtrs) with
  | (none, st) => (none, st)
  | (some array, st) =>
      match batchLoop heap request count [] st with
      | (none, st) => (none, st.free array)
      | (some ptrs, st) => (some (array, ptrs), st)

/-- `pa_vector_batch_alloc`. -/
def vectorBatchAlloc (heap : BatchHeap) (count size : ℕ)
    (st : VectorBatchState) :
    Option (ℕ × List ℕ) × VectorBatchState :=
  if count = 0 then (none, st)
  else
    match countSizeOverflow count 8 with
    | none => (none, st)
    | some totalPtrs => batchAlloc heap (.malloc size) count totalPtrs st

def vectorAlignmentDefault : ℕ := 64

/-- `pa_vector_batch_alloc_floats`. -/
def vectorBatchAllocFloats (heap : BatchHeap) (count dim : ℕ)
    (st : VectorBatchState) : Option (ℕ × List ℕ) × VectorBatchState :=
  if count = 0 then (none, st)
  else
    match countSizeOverflow dim 4 with
    | none => (none, st)
    | some vecSize =>
        match countSizeOverflow count 8 with
        | none => (none, st)
        | some totalPtrs =>
            batchAlloc heap (.mallocAligned vecSize vectorAlignmentDefault)
              count totalPtrs st

/-! ## Freeing in reverse -/

variable {ptrs : List ℕ} {base : List BatchBlock}

/-- The blocks at `ptrs`, the last one first. -/
def stacked (request : BatchRequest) (ptrs : List ℕ) : List BatchBlock :=
  (ptrs.map fun p => ⟨p, request⟩).reverse

theorem stacked_concat (p : ℕ) :
    stacked request (ptrs ++ [p]) = ⟨p, request⟩ :: stacked request ptrs := by
  unfold stacked
  rw [List.map_append, List.reverse_append]
  rfl

theorem mem_stacked {block : BatchBlock} :
    block ∈ stacked request ptrs ↔
      block.ptr ∈ ptrs ∧ block.request = request := by
  unfold stacked
  rw [List.mem_reverse, List.mem_map]
  constructor
  · rintro ⟨p, hp, rfl⟩
    exact ⟨hp, rfl⟩
  · rintro ⟨hp, rfl⟩
    exact ⟨block.ptr, hp, rfl⟩

theorem undoBatch_spec {i : ℕ} (hi : i ≤ ptrs.length)
    (hlive : st.live = stacked request (ptrs.take i) ++ base) :
    undoBatch ptrs i st =
      { st with
        live := base
        freed := st.freed ++ (ptrs.take i).reverse } := by
  induction i generalizing st with
  | zero =>
      have hbase : st.live = base := hlive
      unfold undoBatch
      rw [← hbase, List.take_zero, List.reverse_nil, List.append_nil]
  | succ i ih =>
      have hlt : i < ptrs.length := hi
      have hget : ptrs.getD i 0 = ptrs[i] := by
        rw [List.getD_eq_getElem?_getD, List.getElem?_eq_getElem hlt]
        rfl
      have htake : ptrs.take (i + 1) = ptrs.take i ++ [ptrs[i]] :=
        (List.take_append_getElem hlt).symm
      rw [htake, stacked_concat, List.cons_append] at hlive
      have htop : (st.free ptrs[i]).live =
          stacked request (ptrs.take i) ++ base := by
        unfold VectorBatchState.free
        dsimp only
        rw [hlive]
        exact List.eraseP_cons_of_pos (decide_eq_true rfl)
      unfold undoBatch
      rw [hget, ih (by omega) htop, htake, List.reverse_append,
        List.reverse_singleton, ← List.append_assoc]
      rfl

/-! ## The loop over the blocks -/

structure Stacked (request : BatchRequest) (base : VectorBatchState)
    (ptrs : List ℕ) (st : VectorBatchState) : Prop where
  requests : st.requests = base.requests + ptrs.length
  live : st.live = stacked request ptrs ++ base.live
  handed : st.handed = base.handed ++ ptrs
  freed : st.freed = base.freed
  nodup : ptrs.Nodup
  fresh : ∀ block ∈ base.live, block.ptr ∉ ptrs

/-- The `i`-th block after `base` is refused. -/
def RefusesBlock (heap : BatchHeap) (request : BatchRequest)
    (base : VectorBatchState) (i : ℕ) : Prop :=
  heap.refuses (base.requests + i) request = true

variable {start : VectorBatchState}

theorem stacked_nil (start : VectorBatchState) : Stacked request start [] start := by
  constructor
  · rfl
  · rfl
  · exact (List.append_nil _).symm
  · rfl
  · exact List.nodup_nil
  · intro block _
    exact List.not_mem_nil

theorem Stacked.alloc (h : Stacked request start ptrs st)
    (halloc : heap.refuses st.requests request = false) :
    ∃ p st', st.alloc heap request = (some p, st') ∧
      Stacked request start (ptrs ++ [p]) st' := by
  have hfresh := heap.pick_fresh st.live st.requests request
  have hgranted := VectorBatchState.alloc_granted halloc
  generalize heap.pick st.live st.requests request = p at hfresh hgranted
  refine ⟨p, _, hgranted, ?_⟩
  constructor
  · show st.requests + 1 = _
    rw [h.requests, List.length_append]
    rfl
  · show (⟨p, request⟩ : BatchBlock) :: st.live = _
    rw [h.live, stacked_concat]
    rfl
  · show st.handed ++ [p] = _
    rw [h.handed, List.append_assoc]
  · exact h.freed
  · rw [List.nodup_append]
    refine ⟨h.nodup, List.nodup_singleton p, ?_⟩
    intro q hq q' hq'
    rw [List.mem_singleton] at hq'
    rw [hq']
    refine hfresh ⟨q, request⟩ ?_
    rw [h.live]
    exact List.mem_append_left _ (mem_stacked.mpr ⟨hq, rfl⟩)
  · intro block hblock hmem
    rcases List.mem_append.mp hmem with hold | hnew
    · exact h.fresh block hblock hold
    · rw [List.mem_singleton] at hnew
      refine hfresh block ?_ hnew
      rw [h.live]
      exact List.mem_append_right _ hblock

theorem batchLoop_spec {left : ℕ} (h : Stacked request start ptrs st) :
    (∃ ptrs' st', batchLoop heap request left ptrs st = (some ptrs', st') ∧
      ptrs'.length = ptrs.length + left ∧ Stacked request start ptrs' st' ∧
      ∀ i, ptrs.length ≤ i → i < ptrs.length + left →
        ¬ RefusesBlock heap request start i) ∨
    ∃ ptrs' i st', batchLoop heap request left ptrs st = (none, st') ∧
      st'.live = start.live ∧ st'.handed = start.handed ++ ptrs' ∧
      st'.freed = start.freed ++ ptrs'.reverse ∧ ptrs'.Nodup ∧
      (∀ block ∈ start.live, block.ptr ∉ ptrs') ∧
      ptrs.length ≤ i ∧ i < ptrs.length + left ∧
      RefusesBlock heap request start i := by
  induction left generalizing ptrs st with
  | zero =>
      exact .inl ⟨ptrs, st, rfl, rfl, h, fun i hle hlt => by omega⟩
  | succ left ih =>
      unfold batchLoop
      cases hrefuses : heap.refuses st.requests request with
      | true =>
          have hundo := @undoBatch_spec request
            { st with requests := st.requests + 1 } ptrs start.live
            ptrs.length le_rfl (by rw [List.take_length]; exact h.live)
          rw [VectorBatchState.alloc_refused hrefuses]
          dsimp only
          rw [hundo, List.take_length]
          refine .inr ⟨ptrs, ptrs.length, _, rfl, rfl, h.handed, ?_, h.nodup,
            h.fresh, le_rfl, by omega, ?_⟩
          · show st.freed ++ _ = _
            rw [h.freed]
          · unfold RefusesBlock
            rw [← h.requests]
            exact hrefuses
      | false =>
          obtain ⟨p, st', halloc, h'⟩ := h.alloc hrefuses
          have hlength : (ptrs ++ [p]).length = ptrs.length + 1 := by
            rw [List.length_append]
            rfl
          have hrest := ih h'
          rw [halloc]
          dsimp only
          rw [hlength] at hrest
          rcases hrest with ⟨ptrs', st₁, heq, hlen, hstack, hnone⟩ |
            ⟨ptrs', i, st₁, heq, hlive, hhanded, hfreed, hnodup, hfresh, hle,
              hlt, hi⟩
          · refine .inl ⟨ptrs', st₁, heq, by omega, hstack, ?_⟩
            intro i hle hlt
            by_cases hfirst : i = ptrs.length
            · unfold RefusesBlock
              rw [hfirst, ← h.requests, hrefuses]
              exact Bool.false_ne_true
            · exact hnone i (by omega) (by omega)
          · exact .inr ⟨ptrs', i, st₁, heq, hlive, hhanded, hfreed, hnodup,
              hfresh, by omega, by omega, hi⟩

/-! ## All or nothing -/

/-- Either the array and all blocks are live and nothing was freed, or nothing
is live that was not before, and what was handed out was freed once. -/
def AllOrNothing (request : BatchRequest) (count : ℕ) (st : VectorBatchState) :
    Option (ℕ × List ℕ) × VectorBatchState → Prop
  | (some (array, ptrs), st') =>
      ptrs.length = count ∧ (array :: ptrs).Nodup ∧
      (∀ block ∈ st.live, block.ptr ∉ array :: ptrs) ∧
      st'.live = stacked request ptrs ++
        ⟨array, .malloc (count * 8)⟩ :: st.live ∧
      st'.handed = st.handed ++ array :: ptrs ∧ st'.freed = st.freed
  | (none, st') =>
      st'.live = st.live ∧
      ∃ handed freed : List ℕ, handed.Nodup ∧ freed.Perm handed ∧
        st'.handed = st.handed ++ handed ∧ st'.freed = st.freed ++ freed

theorem allOrNothing_refl {count : ℕ} :
    AllOrNothing request count st (none, st) :=
  ⟨rfl, [], [], List.nodup_nil, .refl [], (List.append_nil _).symm,
    (List.append_nil _).symm⟩

theorem batchAlloc_spec (heap : BatchHeap) (request : BatchRequest)
    (count : ℕ) (st : VectorBatchState) :
    AllOrNothing request count st
      (batchAlloc heap request count (count * 8) st) ∧
    ((batchAlloc heap request count (count * 8) st).1 = none ↔
      heap.refuses st.requests (.malloc (count * 8)) = true ∨
      ∃ i < count, heap.refuses (st.requests + 1 + i) request = true) := by
  unfold batchAlloc
  cases hrefuses : heap.refuses st.requests (.malloc (count * 8)) with
  | true =>
      rw [VectorBatchState.alloc_refused hrefuses]
      refine ⟨⟨rfl, [], [], List.nodup_nil, .refl [], ?_, ?_⟩, ?_⟩
      · exact (List.append_nil _).symm
      · exact (List.append_nil _).symm
      · simp
  | false =>
      have harray := heap.pick_fresh st.live st.requests (.malloc (count * 8))
      rw [VectorBatchState.alloc_granted hrefuses]
      dsimp only
      generalize heap.pick st.live st.requests (.malloc (count * 8)) = array
        at harray
      generalize hstart : ({ st with
        requests := st.requests + 1
        live := ⟨array, .malloc (count * 8)⟩ :: st.live
        handed := st.handed ++ [array] } : VectorBatchState) = start
      have hlive : start.live = ⟨array, .malloc (count * 8)⟩ :: st.live := by
        rw [← hstart]
      have hhanded : start.handed = st.handed ++ [array] := by rw [← hstart]
      have hfreed : start.freed = st.freed := by rw [← hstart]
      have hrequests : start.requests = st.requests + 1 := by rw [← hstart]
      have hmem : ⟨array, .malloc (count * 8)⟩ ∈ start.live := by
        rw [hlive]
        exact List.mem_cons_self
      simp only [Bool.false_eq_true, false_or]
      rcases @batchLoop_spec heap request start [] start count
          (stacked_nil start) with
        ⟨ptrs, st', heq, hlength, hstack, hnone⟩ |
        ⟨ptrs, i, st', heq, hlive', hhanded', hfreed', hnodup, hfresh, -, hlt,
          hi⟩
      · rw [heq]
        dsimp only
        refine ⟨⟨?_, ?_, ?_, ?_, ?_, ?_⟩, ?_⟩
        · rw [hlength]
          exact Nat.zero_add count
        · exact List.nodup_cons.mpr ⟨hstack.fresh _ hmem, hstack.nodup⟩
        · intro block hblock hbad
          rcases List.mem_cons.mp hbad with hfirst | hrest
          · exact harray block hblock hfirst
          · refine hstack.fresh block ?_ hrest
            rw [hlive]
            exact List.mem_cons_of_mem _ hblock
        · rw [hstack.live, hlive]
        · rw [hstack.handed, hhanded, List.append_assoc]
          rfl
        · rw [hstack.freed, hfreed]
        · refine ⟨fun hsome => absurd hsome (Option.some_ne_none _), ?_⟩
          rintro ⟨i, hi, hbad⟩
          refine absurd hbad ?_
          rw [← hrequests]
          exact hnone i (Nat.zero_le i) (by simpa using hi)
      · rw [heq]
        dsimp only
        refine ⟨⟨?_, array :: ptrs, ptrs.reverse ++ [array], ?_, ?_, ?_, ?_⟩,
          ?_⟩
        · unfold VectorBatchState.free
          dsimp only
          rw [hlive', hlive]
          exact List.eraseP_cons_of_pos (decide_eq_true rfl)
        · exact List.nodup_cons.mpr ⟨hfresh _ hmem, hnodup⟩
        · refine (List.perm_append_singleton array ptrs.reverse).trans ?_
          exact (List.reverse_perm ptrs).cons array
        · show st'.handed = _
          rw [hhanded', hhanded, List.append_assoc]
          rfl
        · show st'.freed ++ [array] = _
          rw [hfreed', hfreed, List.append_assoc]
        · refine ⟨fun _ => ⟨i, by simpa using hlt, ?_⟩, fun _ => rfl⟩
          rw [← hrequests]
          exact hi

/-! ## The two functions -/

/-- All or nothing, and nothing for invalid arguments. -/
def BatchContract (request : BatchRequest) (count : ℕ) (invalid : Prop)
    (st : VectorBatchState) (result : Option (ℕ × List ℕ) × VectorBatchState) : Prop :=
  AllOrNothing request count st result ∧ (invalid → result.1 = none)

variable {count dim size : ℕ}

theorem countSizeOverflow_none_iff (hsize : size < wordSize) :
    countSizeOverflow count size = none ↔ wordSize ≤ count * size := by
  unfold countSizeOverflow
  by_cases hone : count = 1
  · rw [if_pos hone, hone, Nat.one_mul]
    simp [hsize]
  · rw [if_neg hone]
    simp

theorem vectorBatchAlloc_contract (heap : BatchHeap) (count size : ℕ)
    (st : VectorBatchState) :
    BatchContract (.malloc size) count (count = 0) st
      (vectorBatchAlloc heap count size st) := by
  unfold vectorBatchAlloc
  by_cases hcount : count = 0
  · rw [if_pos hcount]
    exact ⟨allOrNothing_refl, fun _ => rfl⟩
  · rw [if_neg hcount]
    refine ⟨?_, fun hzero => absurd hzero hcount⟩
    cases htotal : countSizeOverflow count 8 with
    | none => exact allOrNothing_refl
    | some totalPtrs =>
        obtain rfl := countSizeOverflow_eq htotal
        exact (batchAlloc_spec heap (.malloc size) count st).1

/-- When the heap gives too little for an array of empty vectors. -/
def EmptyRefused (heap : BatchHeap) (count : ℕ) (st : VectorBatchState) : Prop :=
  heap.refuses st.requests (.malloc (count * 8)) = true ∨
    ∃ i < count, heap.refuses (st.requests + 1 + i)
      (.mallocAligned 0 vectorAlignmentDefault) = true

theorem vectorBatchAllocFloats_allOrNothing (heap : BatchHeap)
    (count dim : ℕ) (st : VectorBatchState) :
    AllOrNothing (.mallocAligned (dim * 4) vectorAlignmentDefault) count st
      (vectorBatchAllocFloats heap count dim st) := by
  unfold vectorBatchAllocFloats
  by_cases hcount : count = 0
  · rw [if_pos hcount]
    exact allOrNothing_refl
  · rw [if_neg hcount]
    cases hvec : countSizeOverflow dim 4 with
    | none => exact allOrNothing_refl
    | some vecSize =>
        obtain rfl := countSizeOverflow_eq hvec
        cases htotal : countSizeOverflow count 8 with
        | none => exact allOrNothing_refl
        | some totalPtrs =>
            obtain rfl := countSizeOverflow_eq htotal
            exact (batchAlloc_spec heap _ count st).1

/-- A batch of empty vectors is refused only by the heap, or when the array
does not fit. -/
theorem vectorBatchAllocFloats_zero (heap : BatchHeap) (count : ℕ)
    (st : VectorBatchState) :
    (vectorBatchAllocFloats heap count 0 st).1 = none ↔
      count = 0 ∨ wordSize ≤ count * 8 ∨ EmptyRefused heap count st := by
  unfold vectorBatchAllocFloats
  by_cases hcount : count = 0
  · rw [if_pos hcount]
    simp [hcount]
  · have hvec : countSizeOverflow 0 4 = some 0 := by decide +kernel
    rw [if_neg hcount, hvec]
    dsimp only
    cases htotal : countSizeOverflow count 8 with
    | none =>
        have hwrap := (countSizeOverflow_none_iff (by decide)).mp htotal
        simp [hwrap]
    | some totalPtrs =>
        have hfit : ¬ wordSize ≤ count * 8 := by
          rw [← countSizeOverflow_none_iff (by decide), htotal]
          exact Option.some_ne_none totalPtrs
        obtain rfl := countSizeOverflow_eq htotal
        dsimp only
        rw [(batchAlloc_spec heap _ count st).2, or_iff_right hcount,
          or_iff_right hfit]
        rfl

/-- Both functions allocate all or nothing, whatever the heap refuses.  Only
`pa_vector_batch_alloc_floats` misses an invalid argument: a dimension of zero
is served like any other. -/
theorem vector_batch_alloc_iff (heap : BatchHeap) (st : VectorBatchState) :
    (∀ count size : Word,
      BatchContract (.malloc size) count (count.val = 0) st
        (vectorBatchAlloc heap count size st)) ∧
    ∀ count dim : Word,
      BatchContract (.mallocAligned (dim * 4) vectorAlignmentDefault) count
        (count.val = 0 ∨ dim.val = 0) st
        (vectorBatchAllocFloats heap count dim st) ↔
      dim.val ≠ 0 ∨ count.val = 0 ∨ wordSize ≤ count * 8 ∨
        EmptyRefused heap count st := by
  constructor
  · intro count size
    exact vectorBatchAlloc_contract heap count size st
  · intro count dim
    have hall := vectorBatchAllocFloats_allOrNothing heap count dim st
    by_cases hdim : dim.val = 0
    · rw [or_iff_right (not_not.mpr hdim), ← vectorBatchAllocFloats_zero]
      rw [hdim] at hall ⊢
      constructor
      · intro hcontract
        exact hcontract.2 (.inr rfl)
      · intro hnone
        exact ⟨hall, fun _ => hnone⟩
    · refine ⟨fun _ => .inl hdim, fun _ => ⟨hall, ?_⟩⟩
      rintro (hcount | hzero)
      · unfold vectorBatchAllocFloats
        rw [if_pos hcount]
      · exact absurd hzero hdim

/-! ## A batch of empty vectors -/

def grantingHeap : BatchHeap where
  refuses _ _ := false
  pick live _ _ := 64 * ((live.map BatchBlock.ptr).sum + 1)
  pick_pos live _ _ := by omega
  pick_fresh live _ _ := by
    intro block hblock
    have hle := List.single_le_sum (fun _ _ => Nat.zero_le _) block.ptr
      (List.mem_map_of_mem hblock)
    omega

theorem vector_batch_alloc_empty :
    ¬ ∀ (heap : BatchHeap) (st : VectorBatchState) (count dim : Word),
      BatchContract (.mallocAligned (dim * 4) vectorAlignmentDefault) count
        (count.val = 0 ∨ dim.val = 0) st
        (vectorBatchAllocFloats heap count dim st) := by
  intro hcontract
  have hnone := (hcontract grantingHeap ⟨0, [], [], []⟩ 1 0).2 (.inr rfl)
  revert hnone
  decide +kernel

end Palloc
