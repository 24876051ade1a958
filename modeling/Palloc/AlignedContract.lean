import Palloc.HeapRun

/-!
# The contract of aligned allocation

The address is aligned at the offset, the object lies in its block, and
`pa_usable_size` and `pa_free` find it again.  With `PA_DEBUG > 0` they refuse
an address that is not a multiple of the word size.
-/

namespace Palloc

open ByteMemory BlockHeap

variable {b : BlockBuild} (layer : PageLayer b)

/-! ## The contract -/

section Contract

variable {st st' : BlockHeap} {size alignment offset : ℕ} {zero check : Bool}
variable {page : BlockPage} {o : HeapObject} {mem : Mem}

/-- The block that `pa_free` gives back when it is called with `p`. -/
def freedBlock (check : Bool) (page : BlockPage) (p : ℕ) : Option ℕ :=
  if ptrAccepted check p then some (page.blockOf p) else none

structure AlignedContract (b : BlockBuild) (check : Bool) (st : BlockHeap)
    (page : BlockPage) (o : HeapObject) (size alignment offset : ℕ) :
    Prop where
  hpage : st.pages o.page = some page
  aligned : (o.ptr + offset) % alignment = 0
  inside : o.block ≤ o.ptr ∧
    o.ptr + size ≤ o.block + usableBlockSize b page
  flagged : o.ptr ≠ o.block → page.hasAligned = true
  unalign : page.ptrUnalign o.ptr = o.block
  recovered : freedBlock check page o.ptr = some o.block
  usable : size ≤ paUsableSize b check st.mem page o.ptr

theorem heapMallocZeroAlignedAt_power
    (hrun : heapMallocZeroAlignedAt layer check st size alignment offset
      zero = (some o, st')) : ∃ k, alignment = 2 ^ k := by
  unfold heapMallocZeroAlignedAt at hrun
  split at hrun
  · exact nomatch (Prod.mk.inj hrun).1
  · next hadmitted =>
      obtain ⟨hne, hpow⟩ := not_or.mp hadmitted
      exact MachineWord.exists_pow_of_and_pred (Nat.pos_of_ne_zero hne)
        (not_not.mp hpow)

end Contract

/-! ## A concrete page layer -/

section FirstFit

/-- The first block that can be given to a request, among the first blocks of
the first pages. -/
def firstFit (st : BlockHeap) (size : ℕ) : Option (ℕ × BlockPage × ℕ) :=
  (List.range 4).findSome? fun id =>
    match st.pages id with
    | none => none
    | some page =>
        ((List.range 4).find? fun i =>
          decide (i < page.reserved ∧ (id, page.blockAt i) ∉ st.slots ∧
            size ≤ page.blockSize ∧
            (page.isHuge = false → size ≤ mediumObjSizeMax →
              bin page.blockSize = bin size) ∧
            (page.blockSizeShift ≠ 0 →
              page.blockSize = 2 ^ page.blockSizeShift))).map
          fun i => (id, page, page.blockAt i)

theorem firstFit_canAlloc {st : BlockHeap} {size id block : ℕ}
    {page : BlockPage} (h : firstFit st size = some (id, page, block)) :
    st.CanAlloc id page block size := by
  obtain ⟨id', -, hid⟩ := List.exists_of_findSome?_eq_some h
  split at hid
  · exact nomatch hid
  · next p hp =>
      obtain ⟨i, hi, heq⟩ := Option.map_eq_some_iff.mp hid
      obtain ⟨rfl, rfl, rfl⟩ : id' = id ∧ p = page ∧ p.blockAt i = block := by
        simpa using heq
      have hsome := List.find?_some hi
      obtain ⟨hlt, hunused, hfits, hbin, hwhole⟩ := of_decide_eq_true hsome
      exact ⟨hp, ⟨i, hlt, rfl⟩, hunused, hfits, hbin, hwhole⟩

/-- A page layer that only hands out blocks of the pages it has. -/
def firstFitLayer (b : BlockBuild) : PageLayer b where
  sizes := ⟨4096, 53248⟩
  prepare st _ := st
  alloc := firstFit
  smallFree _ _ := none
  osAlloc _ _ _ := none
  freeKind _ _ := .owner 0
  settle st := st
  osPageSize_pos := by decide
  prepare_background _ _ _ := .refl
  settle_background _ _ := .refl
  alloc_canAlloc _ _ _ _ _ _ h := firstFit_canAlloc h
  smallFree_canAlloc _ _ _ _ _ _ h := nomatch h
  osAlloc_fresh _ _ _ _ h := nomatch h

/-- A page at the start of the segment `id + 1`. -/
def freshPage (id sliceCount blockSize : ℕ) : BlockPage :=
  blockPageInit (segmentSize * (id + 1) + 96) (id + 1) 1 sliceCount blockSize
    false false ⟨1, 2⟩

def BlockHeap.withPage (st : BlockHeap) (id sliceCount blockSize : ℕ) :
    BlockHeap :=
  { st with
    pages := Function.update st.pages id
      (some (freshPage id sliceCount blockSize)) }

theorem BlockHeap.withPage_step {b : BlockBuild} {check : Bool}
    {st : BlockHeap} {id sliceCount blockSize : ℕ} (hid : st.pages id = none)
    (hcount : 0 < sliceCount) (hpos : 0 < blockSize)
    (hword : intptrSize ∣ blockSize)
    (hslices : blockSize ≤ largeObjSizeMax ∧
      sliceCount = pageSlices blockSize)
    (hunused : st.Unused id (freshPage id sliceCount blockSize).sliceStart
      (freshPage id sliceCount blockSize).sliceEnd) :
    Step b check st .other (st.withPage id sliceCount blockSize) :=
  .pageAlloc id _ _ _ sliceCount blockSize false false ⟨1, 2⟩ hid hcount hpos
    hword (fun _ => hslices) hunused

end FirstFit

/-! ## An address between two words -/

section Misaligned

def debugBuild : BlockBuild := ⟨true, true, false⟩

def alignedHeap : BlockHeap := (BlockHeap.start fun _ => 0#8).withPage 0 1 96

theorem alignedHeap_run {check : Bool} :
    SoundRuns debugBuild check (BlockHeap.start fun _ => 0#8) alignedHeap := by
  refine .single ⟨.other, BlockHeap.withPage_step rfl (by decide) (by decide)
    (by decide) (by decide) ?_, False.elim⟩
  exact fun _ _ _ h => nomatch h

/-- The result of `pa_malloc_aligned_at(64, 16, offset)`. -/
def alignedResult (offset : ℕ) : Option HeapObject × BlockHeap :=
  heapMallocZeroAlignedAt (firstFitLayer debugBuild) true alignedHeap 64 16
    offset false

theorem alignedHeap_fit :
    firstFit alignedHeap (BlockHeap.requestSize debugBuild (oversize 64 16)) =
      some (0, freshPage 0 1 96, 33620064) := rfl

theorem alignedResult_run {offset : ℕ} (hoffset : offset ≠ 0) :
    SoundRuns debugBuild true (BlockHeap.start fun _ => 0#8)
      (alignedResult offset).2 := by
  have hresult : (alignedResult offset).2 = mallocAligned debugBuild
      alignedHeap 0 (freshPage 0 1 96) 33620064 64 16 offset false := by
    unfold alignedResult heapMallocZeroAlignedAt
    rw [if_neg (by decide), if_pos (by decide)]
    unfold mallocAlignedGeneric
    show (if _ then _ else _ : Option HeapObject × BlockHeap).2 = _
    rw [if_neg (by decide), if_neg (fun h => hoffset h.1)]
    unfold mallocAlignedOveralloc
    rw [if_neg (by decide)]
    rfl
  have hstep : Step debugBuild true alignedHeap (.aligned 16 offset)
      (alignedResult offset).2 := by
    rw [hresult]
    exact .mallocAligned _ _ _ _ (by decide) (by decide)
      (firstFit_canAlloc alignedHeap_fit)
      fun hlarge => absurd hlarge (by decide)
  exact alignedHeap_run.tail ⟨.aligned 16 offset, hstep, False.elim⟩

end Misaligned

end Palloc
