import Palloc.PageShape
import Palloc.ProcessInit

/-!
# Natural alignment

`pa_malloc_is_naturally_aligned` tells for which sizes an aligned allocation
needs no more room than a plain one.  It looks at the block size only.  That
the blocks are aligned also depends on where a page starts, and
`_pa_segment_page_start_from_slice` moves the start of a page twice and rounds
it again.  Each of these steps keeps every alignment that divides the block
size and a slice.
-/

namespace Palloc

open BlockHeap

/-! ## Where a page starts -/

theorem dvd_alignUp_of_dvd {d n a : ℕ} (ha : 0 < a) (hn : d ∣ n)
    (hda : d ∣ a ∨ a ∣ d) : d ∣ alignUp n a := by
  rcases hda with hda | had
  · exact hda.trans (dvd_alignUp n a)
  · have hround : alignUp n a = n :=
      MachineWord.exactAlignUp_of_dvd ha (had.trans hn)
    rw [hround]
    exact hn

theorem dvd_segmentPageStart {d blockSize : ℕ} (hblock : d ∣ blockSize)
    (hslice : d ∣ segmentSliceSize) (hmax : d ∣ maxAlignSize ∨ maxAlignSize ∣ d)
    (segment idx sliceCount : ℕ) :
    d ∣ (segmentPageStartFromSlice segment idx sliceCount blockSize).1 := by
  have hpstart : d ∣ segment * segmentSize + idx * segmentSliceSize := by
    have hsegment : segmentSliceSize ∣ segmentSize := by decide
    exact Nat.dvd_add ((hslice.trans hsegment).mul_left segment)
      (hslice.mul_left idx)
  have hadjust : d ∣ blockSize -
      (segment * segmentSize + idx * segmentSliceSize) % blockSize :=
    Nat.dvd_sub hblock ((Nat.dvd_mod_iff hblock).mpr hpstart)
  unfold segmentPageStartFromSlice
  dsimp only
  apply Nat.dvd_add hpstart
  apply dvd_alignUp_of_dvd (by decide) _ hmax
  have hfirst : ∀ c : Prop, [Decidable c] → d ∣ if c then blockSize -
      (segment * segmentSize + idx * segmentSliceSize) % blockSize else 0 := by
    intro c _
    split
    · exact hadjust
    · exact dvd_zero d
  split
  · split
    · exact Nat.dvd_add (hfirst _) (hblock.mul_left 3)
    · split
      · exact Nat.dvd_add (hfirst _) hblock
      · exact hfirst _
  · exact hfirst _

/-! ## The block sizes -/

/-- The sizes of the queues are multiples of two words, except the one of a
single word. -/
theorem queueBlockSize_bin {size : ℕ} (hsize : size ≤ mediumObjSizeMax) :
    maxAlignSize ∣ queueBlockSize (bin size) ∨
      size ≤ intptrSize ∧ queueBlockSize (bin size) = intptrSize := by
  obtain ⟨hbin, hle⟩ := bin_medium hsize
  by_cases hone : bin size = 1
  · right
    rw [hone] at hle ⊢
    exact ⟨hle, rfl⟩
  · left
    have hall : ∀ b < binHuge, b ≠ 1 → (b ∈ [1, 2, 4, 6, 8] ∨ 9 ≤ b) →
        maxAlignSize ∣ queueBlockSize b := by
      decide +kernel
    apply hall _ hbin hone
    rcases bin_cases size with hsmall | ⟨hlarge, -⟩
    · exact Or.inl hsmall
    · exact Or.inr hlarge

variable {b : BlockBuild} {layer : PageLayer b} {shape : PageShape}

/-- The good size of a large object is rounded to whole pages of the operating
system or more. -/
theorem dvd_osGoodAllocSize {sizes : SegmentSizes} {size : ℕ}
    (hos : ∃ k, 4 ≤ k ∧ k < 64 ∧ sizes.osPageSize = 2 ^ k)
    (hle : osGoodAllocSize sizes size ≤ largeObjSizeMax) :
    maxAlignSize ∣ osGoodAllocSize sizes size := by
  obtain ⟨k, hk, hword, hpage⟩ := hos
  obtain ⟨alignSize, hmem, heq⟩ := osGoodAllocSize_cases sizes size
  simp only [goodAlignments, List.mem_cons, List.not_mem_nil, or_false]
    at hmem
  have hdvd : maxAlignSize ∣ alignSize := by
    rcases hmem with rfl | rfl | rfl | rfl | rfl
    · rw [hpage]
      exact pow_dvd_pow 2 hk
    all_goals decide
  have hbound : alignSize ≤ 2 ^ 63 := by
    have hpow : 2 ^ k ≤ 2 ^ 63 :=
      Nat.pow_le_pow_right (by decide) (by omega)
    omega
  rw [heq] at hle ⊢
  split
  · -- so large a size is no large object
    rename_i hoverflow
    rw [if_pos hoverflow] at hle
    unfold largeObjSizeMax segmentSize at hle
    omega
  · exact hdvd.trans (dvd_alignUp _ _)

/-- An alignment of at most two words. -/
theorem dvd_blockSize_small {size k : ℕ}
    (hos : ∃ k, 4 ≤ k ∧ k < 64 ∧ layer.sizes.osPageSize = 2 ^ k)
    (hshape : findPageShape b layer.sizes (BlockHeap.requestSize b size) 0 =
      some shape)
    (hsize : 2 ^ k ≤ size) (hk : 2 ^ k ∣ maxAlignSize) :
    2 ^ k ∣ shape.blockSize := by
  rcases findPageShape_cases hshape with ⟨hmedium, -, rfl⟩ |
    ⟨-, -, hlarge, rfl⟩ | ⟨-, -, rfl⟩
  · unfold spanPageShape
    dsimp only
    rcases queueBlockSize_bin hmedium with hdvd | ⟨hle, hword⟩
    · exact hk.trans hdvd
    · -- a block of one word serves at most one word
      rw [hword]
      have hask := le_requestSize b size
      have hpow : 2 ^ k ≤ 2 ^ 3 := by
        have hintptr : intptrSize = 2 ^ 3 := rfl
        omega
      exact pow_dvd_pow 2 ((Nat.pow_le_pow_iff_right (by decide)).mp hpow)
  · exact hk.trans (dvd_osGoodAllocSize hos hlarge)
  · have hslice : maxAlignSize ∣ segmentSliceSize := by decide
    exact (hk.trans hslice).mul_left _

theorem blockSize_eq_goodSize {size : ℕ}
    (hshape : findPageShape b layer.sizes (BlockHeap.requestSize b size) 0 =
      some shape)
    (hpos : 0 < size) (hgood : goodSize b layer.sizes size ≤ maxAlignGuarantee) :
    shape.blockSize = goodSize b layer.sizes size ∧ 0 < goodSize b layer.sizes size := by
  have hrequest : BlockHeap.requestSize b size = size + b.paddingSize := by
    unfold BlockHeap.requestSize
    rw [if_neg (by omega)]
  unfold goodSize at hgood ⊢
  by_cases hsize : size ≤ mediumObjSizeMax
  · rw [if_pos hsize] at hgood ⊢
    have hmedium : size + b.paddingSize ≤ mediumObjSizeMax := by
      by_contra hlarge
      rw [bin_large (not_le.mp hlarge)] at hgood
      exact absurd hgood (by decide)
    have hblock := (bin_medium hmedium).2
    have hnot : ¬(mediumObjSizeMax < size + b.paddingSize ∨ 0 < 0) := by omega
    unfold findPageShape at hshape
    rw [hrequest, if_neg hnot, Option.some.injEq] at hshape
    rw [← hshape]
    exact ⟨rfl, by omega⟩
  · rw [if_neg hsize] at hgood
    have hround : size + b.paddingSize ≤
        alignUp (size + b.paddingSize) layer.sizes.osPageSize :=
      le_alignUp layer.osPageSize_pos
    unfold maxAlignGuarantee at hgood
    omega

/-- A natural alignment divides the block size, and it is at most a slice. -/
theorem dvd_blockSize {size k : ℕ}
    (hos : ∃ k, 4 ≤ k ∧ k < 64 ∧ layer.sizes.osPageSize = 2 ^ k)
    (hshape : findPageShape b layer.sizes (BlockHeap.requestSize b size) 0 =
      some shape)
    (hnat : mallocIsNaturallyAligned b layer.sizes size (2 ^ k)) :
    2 ^ k ∣ shape.blockSize ∧ k ≤ 16 := by
  obtain ⟨hsize, hnat⟩ := hnat
  have hpos : 0 < 2 ^ k := Nat.two_pow_pos k
  have hmaxPow : maxAlignSize = 2 ^ 4 := rfl
  by_cases hk : k ≤ 4
  · have hdvd : 2 ^ k ∣ maxAlignSize := by
      rw [hmaxPow]
      exact pow_dvd_pow 2 hk
    exact ⟨dvd_blockSize_small hos hshape hsize hdvd, by omega⟩
  · have hlarge : ¬2 ^ k ≤ maxAlignSize := by
      rw [hmaxPow, Nat.pow_le_pow_iff_right (by decide)]
      exact hk
    obtain ⟨hgood, hmask⟩ := hnat.resolve_left hlarge
    obtain ⟨hblock, hgoodPos⟩ :=
      blockSize_eq_goodSize hshape (by omega) hgood
    rw [Nat.and_two_pow_sub_one_eq_mod] at hmask
    have hdvd := Nat.dvd_of_mod_eq_zero hmask
    have hle : 2 ^ k ≤ 2 ^ 16 := (Nat.le_of_dvd hgoodPos hdvd).trans hgood
    rw [hblock]
    exact ⟨hdvd, (Nat.pow_le_pow_iff_right (by decide)).mp hle⟩

/-! ## The blocks -/

theorem dvd_block {k blockSize : ℕ} (hblock : 2 ^ k ∣ blockSize) (hk : k ≤ 16)
    (segment idx sliceCount i : ℕ) :
    2 ^ k ∣ (segmentPageStartFromSlice segment idx sliceCount blockSize).1 +
      i * blockSize := by
  have hmaxPow : maxAlignSize = 2 ^ 4 := rfl
  have hslicePow : segmentSliceSize = 2 ^ 16 := rfl
  apply Nat.dvd_add _ (hblock.mul_left i)
  apply dvd_segmentPageStart hblock
  · rw [hslicePow]
    exact pow_dvd_pow 2 hk
  · rw [hmaxPow]
    rcases Nat.le_total k 4 with hle | hle
    · exact Or.inl (pow_dvd_pow 2 hle)
    · exact Or.inr (pow_dvd_pow 2 hle)

/-- Every block of a page that serves a size is aligned as
`pa_malloc_is_naturally_aligned` says, wherever the page lies. -/
theorem block_naturallyAligned {size alignment : ℕ} (hpos : 0 < alignment)
    (hpow : isPowerOfTwo alignment)
    (hos : ∃ k, 4 ≤ k ∧ k < 64 ∧ layer.sizes.osPageSize = 2 ^ k)
    (hnat : mallocIsNaturallyAligned b layer.sizes size alignment)
    (hshape : findPageShape b layer.sizes (BlockHeap.requestSize b size) 0 =
      some shape) (segment idx sliceCount i : ℕ) :
    alignment ∣
      (segmentPageStartFromSlice segment idx sliceCount shape.blockSize).1 +
        i * shape.blockSize := by
  obtain ⟨k, rfl⟩ :=
    (Nat.and_sub_one_eq_zero_iff_isPowerOfTwo hpos.ne').mp hpow
  obtain ⟨hblock, hk⟩ := dvd_blockSize hos hshape hnat
  exact dvd_block hblock hk segment idx sliceCount i

/-- Blocks of 5120 bytes are aligned to 1024 bytes, also behind a slice that
starts at no multiple of 5120. -/
theorem block_naturallyAligned_5120 :
    1024 ∣ (segmentPageStartFromSlice 3 7 1 5120).1 + 2 * 5120 :=
  @block_naturallyAligned ⟨false, false, false⟩ (firstFitLayer _)
    (spanPageShape 5120) 5000 1024 (by decide) (by decide)
    ⟨12, by decide, by decide, rfl⟩ (by decide +kernel) (by decide +kernel)
    3 7 1 2

/-- So the request for a naturally aligned block is not made a second time
with room for the alignment. -/
theorem mallocAlignedGeneric_natural {st : BlockHeap} {check zero : Bool}
    {size alignment id addr segment idx sliceCount block i : ℕ}
    {isHuge isZeroInit : Bool} {keys : FreeListKeys} {page : BlockPage}
    (hpos : 0 < alignment) (hpow : isPowerOfTwo alignment)
    (hos : ∃ k, 4 ≤ k ∧ k < 64 ∧ layer.sizes.osPageSize = 2 ^ k)
    (hnat : mallocIsNaturallyAligned b layer.sizes size alignment)
    (hsize : size ≤ maxAllocSize - b.paddingSize)
    (hshape : findPageShape b layer.sizes (BlockHeap.requestSize b size) 0 =
      some shape)
    (halloc : layer.alloc (layer.prepare st (BlockHeap.requestSize b size))
      (BlockHeap.requestSize b size) = some (id, page, block))
    (hpage : page = blockPageInit addr segment idx sliceCount shape.blockSize
      isHuge isZeroInit keys)
    (hblock : block = page.blockAt i) :
    mallocAlignedGeneric layer check st size alignment 0 zero =
      heapMallocZero layer st size zero := by
  obtain ⟨k, rfl⟩ :=
    (Nat.and_sub_one_eq_zero_iff_isPowerOfTwo hpos.ne').mp hpow
  have hdvd : 2 ^ k ∣ block := by
    obtain ⟨hdvd, hk⟩ := dvd_blockSize hos hshape hnat
    rw [hblock, hpage]
    exact dvd_block hdvd hk segment idx sliceCount i
  unfold mallocAlignedGeneric heapMallocZero
  dsimp only
  rw [if_neg (not_lt.mpr hsize), if_pos ⟨rfl, hnat⟩, halloc]
  dsimp only
  rw [Nat.and_two_pow_sub_one_eq_mod, Nat.mod_eq_zero_of_dvd hdvd,
    if_pos rfl]

end Palloc
