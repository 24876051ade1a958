import Palloc.ByteMemory
import Palloc.EncodedFreeList
import Palloc.PageFreeLists
import Palloc.PointerLookup

/-!
# The padding record of a block

With `PA_PADDING` a block ends in a record of eight bytes: a canary that
depends on the page and on the address of the block, and the number of bytes
between the end of the object and the record.  The first sixteen of these
bytes are filled with a fixed value, unless the page is huge.  The record is
found through the block size of the page.

`Padded` says that the record of a block is in order.  It reads no byte before
the end of the object, so the owner of the object may write there.
-/

namespace Palloc

open ByteMemory

/-! ## Pages -/

structure BlockBuild where
  /-- `PA_PADDING`, with `PA_PADDING_CHECK`. -/
  padding : Bool
  /-- `PA_DEBUG > 0`, without memory tracking. -/
  debug : Bool
  /-- `PA_SECURE != 0`. -/
  secure : Bool
  deriving Repr, DecidableEq

def BlockBuild.paddingSize (b : BlockBuild) : ℕ := if b.padding then 8 else 0

/-- The fields of `pa_page_t` that the operations on the bytes of its blocks
read; `addr` is the address of the record, and the slices of the page start at
`idx` of the segment. -/
structure BlockPage where
  addr : ℕ
  segment : ℕ
  idx : ℕ
  sliceCount : ℕ
  isHuge : Bool
  hasAligned : Bool
  freeIsZero : Bool
  blockSizeShift : ℕ
  blockSize : ℕ
  reserved : ℕ
  pageStart : ℕ
  keys : FreeListKeys
  deriving Repr, DecidableEq

/-- The part of `pa_page_init` that concerns the blocks; a fresh page has no
aligned blocks yet. -/
def blockPageInit (addr : ℕ) (segment idx sliceCount blockSize : ℕ)
    (isHuge isZeroInit : Bool) (keys : FreeListKeys) : BlockPage :=
  let area := segmentPageStartFromSlice segment idx sliceCount blockSize
  { addr := addr
    segment := segment
    idx := idx
    sliceCount := sliceCount
    isHuge := isHuge
    hasAligned := false
    freeIsZero := isZeroInit
    blockSizeShift :=
      if 0 < blockSize ∧ isPowerOfTwo blockSize then Nat.log2 blockSize else 0
    blockSize := blockSize
    reserved := area.2 / blockSize % 65536
    pageStart := area.1
    keys := keys }

namespace BlockPage

def sliceStart (page : BlockPage) : ℕ :=
  page.segment * segmentSize + page.idx * segmentSliceSize

def sliceEnd (page : BlockPage) : ℕ :=
  page.sliceStart + page.sliceCount * segmentSliceSize

/-- The `i`th block. -/
def blockAt (page : BlockPage) (i : ℕ) : ℕ :=
  page.pageStart + i * page.blockSize

/-- `_pa_page_ptr_unalign`. -/
def ptrUnalign (page : BlockPage) (p : ℕ) : ℕ :=
  pagePtrUnalign page.pageStart page.blockSize page.blockSizeShift p

/-- The block that `p` is in, as the local free and `_pa_usable_size` find
it. -/
def blockOf (page : BlockPage) (p : ℕ) : ℕ :=
  if page.hasAligned then page.ptrUnalign p else p

end BlockPage

/-! ## The record -/

def debugUninit : BitVec 8 := 0xD0#8
def debugFreed : BitVec 8 := 0xDF#8
def debugPadding : BitVec 8 := 0xDE#8

/-- `pa_page_usable_block_size`. -/
def usableBlockSize (b : BlockBuild) (page : BlockPage) : ℕ :=
  page.blockSize - b.paddingSize

/-- `pa_ptr_encode_canary`, little endian. -/
def ptrEncodeCanary (page : BlockPage) (block : ℕ) : BitVec 32 :=
  (ptrEncode (BitVec.ofNat 64 page.addr) (BitVec.ofNat 64 block)
    page.keys).setWidth 32 &&& 0xFFFFFF00#32

/-- The results of `pa_page_decode_padding`. -/
structure DecodedPadding where
  ok : Bool
  delta : ℕ
  bsize : ℕ
  deriving Repr, DecidableEq

/-- `pa_page_decode_padding`. -/
def pageDecodePadding (b : BlockBuild) (mem : Mem) (page : BlockPage)
    (block : ℕ) : DecodedPadding :=
  let bsize := usableBlockSize b page
  let padding := block + bsize
  let delta := load mem (padding + 4) 4
  let canary := load mem padding 4
  { ok := (ptrEncodeCanary page block).toNat == canary && delta ≤ bsize
    delta := delta
    bsize := bsize }

/-- `pa_page_usable_size_of`. -/
def pageUsableSizeOf (b : BlockBuild) (mem : Mem) (page : BlockPage)
    (block : ℕ) : ℕ :=
  if b.padding then
    let decoded := pageDecodePadding b mem page block
    if decoded.ok then decoded.bsize - decoded.delta else 0
  else usableBlockSize b page

/-- `_pa_usable_size`. -/
def usableSize (b : BlockBuild) (mem : Mem) (page : BlockPage) (p : ℕ) :
    ℕ :=
  if page.hasAligned then
    pageUsableSizeOf b mem page (page.ptrUnalign p) - (p - page.ptrUnalign p)
  else pageUsableSizeOf b mem page p

/-- `pa_checked_ptr_segment` accepts the address; `check` says that
`PA_DEBUG > 0` and the option `guarded_precise` is off. -/
def ptrAccepted (check : Bool) (p : ℕ) : Bool :=
  !(check && p % intptrSize != 0)

/-- `pa_usable_size`. -/
def paUsableSize (b : BlockBuild) (check : Bool) (mem : Mem)
    (page : BlockPage) (p : ℕ) : ℕ :=
  if ptrAccepted check p then usableSize b mem page p else 0

/-- `_pa_padding_shrink`. -/
def paddingShrink (b : BlockBuild) (mem : Mem) (page : BlockPage)
    (block : ℕ) (minSize : ℕ) : Mem :=
  if b.padding then
    let decoded := pageDecodePadding b mem page block
    if !decoded.ok || minSize ≤ decoded.bsize - decoded.delta then mem
    else if decoded.bsize < minSize then mem
    else store mem (block + decoded.bsize + 4) 4 (decoded.bsize - minSize)
  else mem

/-- The results of `pa_verify_padding`. -/
structure VerifiedPadding where
  ok : Bool
  size : ℕ
  wrong : ℕ
  deriving Repr, DecidableEq

/-- `pa_verify_padding`. -/
def verifyPadding (b : BlockBuild) (mem : Mem) (page : BlockPage)
    (block : ℕ) : VerifiedPadding :=
  let decoded := pageDecodePadding b mem page block
  if !decoded.ok then ⟨false, decoded.bsize, decoded.bsize⟩
  else
    let size := decoded.bsize - decoded.delta
    if page.isHuge then ⟨true, size, decoded.bsize⟩
    else
      -- at most the first bytes after the object are checked
      let maxpad := min decoded.delta maxAlignSize
      match (List.range maxpad).find?
          (fun i => mem (block + size + i) != debugPadding) with
      | none => ⟨true, size, decoded.bsize⟩
      | some i => ⟨false, size, size + i⟩

/-! ## Allocation -/

/-- What `_pa_page_finish_alloc` stores before the padding record. -/
def finishContent (b : BlockBuild) (mem : Mem) (page : BlockPage)
    (block : ℕ) (zero : Bool) : Mem :=
  if zero then
    if page.freeIsZero then store mem block 8 0
    else fill mem block (page.blockSize - b.paddingSize) 0
  else if b.debug then
    if page.isHuge then mem
    else fill mem block (usableBlockSize b page) debugUninit
  else if b.secure then store mem block 8 0
  else mem

/-- The padding record of a request of `size` bytes with the padding. -/
def finishPadding (b : BlockBuild) (mem : Mem) (page : BlockPage)
    (block : ℕ) (size : ℕ) : Mem :=
  if b.padding then
    let padding := block + usableBlockSize b page
    let delta := usableBlockSize b page - (size - b.paddingSize)
    let mem := store mem padding 4 (ptrEncodeCanary page block).toNat
    let mem := store mem (padding + 4) 4 delta
    if page.isHuge then mem
    else fill mem (padding - delta) (min delta maxAlignSize) debugPadding
  else mem

/-- `_pa_page_finish_alloc`. -/
def finishAlloc (b : BlockBuild) (mem : Mem) (page : BlockPage)
    (block : ℕ) (size : ℕ) (zero : Bool) : Mem :=
  finishPadding b (finishContent b mem page block zero) page block size

/-! ## Addresses -/

theorem ptrAccepted_iff {check : Bool} {p : ℕ} :
    ptrAccepted check p = true ↔ check = false ∨ intptrSize ∣ p := by
  unfold ptrAccepted
  rw [Nat.dvd_iff_mod_eq_zero]
  cases check <;> simp

theorem paUsableSize_accepted {b : BlockBuild} {check : Bool} {mem : Mem}
    {page : BlockPage} {p : ℕ} (haccepted : ptrAccepted check p = true) :
    paUsableSize b check mem page p = usableSize b mem page p :=
  if_pos haccepted

theorem paUsableSize_le {b : BlockBuild} {check : Bool} {mem : Mem}
    {page : BlockPage} {p : ℕ} :
    paUsableSize b check mem page p ≤ usableSize b mem page p := by
  unfold paUsableSize
  split
  · exact le_rfl
  · exact Nat.zero_le _

theorem BlockPage.ptrUnalign_eq {page : BlockPage} {i adjust : ℕ}
    (hshift : page.blockSizeShift ≠ 0 →
      page.blockSize = 2 ^ page.blockSizeShift)
    (hadjust : adjust < page.blockSize) :
    page.ptrUnalign (page.blockAt i + adjust) = page.blockAt i :=
  pagePtrUnalign_block hshift i hadjust

/-! ## Records that are in order -/

variable {b : BlockBuild} {mem mem' : Mem} {page : BlockPage} {block : ℕ}
variable {size usable minSize : ℕ} {zero : Bool}

structure Padded (b : BlockBuild) (mem : Mem) (page : BlockPage)
    (block : ℕ) (usable : ℕ) : Prop where
  canary : load mem (block + usableBlockSize b page) 4 =
    (ptrEncodeCanary page block).toNat
  delta : load mem (block + usableBlockSize b page + 4) 4 + usable =
    usableBlockSize b page
  filled : page.isHuge = false →
    AllBytes mem (block + usable)
      (block + usable + min (usableBlockSize b page - usable) maxAlignSize)
      debugPadding

theorem usableBlockSize_add (hb : b.padding = true)
    (hblock : 8 ≤ page.blockSize) :
    usableBlockSize b page + 8 = page.blockSize := by
  unfold usableBlockSize BlockBuild.paddingSize
  rw [if_pos hb]
  omega

namespace Padded

theorem usable_le (h : Padded b mem page block usable) :
    usable ≤ usableBlockSize b page := by
  have hdelta := h.delta
  omega

theorem decode (h : Padded b mem page block usable) :
    pageDecodePadding b mem page block =
      ⟨true, usableBlockSize b page - usable, usableBlockSize b page⟩ := by
  have hload : load mem (block + usableBlockSize b page + 4) 4 =
      usableBlockSize b page - usable := by
    have hdelta := h.delta
    omega
  have hle : usableBlockSize b page - usable ≤ usableBlockSize b page :=
    Nat.sub_le _ _
  unfold pageDecodePadding
  dsimp only
  rw [hload, h.canary, beq_self_eq_true, Bool.true_and, decide_eq_true hle]

theorem usableSizeOf (hb : b.padding = true)
    (h : Padded b mem page block usable) :
    pageUsableSizeOf b mem page block = usable := by
  unfold pageUsableSizeOf
  dsimp only
  rw [if_pos hb, h.decode, if_pos rfl]
  exact Nat.sub_sub_self h.usable_le

theorem verify (h : Padded b mem page block usable) :
    (verifyPadding b mem page block).ok = true := by
  unfold verifyPadding
  dsimp only
  rw [h.decode, Bool.not_true, if_neg Bool.false_ne_true]
  dsimp only
  rw [Nat.sub_sub_self h.usable_le]
  split
  · rfl
  · next hhuge =>
      have hnone : (List.range
          (min (usableBlockSize b page - usable) maxAlignSize)).find?
            (fun i => mem (block + usable + i) != debugPadding) = none := by
        rw [List.find?_eq_none]
        intro i hi
        rw [List.mem_range] at hi
        have hbyte := h.filled (Bool.eq_false_of_not_eq_true hhuge)
          (block + usable + i) (by omega) (by omega)
        rw [hbyte, bne_self_eq_false]
        exact Bool.false_ne_true
      rw [hnone]

theorem congr (hb : b.padding = true) (hblock : 8 ≤ page.blockSize)
    (h : Padded b mem page block usable)
    (hsame : SameOn (block + usable) (block + page.blockSize) mem mem') :
    Padded b mem' page block usable := by
  have hsize := usableBlockSize_add hb hblock
  have hle := h.usable_le
  constructor
  · rw [load_congr (hsame.mono (by omega) (by omega))]
    exact h.canary
  · rw [load_congr (hsame.mono (by omega) (by omega))]
    exact h.delta
  · intro hhuge
    have hpad : SameOn (block + usable) (block + usable +
        min (usableBlockSize b page - usable) maxAlignSize) mem mem' :=
      hsame.mono le_rfl (by omega)
    exact hpad.allBytes (h.filled hhuge)

end Padded

/-! ## Writing the record -/

theorem ptrEncodeCanary_lt (page : BlockPage) (block : ℕ) :
    (ptrEncodeCanary page block).toNat < 256 ^ 4 :=
  (ptrEncodeCanary page block).isLt

/-- The usable size that is decoded for a distance `delta`, which is stored as
a 32-bit number. -/
def storedUsable (b : BlockBuild) (page : BlockPage) (delta : ℕ) : ℕ :=
  usableBlockSize b page - delta % 256 ^ 4

theorem finishPadding_changesOnly (hblock : 8 ≤ page.blockSize) :
    ChangesOnly block (block + page.blockSize) mem
      (finishPadding b mem page block size) := by
  unfold finishPadding
  split
  · next hb =>
      have hsize := usableBlockSize_add hb hblock
      have hle : usableBlockSize b page - (size - b.paddingSize) ≤
          usableBlockSize b page := Nat.sub_le _ _
      dsimp only
      generalize usableBlockSize b page - (size - b.paddingSize) = delta
        at hle ⊢
      have hrecord : ChangesOnly block (block + page.blockSize) mem
          (store (store mem (block + usableBlockSize b page) 4
            (ptrEncodeCanary page block).toNat)
            (block + usableBlockSize b page + 4) 4 delta) :=
        (store_changesOnly.mono (by omega) (by omega)).trans
          (store_changesOnly.mono (by omega) (by omega))
      split
      · exact hrecord
      · exact hrecord.trans (fill_changesOnly.mono (by omega) (by omega))
  · exact ChangesOnly.refl _ _ mem

theorem finishPadding_padded (hb : b.padding = true)
    (hblock : 8 ≤ page.blockSize)
    (hsmall : page.isHuge = true ∨ page.blockSize < 256 ^ 4) :
    Padded b (finishPadding b mem page block size) page block
      (storedUsable b page (usableBlockSize b page - (size - 8))) := by
  have hsize := usableBlockSize_add hb hblock
  have hle : usableBlockSize b page - (size - 8) ≤
      usableBlockSize b page := Nat.sub_le _ _
  have hpadding : b.paddingSize = 8 := if_pos hb
  generalize hdelta : usableBlockSize b page - (size - 8) = delta at hle ⊢
  generalize hbsize : usableBlockSize b page = bsize at hsize hle
  have hmod : delta % 256 ^ 4 ≤ bsize := (Nat.mod_le _ _).trans hle
  set stored := store (store mem (block + bsize) 4
    (ptrEncodeCanary page block).toNat) (block + bsize + 4) 4 delta
    with hstored
  have hmem : finishPadding b mem page block size =
      if page.isHuge then stored
      else fill stored (block + bsize - delta) (min delta maxAlignSize)
        debugPadding := by
    unfold finishPadding
    dsimp only
    rw [if_pos hb, hpadding, hdelta, hbsize]
  have hrecord : SameOn (block + bsize) (block + bsize + 8) stored
      (finishPadding b mem page block size) := by
    rw [hmem]
    split
    · exact SameOn.refl _ _ stored
    · exact fill_changesOnly.sameOn (by omega)
  have husable : storedUsable b page delta = bsize - delta % 256 ^ 4 := by
    unfold storedUsable
    rw [hbsize]
  constructor
  · rw [hbsize, load_congr (hrecord.mono le_rfl (by omega)), hstored,
      load_congr (store_changesOnly.sameOn (by omega)), load_store,
      Nat.mod_eq_of_lt (ptrEncodeCanary_lt page block)]
  · rw [husable, hbsize, load_congr (hrecord.mono (by omega) (by omega)),
      hstored, load_store]
    omega
  · intro hhuge
    have hlt : page.blockSize < 256 ^ 4 := by
      rcases hsmall with h | h
      · rw [hhuge] at h
        exact absurd h Bool.false_ne_true
      · exact h
    have hdelta' : delta % 256 ^ 4 = delta := Nat.mod_eq_of_lt (by omega)
    rw [husable, hdelta', hbsize, hmem,
      if_neg (by rw [hhuge]; exact Bool.false_ne_true)]
    have hstart : block + (bsize - delta) = block + bsize - delta := by omega
    have hrest : bsize - (bsize - delta) = delta := by omega
    rw [hstart, hrest]
    exact fill_allBytes

theorem finishPadding_sameOn (hb : b.padding = true)
    (hsmall : page.isHuge = true ∨ page.blockSize < 256 ^ 4) :
    SameOn block (block + storedUsable b page
        (usableBlockSize b page - (size - 8))) mem
      (finishPadding b mem page block size) := by
  have hle : usableBlockSize b page - (size - 8) ≤
      usableBlockSize b page := Nat.sub_le _ _
  have hpadding : b.paddingSize = 8 := if_pos hb
  have hbsize : usableBlockSize b page ≤ page.blockSize := Nat.sub_le _ _
  unfold finishPadding storedUsable
  rw [if_pos hb, hpadding]
  dsimp only
  generalize usableBlockSize b page - (size - 8) = delta at hle ⊢
  have hrecord : SameOn block
      (block + (usableBlockSize b page - delta % 256 ^ 4)) mem
      (store (store mem (block + usableBlockSize b page) 4
        (ptrEncodeCanary page block).toNat)
        (block + usableBlockSize b page + 4) 4 delta) :=
    (store_changesOnly.sameOn (by omega)).trans
      (store_changesOnly.sameOn (by omega))
  split
  · exact hrecord
  · next hhuge =>
      have hlt : delta < 256 ^ 4 :=
        (hle.trans hbsize).trans_lt (hsmall.resolve_left hhuge)
      refine hrecord.trans (fill_changesOnly.sameOn ?_)
      rw [Nat.mod_eq_of_lt hlt]
      omega

theorem finishContent_changesOnly (hblock : 8 ≤ page.blockSize) :
    ChangesOnly block (block + page.blockSize) mem
      (finishContent b mem page block zero) := by
  have hcontent : ∀ byte, ChangesOnly block (block + page.blockSize) mem
      (fill mem block (page.blockSize - b.paddingSize) byte) := by
    intro byte
    exact fill_changesOnly.mono le_rfl (by omega)
  have hlink : ChangesOnly block (block + page.blockSize) mem
      (store mem block 8 0) :=
    store_changesOnly.mono le_rfl (by omega)
  unfold finishContent
  split
  · split
    · exact hlink
    · exact hcontent _
  · split
    · split
      · exact ChangesOnly.refl _ _ mem
      · exact hcontent _
    · split
      · exact hlink
      · exact ChangesOnly.refl _ _ mem

theorem finishAlloc_changesOnly (hblock : 8 ≤ page.blockSize) :
    ChangesOnly block (block + page.blockSize) mem
      (finishAlloc b mem page block size zero) :=
  (finishContent_changesOnly hblock).trans
    (finishPadding_changesOnly hblock)

/-- The usable bytes are zero after a zero-initialised allocation, when the
`free_is_zero` flag of the page is right. -/
theorem finishContent_allBytes
    (hzero : page.freeIsZero = true →
      AllBytes mem (block + 8) (block + usableBlockSize b page) 0) :
    AllBytes (finishContent b mem page block true) block
      (block + usableBlockSize b page) 0 := by
  unfold finishContent
  rw [if_pos rfl]
  split
  · next hflag =>
      have hrest : AllBytes (store mem block 8 0) (block + 8)
          (block + usableBlockSize b page) 0 :=
        (store_changesOnly.sameOn (Or.inr le_rfl)).allBytes (hzero hflag)
      exact store_zero_allBytes.append hrest
  · exact fill_allBytes

theorem le_storedUsable (hb : b.padding = true)
    (hsize : size ≤ page.blockSize) :
    size - 8 ≤ storedUsable b page
      (usableBlockSize b page - (size - 8)) := by
  have hmod := Nat.mod_le (usableBlockSize b page - (size - 8)) (256 ^ 4)
  have hle : size - 8 ≤ usableBlockSize b page := by
    unfold usableBlockSize BlockBuild.paddingSize
    rw [if_pos hb]
    omega
  unfold storedUsable
  omega

/-! ## Shrinking the record -/

theorem paddingShrink_changesOnly (hblock : 8 ≤ page.blockSize) :
    ChangesOnly block (block + page.blockSize) mem
      (paddingShrink b mem page block minSize) := by
  unfold paddingShrink
  split
  · next hb =>
      have hsize := usableBlockSize_add hb hblock
      have hbsize : (pageDecodePadding b mem page block).bsize =
          usableBlockSize b page := rfl
      dsimp only
      split
      · exact ChangesOnly.refl _ _ mem
      · split
        · exact ChangesOnly.refl _ _ mem
        · rw [hbsize]
          exact store_changesOnly.mono (by omega) (by omega)
  · exact ChangesOnly.refl _ _ mem

/-- After shrinking, the record is in order for an object of at least
`minSize` bytes.  The bytes before the record that are then checked are filled
already when nothing changes, and there are none when the object takes all of
the block. -/
theorem Padded.paddingShrink (hb : b.padding = true)
    (hblock : 8 ≤ page.blockSize)
    (hmin : minSize ≤ usableBlockSize b page)
    (hfill : page.isHuge = true ∨ minSize ≤ usable ∨
      minSize = usableBlockSize b page)
    (h : Padded b mem page block usable) :
    ∃ usable', usable ≤ usable' ∧ minSize ≤ usable' ∧
      Padded b (paddingShrink b mem page block minSize) page block
        usable' := by
  have hsize := usableBlockSize_add hb hblock
  have hle := h.usable_le
  unfold Palloc.paddingShrink
  dsimp only
  rw [if_pos hb, h.decode]
  dsimp only
  rw [Nat.sub_sub_self hle, Bool.not_true, Bool.false_or]
  by_cases henough : minSize ≤ usable
  · rw [if_pos (decide_eq_true henough)]
    exact ⟨usable, le_rfl, henough, h⟩
  · rw [if_neg (by rw [decide_eq_true_iff]; exact henough),
      if_neg (not_lt.mpr hmin)]
    have hmod := Nat.mod_le (usableBlockSize b page - minSize) (256 ^ 4)
    refine ⟨storedUsable b page (usableBlockSize b page - minSize), ?_, ?_,
      ?_⟩
    · unfold storedUsable
      omega
    · unfold storedUsable
      omega
    · have hrecord : SameOn (block + usableBlockSize b page)
          (block + usableBlockSize b page + 4) mem
          (store mem (block + usableBlockSize b page + 4) 4
            (usableBlockSize b page - minSize)) :=
        store_changesOnly.sameOn (Or.inl le_rfl)
      constructor
      · rw [load_congr hrecord]
        exact h.canary
      · rw [load_store]
        unfold storedUsable
        omega
      · intro hhuge
        have hall : minSize = usableBlockSize b page := by
          rcases hfill with hpage | hfits | hall
          · rw [hhuge] at hpage
            exact absurd hpage Bool.false_ne_true
          · exact absurd hfits henough
          · exact hall
        have husable : storedUsable b page
            (usableBlockSize b page - minSize) = usableBlockSize b page := by
          unfold storedUsable
          rw [hall, Nat.sub_self, Nat.zero_mod, Nat.sub_zero]
        rw [husable, Nat.sub_self, Nat.zero_min]
        intro a hlo hhi
        omega

end Palloc
