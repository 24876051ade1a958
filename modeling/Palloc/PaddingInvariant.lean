import Palloc.AlignedAddress
import Mathlib.Data.List.Perm.Basic

/-!
# The blocks in use and their padding

Two blocks of a page do not overlap, and the slices of two pages do not.  An
operation changes bytes of one block only, and of the other blocks in use the
padding stays in order.  Before it hands out a block, `_pa_page_finish_alloc`
puts the record of that block in order.

A block for a request of less than eight bytes has no room for more, because
the bins of the smallest sizes hold one block size each.  This is what makes
the shrunken record of a small block right: no filled byte is left to check.
-/

namespace Palloc

open ByteMemory

/-! ## Pages -/

/-- What holds of a page from `pa_page_init` on. -/
structure PageOk (page : BlockPage) : Prop where
  slices : 0 < page.sliceCount
  pos : 0 < page.blockSize
  word : intptrSize ∣ page.blockSize
  wordStart : intptrSize ∣ page.pageStart
  large : page.isHuge = false → page.blockSize ≤ largeObjSizeMax
  area : ∀ i < page.reserved, page.sliceStart ≤ page.blockAt i ∧
    page.blockAt i + page.blockSize ≤ page.sliceEnd

/-- A page with several slices and one block starts with its first slice. -/
def BlockPage.StartsWhole (page : BlockPage) : Prop :=
  page.isHuge = false → 1 < page.sliceCount → page.reserved = 1 →
    page.pageStart = page.sliceStart

theorem PageOk.eight_le {page : BlockPage} (h : PageOk page) :
    8 ≤ page.blockSize :=
  Nat.le_of_dvd h.pos h.word

theorem PageOk.small {page : BlockPage} (h : PageOk page) :
    page.isHuge = true ∨ page.blockSize < 256 ^ 4 := by
  cases hhuge : page.isHuge with
  | false => exact Or.inr ((h.large hhuge).trans_lt (by decide))
  | true => exact Or.inl rfl

theorem PageOk.blockAt_word {page : BlockPage} (h : PageOk page) (i : ℕ) :
    intptrSize ∣ page.blockAt i :=
  Nat.dvd_add h.wordStart (h.word.mul_left i)

theorem blockPageInit_word (addr segment idx sliceCount blockSize : ℕ)
    (isHuge isZeroInit : Bool) (keys : FreeListKeys) :
    intptrSize ∣ (blockPageInit addr segment idx sliceCount blockSize isHuge
      isZeroInit keys).pageStart := by
  have halign : ∀ n, intptrSize ∣ alignUp n maxAlignSize := fun n =>
    Dvd.dvd.mul_left (by decide) _
  unfold blockPageInit segmentPageStartFromSlice
  dsimp only
  have hsegment : intptrSize ∣ segment * segmentSize :=
    Dvd.dvd.mul_left (by decide) _
  have hslice : intptrSize ∣ idx * segmentSliceSize :=
    Dvd.dvd.mul_left (by decide) _
  exact Nat.dvd_add (Nat.dvd_add hsegment hslice) (halign _)

/-- The shift of a page that was never extended is that of its block size. -/
theorem blockPageInit_whole {addr segment idx sliceCount blockSize : ℕ}
    {isHuge isZeroInit : Bool} {keys : FreeListKeys} (hpos : 0 < blockSize) :
    (blockPageInit addr segment idx sliceCount blockSize isHuge isZeroInit
      keys).blockSizeShift ≠ 0 →
    blockSize = 2 ^ (blockPageInit addr segment idx sliceCount blockSize
      isHuge isZeroInit keys).blockSizeShift := by
  unfold blockPageInit
  dsimp only
  split
  · next hpow =>
      intro _
      obtain ⟨k, hk⟩ :=
        (Nat.and_sub_one_eq_zero_iff_isPowerOfTwo hpos.ne').mp hpow.2
      rw [hk, Nat.log2_two_pow]
  · intro hne
    exact absurd rfl hne

theorem blockPageInit_ok {addr segment idx sliceCount blockSize : ℕ}
    {isHuge isZeroInit : Bool} {keys : FreeListKeys}
    (hcount : 0 < sliceCount) (hpos : 0 < blockSize)
    (hword : intptrSize ∣ blockSize)
    (hlarge : isHuge = false → blockSize ≤ largeObjSizeMax) :
    PageOk (blockPageInit addr segment idx sliceCount blockSize isHuge
      isZeroInit keys) := by
  constructor
  · exact hcount
  · exact hpos
  · exact hword
  · exact blockPageInit_word ..
  · exact hlarge
  · intro i hi
    unfold blockPageInit segmentPageStartFromSlice at hi
    unfold BlockPage.blockAt BlockPage.sliceEnd BlockPage.sliceStart
      blockPageInit segmentPageStartFromSlice
    dsimp only at hi ⊢
    generalize alignUp _ maxAlignSize = startOffset at hi ⊢
    have hi' : i + 1 ≤ (sliceCount * segmentSliceSize - startOffset) /
        blockSize := hi.trans_le (Nat.mod_le _ _)
    have harea := (Nat.le_div_iff_mul_le hpos).mp hi'
    rw [Nat.succ_mul] at harea
    omega

theorem blockPageInit_startsWhole {addr segment idx sliceCount blockSize : ℕ}
    {isHuge isZeroInit : Bool} {keys : FreeListKeys} (hpos : 0 < blockSize)
    (hslices : isHuge = false → sliceCount = pageSlices blockSize) :
    (blockPageInit addr segment idx sliceCount blockSize isHuge isZeroInit
      keys).StartsWhole := by
  intro hhuge hcount hsingle
  obtain rfl : isHuge = false := hhuge
  obtain rfl := hslices rfl
  exact (blockPageInit_growable addr segment idx isZeroInit keys hpos
    hcount hsingle).pageStart

structure LayoutOk (pages : ℕ → Option BlockPage) : Prop where
  ok : ∀ id page, pages id = some page → PageOk page
  apart : ∀ id id' page page', id ≠ id' → pages id = some page →
    pages id' = some page' →
    page.sliceEnd ≤ page'.sliceStart ∨ page'.sliceEnd ≤ page.sliceStart
  single : ∀ id page, pages id = some page → page.StartsWhole

structure IsBlock (pages : ℕ → Option BlockPage) (id : ℕ) (page : BlockPage)
    (block : ℕ) : Prop where
  hpage : pages id = some page
  hblock : ∃ i < page.reserved, block = page.blockAt i

variable {b : BlockBuild} {mem mem' : Mem} {pages pages' : ℕ → Option BlockPage}
variable {id id' block block' usable : ℕ} {page page' : BlockPage}
variable {o : HeapObject}

theorem blockAt_apart {i j : ℕ} (hne : i ≠ j) :
    page.blockAt i + page.blockSize ≤ page.blockAt j ∨
      page.blockAt j + page.blockSize ≤ page.blockAt i := by
  have hle : ∀ {i j : ℕ}, i < j →
      page.blockAt i + page.blockSize ≤ page.blockAt j := by
    intro i j hij
    unfold BlockPage.blockAt
    rw [Nat.add_assoc, ← Nat.succ_mul]
    exact Nat.add_le_add_left (Nat.mul_le_mul_right _ hij) _
  rcases Nat.lt_or_gt_of_ne hne with hij | hij
  · exact Or.inl (hle hij)
  · exact Or.inr (hle hij)

theorem LayoutOk.blocks_apart (h : LayoutOk pages)
    (hb : IsBlock pages id page block) (hb' : IsBlock pages id' page' block')
    (hne : (id, block) ≠ (id', block')) :
    block + page.blockSize ≤ block' ∨ block' + page'.blockSize ≤ block := by
  obtain ⟨i, hi, rfl⟩ := hb.hblock
  obtain ⟨j, hj, rfl⟩ := hb'.hblock
  by_cases hid : id = id'
  · subst hid
    obtain rfl : page = page' :=
      Option.some.inj (hb.hpage.symm.trans hb'.hpage)
    apply blockAt_apart
    rintro rfl
    exact hne rfl
  · have harea := (h.ok id page hb.hpage).area i hi
    have harea' := (h.ok id' page' hb'.hpage).area j hj
    have hapart := h.apart id id' page page' hid hb.hpage hb'.hpage
    omega

/-! ## The content of a block -/

theorem finishAlloc_zero {asked : ℕ} (hok : PageOk page)
    (hfits : BlockHeap.requestSize b asked ≤ page.blockSize)
    (hzero : page.freeIsZero = true →
      AllBytes mem (block + 8) (block + usableBlockSize b page) 0) :
    let mem' := finishAlloc b mem page block
      (BlockHeap.requestSize b asked) true
    asked ≤ pageUsableSizeOf b mem' page block ∧
      AllBytes mem' block (block + pageUsableSizeOf b mem' page block) 0 := by
  have hcontent := finishContent_allBytes hzero
  unfold finishAlloc
  generalize finishContent b mem page block true = content at hcontent ⊢
  dsimp only
  by_cases hb : b.padding = true
  · have hpadded := @finishPadding_padded b content page block
      (BlockHeap.requestSize b asked) hb hok.eight_le hok.small
    have hkeep := @finishPadding_sameOn b content page block
      (BlockHeap.requestSize b asked) hb hok.small
    have hle := le_storedUsable hb hfits
    have hask : asked + 8 ≤ BlockHeap.requestSize b asked := by
      unfold BlockHeap.requestSize BlockBuild.paddingSize
      rw [if_pos hb]
      split <;> omega
    rw [hpadded.usableSizeOf hb]
    refine ⟨by omega, hkeep.allBytes ?_⟩
    apply hcontent.mono le_rfl
    have husable := hpadded.usable_le
    omega
  · have hsize : pageUsableSizeOf b (finishPadding b content page block
        (BlockHeap.requestSize b asked)) page block =
        usableBlockSize b page := if_neg hb
    have hmem : finishPadding b content page block
        (BlockHeap.requestSize b asked) = content := if_neg hb
    have hbsize : usableBlockSize b page = page.blockSize := by
      unfold usableBlockSize BlockBuild.paddingSize
      rw [if_neg hb, Nat.sub_zero]
    have hask : asked ≤ BlockHeap.requestSize b asked := by
      unfold BlockHeap.requestSize
      split <;> omega
    rw [hsize, hmem]
    exact ⟨by omega, hcontent⟩

theorem freedLocal_changesOnly {link : ℕ} (hblock : 8 ≤ page.blockSize) :
    ChangesOnly block (block + page.blockSize) mem
      (BlockHeap.freedLocal b mem page block link) := by
  have hlink : ∀ mem, ChangesOnly block (block + page.blockSize) mem
      (store mem block 8 link) :=
    fun _ => store_changesOnly.mono le_rfl (by omega)
  unfold BlockHeap.freedLocal
  dsimp only
  split
  · exact fill_changesOnly.trans (hlink _)
  · exact hlink mem

/-! ## Blocks in use -/

structure InUse (b : BlockBuild) (mem : Mem) (pages : ℕ → Option BlockPage)
    (id : ℕ) (page : BlockPage) (block usable : ℕ) : Prop
    extends IsBlock pages id page block where
  whole : page.blockSizeShift ≠ 0 → page.blockSize = 2 ^ page.blockSizeShift
  padded : Padded b mem page block usable
  big : 8 ≤ usableBlockSize b page
  link : page.isHuge = true ∨ 8 ≤ usable ∨ 8 = usableBlockSize b page

/-- An object lies inside of the usable bytes of its block, at the start of it
unless the page is known to have aligned blocks. -/
def ObjectOk (b : BlockBuild) (mem : Mem) (pages : ℕ → Option BlockPage)
    (o : HeapObject) : Prop :=
  ∃ page usable, InUse b mem pages o.page page o.block usable ∧
    o.block ≤ o.ptr ∧ o.ptr + o.asked ≤ o.block + usable ∧
    (page.hasAligned = false → o.ptr = o.block)

/-- A block on a list of a heap has room for the link. -/
def DelayedOk (b : BlockBuild) (mem : Mem) (pages : ℕ → Option BlockPage)
    (d : ℕ × ℕ) : Prop :=
  ∃ page usable, InUse b mem pages d.1 page d.2 usable ∧ 8 ≤ usable

theorem InUse.unique {usable' : ℕ} (h : InUse b mem pages id page block usable)
    (h' : InUse b mem pages id page' block usable') :
    page = page' ∧ usable = usable' := by
  obtain rfl : page = page' := Option.some.inj (h.hpage.symm.trans h'.hpage)
  have hdelta := h.padded.delta
  have hdelta' := h'.padded.delta
  exact ⟨rfl, by omega⟩

theorem InUse.congr (hb : b.padding = true) (hlayout : LayoutOk pages)
    (h : InUse b mem pages id page block usable)
    (hsame : SameOn (block + usable) (block + page.blockSize) mem mem') :
    InUse b mem' pages id page block usable where
  toIsBlock := h.toIsBlock
  whole := h.whole
  padded := h.padded.congr hb (hlayout.ok id page h.hpage).eight_le hsame
  big := h.big
  link := h.link

/-- A change of another block leaves the block alone. -/
theorem InUse.other (hb : b.padding = true) (hlayout : LayoutOk pages)
    (h : InUse b mem pages id page block usable)
    (hother : IsBlock pages id' page' block')
    (hne : (id, block) ≠ (id', block'))
    (hmem : ChangesOnly block' (block' + page'.blockSize) mem mem') :
    InUse b mem' pages id page block usable := by
  have hapart := hlayout.blocks_apart h.toIsBlock hother hne
  apply h.congr hb hlayout
  exact hmem.sameOn (by omega)

theorem InUse.usable_lt (hb : b.padding = true) (hlayout : LayoutOk pages)
    (h : InUse b mem pages id page block usable) :
    usable < page.blockSize := by
  have hsize := usableBlockSize_add hb (hlayout.ok id page h.hpage).eight_le
  have hle := h.padded.usable_le
  omega

theorem ObjectOk.other (hb : b.padding = true) (hlayout : LayoutOk pages)
    (h : ObjectOk b mem pages o) (hother : IsBlock pages id' page' block')
    (hne : o.slot ≠ (id', block'))
    (hmem : ChangesOnly block' (block' + page'.blockSize) mem mem') :
    ObjectOk b mem' pages o := by
  obtain ⟨page, usable, huse, hrest⟩ := h
  exact ⟨page, usable, huse.other hb hlayout hother hne hmem, hrest⟩

theorem DelayedOk.other {d : ℕ × ℕ} (hb : b.padding = true)
    (hlayout : LayoutOk pages) (h : DelayedOk b mem pages d)
    (hother : IsBlock pages id' page' block') (hne : d ≠ (id', block'))
    (hmem : ChangesOnly block' (block' + page'.blockSize) mem mem') :
    DelayedOk b mem' pages d := by
  obtain ⟨page, usable, huse, hroom⟩ := h
  exact ⟨page, usable, huse.other hb hlayout hother hne hmem, hroom⟩

/-! ## Reading an object -/

theorem IsBlock.ptrUnalign {p : ℕ} (h : IsBlock pages id page block)
    (hwhole : page.blockSizeShift ≠ 0 →
      page.blockSize = 2 ^ page.blockSizeShift)
    (hlo : block ≤ p) (hhi : p < block + page.blockSize) :
    page.ptrUnalign p = block := by
  obtain ⟨i, hi, rfl⟩ := h.hblock
  have hp : page.blockAt i + (p - page.blockAt i) = p :=
    Nat.add_sub_of_le hlo
  rw [← hp]
  exact BlockPage.ptrUnalign_eq hwhole (by omega)

theorem IsBlock.congr (h : IsBlock pages id page block)
    (hpages : pages' id = pages id) : IsBlock pages' id page block :=
  ⟨hpages.trans h.hpage, h.hblock⟩

theorem IsBlock.word (hlayout : LayoutOk pages)
    (h : IsBlock pages id page block) : intptrSize ∣ block := by
  obtain ⟨i, -, rfl⟩ := h.hblock
  exact (hlayout.ok id page h.hpage).blockAt_word i

theorem InUse.ptrUnalign {p : ℕ}
    (h : InUse b mem pages id page block usable) (hlo : block ≤ p)
    (hhi : p < block + page.blockSize) : page.ptrUnalign p = block :=
  h.toIsBlock.ptrUnalign h.whole hlo hhi

theorem InUse.blockOf {p : ℕ} (h : InUse b mem pages id page block usable)
    (hlo : block ≤ p) (hhi : p < block + page.blockSize)
    (hptr : page.hasAligned = false → p = block) : page.blockOf p = block := by
  unfold BlockPage.blockOf
  split
  · exact h.ptrUnalign hlo hhi
  · next haligned => exact hptr (Bool.eq_false_of_not_eq_true haligned)

theorem InUse.usableSize {p : ℕ} (hb : b.padding = true)
    (hlayout : LayoutOk pages)
    (h : InUse b mem pages id page block usable) (hlo : block ≤ p)
    (hhi : p ≤ block + usable) (hptr : page.hasAligned = false → p = block) :
    usableSize b mem page p = usable - (p - block) := by
  have hlt := h.usable_lt hb hlayout
  have hunalign := h.ptrUnalign hlo (by omega)
  unfold Palloc.usableSize
  split
  · rw [hunalign, h.padded.usableSizeOf hb]
  · next haligned =>
      have hp := hptr (Bool.eq_false_of_not_eq_true haligned)
      rw [hp, h.padded.usableSizeOf hb, Nat.sub_self, Nat.sub_zero]

/-! ## Flags of a page -/

def SameBlocks (page page' : BlockPage) : Prop :=
  page' = { page with
    hasAligned := page'.hasAligned, freeIsZero := page'.freeIsZero }

theorem SameBlocks.trans {page'' : BlockPage} (h : SameBlocks page page')
    (h' : SameBlocks page' page'') : SameBlocks page page'' := by
  unfold SameBlocks at *
  rw [h', h]

theorem SameBlocks.isBlock (h : SameBlocks page page')
    (hblock : IsBlock pages id page block) :
    IsBlock (Function.update pages id (some page')) id page' block where
  hpage := Function.update_self id (some page') pages
  hblock := by
    rw [h]
    exact hblock.hblock

theorem SameBlocks.padded (h : SameBlocks page page')
    (hpadded : Padded b mem page block usable) :
    Padded b mem page' block usable := by
  rw [h]
  exact ⟨hpadded.canary, hpadded.delta, hpadded.filled⟩

theorem SameBlocks.inUse (h : SameBlocks page page')
    (huse : InUse b mem pages id page block usable) :
    InUse b mem (Function.update pages id (some page')) id page' block
      usable where
  toIsBlock := h.isBlock huse.toIsBlock
  whole := by
    rw [h]
    exact huse.whole
  padded := h.padded huse.padded
  big := by
    rw [h]
    exact huse.big
  link := by
    rw [h]
    exact huse.link

theorem SameBlocks.layout (h : SameBlocks page page')
    (hpage : pages id = some page) (hlayout : LayoutOk pages) :
    LayoutOk (Function.update pages id (some page')) := by
  have hold : ∀ other p, Function.update pages id (some page') other = some p →
      ∃ q, pages other = some q ∧ SameBlocks q p := by
    intro other p hp
    by_cases hother : other = id
    · subst hother
      rw [Function.update_self] at hp
      obtain rfl := Option.some.inj hp
      exact ⟨page, hpage, h⟩
    · rw [Function.update_of_ne hother] at hp
      exact ⟨p, hp, rfl⟩
  constructor
  · intro other p hp
    obtain ⟨q, hq, hsame⟩ := hold other p hp
    have hok := hlayout.ok other q hq
    rw [hsame]
    exact ⟨hok.slices, hok.pos, hok.word, hok.wordStart, hok.large, hok.area⟩
  · intro i j p p' hne hp hp'
    obtain ⟨q, hq, hsame⟩ := hold i p hp
    obtain ⟨q', hq', hsame'⟩ := hold j p' hp'
    rw [hsame, hsame']
    exact hlayout.apart i j q q' hne hq hq'
  · intro other p hp
    obtain ⟨q, hq, hsame⟩ := hold other p hp
    rw [hsame]
    exact hlayout.single other q hq

/-- The flag for aligned blocks may be set at any time, and reset when the
page holds no object. -/
theorem SameBlocks.objectOk (h : SameBlocks page page')
    (hpage : pages id = some page)
    (hflag : page'.hasAligned = false → page.hasAligned = false ∨
      o.page ≠ id)
    (ho : ObjectOk b mem pages o) :
    ObjectOk b mem (Function.update pages id (some page')) o := by
  obtain ⟨p, usable, huse, hlo, hhi, hptr⟩ := ho
  by_cases hid : o.page = id
  · obtain rfl : p = page := by
      apply Option.some.inj
      rw [← huse.hpage, hid, hpage]
    rw [← hid]
    refine ⟨page', usable, h.inUse huse, hlo, hhi, ?_⟩
    intro haligned
    rcases hflag haligned with hold | hne
    · exact hptr hold
    · exact absurd hid hne
  · have hpages : Function.update pages id (some page') o.page =
        pages o.page := Function.update_of_ne hid _ _
    refine ⟨p, usable, ⟨⟨?_, huse.hblock⟩, huse.whole, huse.padded,
      huse.big, huse.link⟩, hlo, hhi, hptr⟩
    rw [hpages]
    exact huse.hpage

theorem SameBlocks.delayedOk {d : ℕ × ℕ} (h : SameBlocks page page')
    (hpage : pages id = some page) (hd : DelayedOk b mem pages d) :
    DelayedOk b mem (Function.update pages id (some page')) d := by
  obtain ⟨p, usable, huse, hroom⟩ := hd
  by_cases hid : d.1 = id
  · obtain rfl : p = page := by
      apply Option.some.inj
      rw [← huse.hpage, hid, hpage]
    rw [← hid]
    exact ⟨page', usable, h.inUse huse, hroom⟩
  · have hpages : Function.update pages id (some page') d.1 = pages d.1 :=
      Function.update_of_ne hid _ _
    refine ⟨p, usable, ⟨⟨?_, huse.hblock⟩, huse.whole, huse.padded,
      huse.big, huse.link⟩, hroom⟩
    rw [hpages]
    exact huse.hpage

end Palloc
