import Palloc.PaddingInvariant
import Mathlib.Logic.Relation

/-!
# Chains of zero-initialised reallocations

An object that `pa_zalloc` or `pa_calloc` returned is passed to `pa_rezalloc`
and `pa_recalloc` again and again, for sizes that do not decrease, and the
program never writes to it.

A step clears the bytes from the old usable size to the new size.  The bytes
below the old usable size are taken over as they are, so the new object is
zero exactly when these were zero (`Rezalloc.zero_iff`).  A block that was
allocated for a copy is not cleared behind the requested size; if its usable
size is larger than that, a later step hands the rest out.
-/

namespace Palloc

open ByteMemory BlockHeap

/-- The page is as `pa_page_init` left it, up to its flags: it has not been
extended in place. -/
inductive BlockPage.Unextended : BlockPage → Prop
  | mk {addr segment idx sliceCount blockSize : ℕ} {isHuge isZeroInit : Bool}
      {keys : FreeListKeys} {page : BlockPage} (hcount : 0 < sliceCount)
      (hpos : 0 < blockSize) (hword : intptrSize ∣ blockSize)
      (hlarge : isHuge = false → blockSize ≤ largeObjSizeMax)
      (hsame : SameBlocks (blockPageInit addr segment idx sliceCount blockSize
        isHuge isZeroInit keys) page) : Unextended page

structure ZeroedObject where
  mem : Mem
  page : BlockPage
  ptr : ℕ
  /-- The bytes from `ptr` on that are in no other block. -/
  own : ℕ
  /-- The size that was last asked for. -/
  asked : ℕ
  /-- Some step has moved the object or has extended its page. -/
  moved : Bool

/-- Right after `pa_zalloc` or `pa_calloc` of `s0` bytes in a block of a page
whose `free_is_zero` flag is right. -/
inductive Zalloc (b : BlockBuild) : ℕ → ZeroedObject → Prop
  | mk (mem : Mem) (page : BlockPage) (i s0 : ℕ) (hi : i < page.reserved)
      (hfits : BlockHeap.requestSize b s0 ≤ page.blockSize)
      (hzero : page.freeIsZero = true →
        AllBytes mem (page.blockAt i + 8)
          (page.blockAt i + usableBlockSize b page) 0) :
      Zalloc b s0
        ⟨finishAlloc b mem page (page.blockAt i)
            (BlockHeap.requestSize b s0) true,
          page, page.blockAt i, page.blockSize, s0, false⟩

/-- The three ways of a reallocation; `newPage` has the new block. -/
inductive RezallocWay where
  | inPlace
  | extend
  | copy (newPage : BlockPage)

/-- A successful `_pa_heap_realloc_zero` with `zero` on the object.  Only a
page of one block is extended over slices that no other block is in. -/
inductive Rezalloc (b : BlockBuild) (st : ZeroedObject) (newsize : ℕ) :
    RezallocWay → ZeroedObject → Prop
  | inPlace (hfits : ReallocFits (usableSize b st.mem st.page st.ptr) newsize) :
      Rezalloc b st newsize .inPlace { st with asked := newsize }
  | extend (next : ℕ) (commit : Bool)
      (hextends : ReallocExtends st.page
        (usableSize b st.mem st.page st.ptr) newsize next commit) :
      Rezalloc b st newsize .extend
        ⟨fill st.mem (st.ptr + usableSize b st.mem st.page st.ptr)
            (newsize - usableSize b st.mem st.page st.ptr) 0,
          extendPage st.page (needSlices st.page newsize), st.ptr,
          if st.page.reserved = 1 then
            (extendPage st.page (needSlices st.page newsize)).blockSize
          else st.own,
          newsize, true⟩
  /-- The free of the old block changes bytes of other blocks only. -/
  | copy (next : ℕ) (commit : Bool) (newPage : BlockPage) (newp : ℕ)
      (hfits : ¬ReallocFits (usableSize b st.mem st.page st.ptr) newsize)
      (hextends : ¬ReallocExtends st.page
        (usableSize b st.mem st.page st.ptr) newsize next commit)
      (hblock : ∃ i < newPage.reserved, newp = newPage.blockAt i)
      (hrequest : BlockHeap.requestSize b newsize ≤ newPage.blockSize)
      (hapart : newp + newPage.blockSize ≤ st.ptr ∨ st.ptr + st.own ≤ newp) :
      Rezalloc b st newsize (.copy newPage)
        ⟨reallocContent
            (finishAlloc b st.mem newPage newp
              (BlockHeap.requestSize b newsize) false)
            newp st.ptr (usableSize b st.mem st.page st.ptr) newsize true,
          newPage, newp, newPage.blockSize, newsize, true⟩

inductive ChainEvent where
  | others
  /-- Another object of the page is reallocated, and extends it. -/
  | pageExtended
  | rezalloc (newsize : ℕ) (way : RezallocWay)

/-- A step of the chain, or a change of the memory that no other block has in
common with the object, and of its page. -/
inductive ChainStep (b : BlockBuild) :
    ZeroedObject → ChainEvent → ZeroedObject → Prop
  | others {st : ZeroedObject} (mem : Mem) (page : BlockPage)
      (hpage : SameBlocks st.page page)
      (hmem : SameOn st.ptr (st.ptr + st.own) st.mem mem) :
      ChainStep b st .others { st with mem := mem, page := page }
  | pageExtended {st : ZeroedObject} (mem : Mem) (need : ℕ)
      (hothers : 1 < st.page.reserved)
      (hmem : SameOn st.ptr (st.ptr + st.own) st.mem mem) :
      ChainStep b st .pageExtended
        { st with mem := mem, page := extendPage st.page need }
  | rezalloc {st st' : ZeroedObject} {way : RezallocWay} (newsize : ℕ)
      (hle : st.asked ≤ newsize) (hstep : Rezalloc b st newsize way st') :
      ChainStep b st (.rezalloc newsize way) st'

def Chain (b : BlockBuild) (cond : ZeroedObject → ChainEvent → Prop) :
    ZeroedObject → ZeroedObject → Prop :=
  Relation.ReflTransGen fun st st' => ∃ e, ChainStep b st e st' ∧ cond st e

def ZeroedObject.Zero (st : ZeroedObject) : Prop :=
  AllBytes st.mem st.ptr (st.ptr + st.asked) 0

/-- Before the step, nothing behind the requested size is usable, or it stays
behind the requested size, or the object is still as `pa_zalloc` left it. -/
def SlackUnused (b : BlockBuild) (st : ZeroedObject) (newsize : ℕ) : Prop :=
  usableSize b st.mem st.page st.ptr ≤ st.asked ∨ newsize ≤ st.asked ∨
    st.moved = false

/-- No page is extended over the blocks of another object. -/
def RezallocWay.Apart (st : ZeroedObject) : RezallocWay → Prop
  | .inPlace => True
  | .extend => st.page.reserved = 1
  | .copy newPage => newPage.Unextended

def ChainEvent.Clean (b : BlockBuild) (st : ZeroedObject) : ChainEvent → Prop
  | .others => True
  | .pageExtended => False
  | .rezalloc newsize way => SlackUnused b st newsize ∧ way.Apart st

variable {b : BlockBuild} {st st' : ZeroedObject} {newsize s0 : ℕ}
variable {way : RezallocWay}
variable {mem mem' : Mem} {page : BlockPage} {block usable size : ℕ}

/-! ## Pages that were not extended -/

namespace BlockPage.Unextended

theorem ok (h : page.Unextended) : PageOk page := by
  obtain ⟨hcount, hpos, hword, hlarge, hsame⟩ := h
  rename_i addr segment idx sliceCount blockSize isHuge isZeroInit keys
  have hok := @blockPageInit_ok addr segment idx sliceCount blockSize isHuge
    isZeroInit keys hcount hpos hword hlarge
  rw [hsame]
  exact ⟨hok.slices, hok.pos, hok.word, hok.wordStart, hok.large, hok.area⟩

theorem whole (h : page.Unextended) (hshift : page.blockSizeShift ≠ 0) :
    page.blockSize = 2 ^ page.blockSizeShift := by
  obtain ⟨hcount, hpos, hword, hlarge, hsame⟩ := h
  rename_i addr segment idx sliceCount blockSize isHuge isZeroInit keys
  rw [hsame] at hshift ⊢
  exact @blockPageInit_whole addr segment idx sliceCount blockSize isHuge
    isZeroInit keys hpos hshift

theorem sameBlocks {page' : BlockPage} (h : page.Unextended)
    (hsame : SameBlocks page page') : page'.Unextended := by
  obtain ⟨hcount, hpos, hword, hlarge, hmade⟩ := h
  exact ⟨hcount, hpos, hword, hlarge, hmade.trans hsame⟩

end BlockPage.Unextended

/-! ## One step -/

theorem usableSize_le (b : BlockBuild) (mem : Mem) (page : BlockPage)
    (p : ℕ) : usableSize b mem page p ≤ page.blockSize := by
  have hle : ∀ block, pageUsableSizeOf b mem page block ≤ page.blockSize := by
    intro block
    have hbsize : usableBlockSize b page ≤ page.blockSize := Nat.sub_le _ _
    unfold pageUsableSizeOf
    dsimp only
    split
    · split
      · exact (Nat.sub_le _ _).trans hbsize
      · exact Nat.zero_le _
    · exact hbsize
  unfold usableSize
  split
  · exact (Nat.sub_le _ _).trans (hle _)
  · exact hle p

theorem allBytes_split {lo mid hi : ℕ} (hmid : mid ≤ hi)
    (hrest : AllBytes mem mid hi 0) :
    AllBytes mem lo hi 0 ↔ AllBytes mem lo mid 0 :=
  ⟨fun h => h.mono le_rfl hmid, fun h => h.append hrest⟩

theorem copy_allBytes_iff {newp p count : ℕ} :
    AllBytes (copy mem newp p count) newp (newp + count) 0 ↔
      AllBytes mem p (p + count) 0 := by
  constructor
  · intro h a hlo hhi
    have hbyte := h (newp + (a - p)) (by omega) (by omega)
    unfold copy at hbyte
    rw [if_pos (by omega), Nat.add_sub_cancel_left,
      Nat.add_sub_of_le hlo] at hbyte
    exact hbyte
  · exact copy_allBytes

theorem SameOn.allBytes_iff {lo hi : ℕ} (h : SameOn lo hi mem mem') :
    AllBytes mem' lo hi 0 ↔ AllBytes mem lo hi 0 :=
  ⟨fun hbytes => h.symm.allBytes hbytes, fun hbytes => h.allBytes hbytes⟩

theorem reallocContent_zero_iff {newp p : ℕ}
    (hapart : newp + newsize ≤ p ∨ p + min newsize size ≤ newp) :
    AllBytes (reallocContent mem newp p size newsize true) newp
        (newp + newsize) 0 ↔
      AllBytes mem p (p + min newsize size) 0 := by
  unfold reallocContent
  dsimp only
  rw [Bool.true_and]
  split
  · next htail =>
      rw [decide_eq_true_iff] at htail
      have hmin : min newsize size = size := min_eq_right htail.le
      rw [hmin] at hapart ⊢
      have hrest : AllBytes
          (copy (fill mem (newp + size) (newsize - size) 0) newp p size)
          (newp + size) (newp + newsize) 0 := by
        have hfill : AllBytes (fill mem (newp + size) (newsize - size) 0)
            (newp + size) (newp + newsize) 0 :=
          fill_allBytes.mono le_rfl (by omega)
        exact (copy_changesOnly.sameOn (Or.inr le_rfl)).allBytes hfill
      have hsource : SameOn p (p + size) mem
          (fill mem (newp + size) (newsize - size) 0) :=
        fill_changesOnly.sameOn (by omega)
      rw [allBytes_split (by omega) hrest, copy_allBytes_iff,
        SameOn.allBytes_iff hsource]
  · next htail =>
      rw [decide_eq_true_iff] at htail
      have hmin : min newsize size = newsize :=
        min_eq_left (not_lt.mp htail)
      rw [hmin] at hapart ⊢
      rw [copy_allBytes_iff]
      split
      · next hzero =>
          rw [hzero]
          constructor <;> (intro _ a hlo hhi; omega)
      · exact Iff.rfl

/-- The new object is zero exactly when the part of the old one that it takes
over was zero. -/
theorem Rezalloc.zero_iff (h : Rezalloc b st newsize way st')
    (hown : st.page.blockSize ≤ st.own) (hapart : way.Apart st) :
    st'.Zero ↔ AllBytes st.mem st.ptr
      (st.ptr + min newsize (usableSize b st.mem st.page st.ptr)) 0 := by
  have husable := usableSize_le b st.mem st.page st.ptr
  unfold ZeroedObject.Zero
  cases h with
  | inPlace hfits =>
      rw [min_eq_left hfits.1]
  | extend next commit hextends =>
      have hlt := hextends.1
      have hrest : AllBytes
          (fill st.mem (st.ptr + usableSize b st.mem st.page st.ptr)
            (newsize - usableSize b st.mem st.page st.ptr) 0)
          (st.ptr + usableSize b st.mem st.page st.ptr)
          (st.ptr + newsize) 0 :=
        fill_allBytes.mono le_rfl (by omega)
      have hkeep : SameOn st.ptr
          (st.ptr + usableSize b st.mem st.page st.ptr) st.mem
          (fill st.mem (st.ptr + usableSize b st.mem st.page st.ptr)
            (newsize - usableSize b st.mem st.page st.ptr) 0) :=
        fill_changesOnly.sameOn (Or.inl le_rfl)
      rw [min_eq_right hlt.le]
      exact (allBytes_split (by omega) hrest).trans
        (SameOn.allBytes_iff hkeep)
  | copy next commit newPage newp hfits hextends hblock hrequest hnew =>
      have hask : newsize ≤ BlockHeap.requestSize b newsize := by
        unfold BlockHeap.requestSize
        split <;> omega
      have hfinish := @finishAlloc_changesOnly b st.mem newPage newp
        (BlockHeap.requestSize b newsize) false
        (BlockPage.Unextended.ok hapart).eight_le
      have hsource : SameOn st.ptr (st.ptr +
          min newsize (usableSize b st.mem st.page st.ptr)) st.mem
          (finishAlloc b st.mem newPage newp (BlockHeap.requestSize b newsize)
            false) :=
        hfinish.sameOn (by omega)
      exact (reallocContent_zero_iff (by omega)).trans
        (SameOn.allBytes_iff hsource)

/-! ## The object that `pa_zalloc` returned -/

theorem usableSize_blockAt {i : ℕ} (hpage : page.Unextended) :
    usableSize b mem page (page.blockAt i) =
      pageUsableSizeOf b mem page (page.blockAt i) := by
  have hunalign := BlockPage.ptrUnalign_eq (i := i) hpage.whole hpage.ok.pos
  rw [Nat.add_zero] at hunalign
  unfold usableSize
  rw [hunalign, Nat.sub_self, Nat.sub_zero, ite_self]

theorem pageUsableSizeOf_congr (hblock : 8 ≤ page.blockSize)
    (hsame : SameOn block (block + page.blockSize) mem mem') :
    pageUsableSizeOf b mem' page block = pageUsableSizeOf b mem page block := by
  unfold pageUsableSizeOf
  split
  · next hb =>
      have hsize := usableBlockSize_add hb hblock
      unfold pageDecodePadding
      dsimp only
      rw [load_congr (hsame.mono (by omega) (by omega)),
        load_congr (hsame.mono (by omega) (by omega))]
  · rfl

/-! ## Chains -/

structure ZeroChainOk (b : BlockBuild) (st : ZeroedObject) : Prop where
  zero : st.Zero
  fits : st.asked ≤ st.page.blockSize
  own : st.own = st.page.blockSize
  fresh : st.moved = false → st.page.Unextended ∧
    (∃ i, st.ptr = st.page.blockAt i) ∧
    AllBytes st.mem st.ptr
      (st.ptr + pageUsableSizeOf b st.mem st.page st.ptr) 0

namespace ZeroChainOk

theorem zalloc (h : Zalloc b s0 st) (hpage : st.page.Unextended) :
    ZeroChainOk b st := by
  cases h with
  | mk mem page i s0 hi hfits hzero =>
      change page.Unextended at hpage
      obtain ⟨hle, hbytes⟩ := finishAlloc_zero hpage.ok hfits hzero
      have hask : s0 ≤ BlockHeap.requestSize b s0 := by
        unfold BlockHeap.requestSize
        split <;> omega
      have hzero' := AllBytes.mono hbytes le_rfl
        (Nat.add_le_add_left hle (page.blockAt i))
      exact ⟨hzero', hask.trans hfits, rfl,
        fun _ => ⟨hpage, ⟨i, rfl⟩, hbytes⟩⟩

theorem others (h : ZeroChainOk b st) (hpage : SameBlocks st.page page)
    (hmem : SameOn st.ptr (st.ptr + st.own) st.mem mem) :
    ZeroChainOk b { st with mem := mem, page := page } := by
  have hfits := h.fits
  have hsize : page.blockSize = st.page.blockSize := by rw [hpage]
  rw [h.own] at hmem
  have hkeep := hmem.mono le_rfl (Nat.add_le_add_left hfits st.ptr)
  constructor
  · exact hkeep.allBytes h.zero
  · show st.asked ≤ page.blockSize
    omega
  · exact h.own.trans hsize.symm
  · intro hmoved
    obtain ⟨hold, ⟨i, hi⟩, hbytes⟩ := h.fresh hmoved
    have husable : pageUsableSizeOf b mem page st.ptr =
        pageUsableSizeOf b st.mem st.page st.ptr := by
      rw [← pageUsableSizeOf_congr hold.ok.eight_le hmem]
      rw [hpage]
      rfl
    have hle := usableSize_le b st.mem st.page st.ptr
    rw [hi, usableSize_blockAt hold, ← hi] at hle
    refine ⟨hold.sameBlocks hpage, ⟨i, ?_⟩, ?_⟩
    · show st.ptr = page.blockAt i
      rw [hi, hpage]
      rfl
    · show AllBytes mem st.ptr
        (st.ptr + pageUsableSizeOf b mem page st.ptr) 0
      rw [husable]
      exact (hmem.mono le_rfl (by omega)).allBytes hbytes

theorem source (h : ZeroChainOk b st) (hcond : SlackUnused b st newsize) :
    AllBytes st.mem st.ptr
      (st.ptr + min newsize (usableSize b st.mem st.page st.ptr)) 0 := by
  rcases hcond with husable | hnew | hmoved
  · exact AllBytes.mono h.zero le_rfl (by omega)
  · exact AllBytes.mono h.zero le_rfl (by omega)
  · obtain ⟨hpage, ⟨i, hi⟩, hbytes⟩ := h.fresh hmoved
    have husable : usableSize b st.mem st.page st.ptr =
        pageUsableSizeOf b st.mem st.page st.ptr := by
      rw [hi]
      exact usableSize_blockAt hpage
    rw [husable]
    exact hbytes.mono le_rfl (by omega)

theorem rezalloc (h : ZeroChainOk b st) (hslack : SlackUnused b st newsize)
    (hapart : way.Apart st) (hstep : Rezalloc b st newsize way st') :
    ZeroChainOk b st' := by
  have hzero := (hstep.zero_iff h.own.ge hapart).mpr (h.source hslack)
  have husable := usableSize_le b st.mem st.page st.ptr
  cases hstep with
  | inPlace hfits => exact ⟨hzero, hfits.1.trans husable, h.own, h.fresh⟩
  | extend next commit hextends =>
      refine ⟨hzero, ?_, if_pos hapart, fun hmoved => nomatch hmoved⟩
      show newsize ≤ (st.page.sliceCount + needSlices st.page newsize) *
        segmentSliceSize
      unfold needSlices sizeSlices segmentSliceSize
      omega
  | copy next commit newPage newp hfits hextends hblock hrequest hnew =>
      have hask : newsize ≤ BlockHeap.requestSize b newsize := by
        unfold BlockHeap.requestSize
        split <;> omega
      exact ⟨hzero, hask.trans hrequest, rfl, fun hmoved => nomatch hmoved⟩

theorem step {e : ChainEvent} (h : ZeroChainOk b st)
    (hstep : ChainStep b st e st') (hclean : e.Clean b st) :
    ZeroChainOk b st' := by
  cases hstep with
  | others mem page hpage hmem => exact h.others hpage hmem
  | pageExtended mem need hothers hmem => exact hclean.elim
  | rezalloc newsize hle hstep => exact h.rezalloc hclean.1 hclean.2 hstep

end ZeroChainOk

def rezallocBuild : BlockBuild := ⟨false, false, false⟩

def rezallocPage (idx blockSize : ℕ) : BlockPage :=
  blockPageInit (33554432 + 96 * idx) 1 idx 1 blockSize false false ⟨1, 2⟩

theorem rezallocPage_unextended {idx blockSize : ℕ} (hpos : 0 < blockSize)
    (hword : intptrSize ∣ blockSize) (hlarge : blockSize ≤ largeObjSizeMax) :
    (rezallocPage idx blockSize).Unextended := by
  have hsame : SameBlocks (blockPageInit (33554432 + 96 * idx) 1 idx 1
    blockSize false false ⟨1, 2⟩) (rezallocPage idx blockSize) := rfl
  exact ⟨Nat.one_pos, hpos, hword, fun _ => hlarge, hsame⟩

/-- `pa_zalloc(100)`, where earlier owners have left `0xFF` everywhere. -/
def rezallocStart : ZeroedObject :=
  ⟨finishAlloc rezallocBuild (fun _ => 255#8) (rezallocPage 1 112)
      ((rezallocPage 1 112).blockAt 0)
      (BlockHeap.requestSize rezallocBuild 100) true,
    rezallocPage 1 112, (rezallocPage 1 112).blockAt 0, 112, 100, false⟩

/-- `pa_rezalloc(p, 200)` copies. -/
def rezallocMoved : ZeroedObject :=
  ⟨reallocContent
      (finishAlloc rezallocBuild rezallocStart.mem (rezallocPage 2 224)
        ((rezallocPage 2 224).blockAt 0)
        (BlockHeap.requestSize rezallocBuild 200) false)
      ((rezallocPage 2 224).blockAt 0) rezallocStart.ptr
      (usableSize rezallocBuild rezallocStart.mem rezallocStart.page
        rezallocStart.ptr) 200 true,
    rezallocPage 2 224, (rezallocPage 2 224).blockAt 0, 224, 200, true⟩

/-- `pa_rezalloc(p, 220)` stays in place. -/
def rezallocExposed : ZeroedObject := { rezallocMoved with asked := 220 }

theorem rezallocStart_zalloc : Zalloc rezallocBuild 100 rezallocStart := by
  apply Zalloc.mk
  · decide
  · decide
  · intro hflag
    exact absurd hflag (by decide)

theorem rezallocMoved_step :
    ChainStep rezallocBuild rezallocStart
      (.rezalloc 200 (.copy (rezallocPage 2 224))) rezallocMoved := by
  apply ChainStep.rezalloc 200 (by decide)
  apply Rezalloc.copy 0 false
  · decide +kernel
  · decide +kernel
  · exact ⟨0, by decide, rfl⟩
  · decide
  · right
    decide

theorem rezallocExposed_step :
    ChainStep rezallocBuild rezallocMoved (.rezalloc 220 .inPlace)
      rezallocExposed := by
  apply ChainStep.rezalloc 220 (by decide)
  apply Rezalloc.inPlace
  decide +kernel

end Palloc
