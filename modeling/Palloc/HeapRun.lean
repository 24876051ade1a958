import Palloc.AllocOutcome

/-!
# The heap stays in order

In every run whose in-place extensions are sound, the live objects lie in the
usable bytes of their blocks and the blocks do not overlap.  An extension is
sound when the page holds one block, which starts with the first slice, and
the new size fits behind the object; the block then takes all slices of the
page.  A page of many blocks would be extended over its other blocks, and with
padding the record of the object would be lost.
-/

namespace Palloc

open ByteMemory BlockHeap

variable {b : BlockBuild} {check : Bool} {st st' : BlockHeap}
variable {mem mem' : Mem} {pages : ℕ → Option BlockPage}
variable {id block newsize next : ℕ} {page : BlockPage} {o : HeapObject}
variable {commit zero : Bool}

/-! ## Runs -/

def BlockHeap.SoundExtension (b : BlockBuild) (st : BlockHeap) :
    Event → Prop
  | .realloc o newsize _ _ =>
      b.padding = false ∧ st.SingleBlockFits o newsize
  | _ => False

def BlockHeap.SoundRuns (b : BlockBuild) (check : Bool) :
    BlockHeap → BlockHeap → Prop :=
  Relation.ReflTransGen fun st st' => ∃ e, Step b check st e st' ∧
    (Extends b check st e → SoundExtension b st e)

theorem BlockHeap.SoundRuns.runs (hrun : SoundRuns b check st st') :
    Runs b check st st' :=
  Relation.ReflTransGen.mono (fun _ _ ⟨e, hstep, _⟩ => ⟨e, hstep⟩) _ _ hrun

/-! ## The extension of one block -/

section Extension

structure ExtendedBlock (page : BlockPage) (newsize next : ℕ)
    (page' : BlockPage) : Prop where
  new : page' = extendPage page (needSlices page newsize)
  reserved : page.reserved = 1
  start : page.pageStart = page.sliceStart
  slices : page'.sliceCount = sizeSlices newsize
  sliceEnd : page.sliceEnd ≤ page'.sliceEnd ∧
    page'.sliceEnd ≤ page.sliceEnd + next * segmentSliceSize
  area : page.pageStart + page'.blockSize = page'.sliceEnd
  grown : page.blockSize ≤ page'.blockSize

theorem extendPage_extendedBlock (hok : PageOk page)
    (hwhole : page.StartsWhole) (hhuge : page.isHuge = false)
    (hsingle : page.reserved = 1) {size : ℕ}
    (hextends : ReallocExtends page size newsize next commit) :
    ExtendedBlock page newsize next
      (extendPage page (needSlices page newsize)) := by
  obtain ⟨-, -, hslices, hneed, hle, -⟩ := hextends
  have hstart := hwhole hhuge hslices hsingle
  have harea := (hok.area 0 (by omega)).2
  have hfirst : page.blockAt 0 = page.pageStart := by
    unfold BlockPage.blockAt
    rw [Nat.zero_mul, Nat.add_zero]
  rw [hfirst, hstart] at harea
  have hcount : page.sliceCount + needSlices page newsize =
      sizeSlices newsize := by
    unfold needSlices at hneed ⊢
    omega
  have hnext := Nat.mul_le_mul_right segmentSliceSize hle
  have hend : (extendPage page (needSlices page newsize)).sliceEnd =
      page.sliceEnd + needSlices page newsize * segmentSliceSize := by
    unfold BlockPage.sliceEnd
    rw [extendPage_sliceStart, extendPage_sliceCount, Nat.add_mul,
      Nat.add_assoc]
  have hsize : page.sliceStart +
      (extendPage page (needSlices page newsize)).blockSize =
      page.sliceEnd + needSlices page newsize * segmentSliceSize := by
    rw [extendPage_blockSize, Nat.add_mul, ← Nat.add_assoc]
    rfl
  refine ⟨rfl, ?_, hstart, ?_, ?_, ?_, ?_⟩
  · exact hsingle
  · rw [extendPage_sliceCount, hcount]
  · rw [hend]
    omega
  · rw [hstart, hsize, hend]
  · omega

variable {page' : BlockPage}

theorem ExtendedBlock.blockAt_zero (h : ExtendedBlock page newsize next page') :
    page'.blockAt 0 = page.blockAt 0 := by
  unfold BlockPage.blockAt
  rw [Nat.zero_mul, Nat.zero_mul, h.new, extendPage_pageStart]

theorem ExtendedBlock.block_eq (h : ExtendedBlock page newsize next page')
    (hblock : IsBlock pages id page block) : block = page.pageStart := by
  obtain ⟨i, hi, rfl⟩ := hblock.hblock
  have hsingle := h.reserved
  obtain rfl : i = 0 := by omega
  unfold BlockPage.blockAt
  rw [Nat.zero_mul, Nat.add_zero]

theorem ExtendedBlock.isBlock (h : ExtendedBlock page newsize next page')
    (hblock : IsBlock pages id page block) :
    IsBlock (Function.update pages id (some page')) id page' block where
  hpage := Function.update_self _ _ _
  hblock := by
    have hsame : page'.reserved = page.reserved := by simp [h.new]
    refine ⟨0, by rw [hsame, h.reserved]; exact Nat.one_pos, ?_⟩
    rw [h.blockAt_zero, h.block_eq hblock]
    unfold BlockPage.blockAt
    rw [Nat.zero_mul, Nat.add_zero]

theorem ExtendedBlock.ptrUnalign {p : ℕ}
    (h : ExtendedBlock page newsize next page')
    (hp : p < page.pageStart + page.blockSize)
    (hold : page.ptrUnalign p = page.pageStart)
    (hle : page.pageStart ≤ p) : page'.ptrUnalign p = page.pageStart := by
  have hgrown := h.grown
  have hstart : page'.pageStart = page.pageStart := by simp [h.new]
  have hshift : page'.blockSizeShift = page.blockSizeShift := by
    simp [h.new]
  unfold BlockPage.ptrUnalign pagePtrUnalign at hold ⊢
  dsimp only at hold ⊢
  rw [hstart, hshift]
  split
  · next hne =>
      rw [if_pos hne] at hold
      exact hold
  · rw [Nat.mod_eq_of_lt (by omega)]
    omega

theorem sizeSlices_large (hlarge : newsize ≤ largeObjSizeMax) :
    sizeSlices newsize * segmentSliceSize ≤ largeObjSizeMax := by
  unfold sizeSlices largeObjSizeMax segmentSize segmentSliceSize at *
  omega

theorem ExtendedBlock.ok (h : ExtendedBlock page newsize next page')
    (hok : PageOk page) (hlarge : newsize ≤ largeObjSizeMax) :
    PageOk page' := by
  have hsize : page'.blockSize = sizeSlices newsize * segmentSliceSize := by
    rw [← h.slices, h.new, extendPage_blockSize, extendPage_sliceCount]
  have hstart : page'.pageStart = page.pageStart := by simp [h.new]
  have hslice : page'.sliceStart = page.sliceStart := by simp [h.new]
  have hgrown := h.grown
  have hpos := hok.pos
  constructor
  · have hcount := hok.slices
    rw [h.new, extendPage_sliceCount]
    exact Nat.add_pos_left hcount _
  · omega
  · rw [hsize]
    exact Dvd.dvd.mul_left (by decide) _
  · rw [hstart]
    exact hok.wordStart
  · intro _
    rw [hsize]
    exact sizeSlices_large hlarge
  · intro i hi
    have hsingle : page'.reserved = 1 := by simp [h.new, h.reserved]
    obtain rfl : i = 0 := by omega
    have hfirst : page'.blockAt 0 = page.pageStart := by
      unfold BlockPage.blockAt
      rw [Nat.zero_mul, Nat.add_zero, hstart]
    rw [hfirst, hslice, h.area]
    exact ⟨h.start.ge, le_rfl⟩

theorem ExtendedBlock.startsWhole (h : ExtendedBlock page newsize next page') :
    page'.StartsWhole := by
  intro _ _ _
  simp [h.new, h.start]

theorem BlockPage.sliceStart_lt (hok : PageOk page) :
    page.sliceStart < page.sliceEnd := by
  have hslices := Nat.mul_pos hok.slices (show 0 < segmentSliceSize by decide)
  unfold BlockPage.sliceEnd
  omega

/-- The slices that are added were in no page. -/
theorem ExtendedBlock.layout (h : ExtendedBlock page newsize next page')
    (hlayout : LayoutOk st.pages) (hpage : st.pages id = some page)
    (hlarge : newsize ≤ largeObjSizeMax)
    (hunused : st.Unused id page.sliceEnd
      (page.sliceEnd + next * segmentSliceSize)) :
    LayoutOk (Function.update st.pages id (some page')) := by
  have hslice : page'.sliceStart = page.sliceStart := by simp [h.new]
  apply hlayout.addPage (h.ok (hlayout.ok id page hpage) hlarge) h.startsWhole
  intro id' other hne hother
  have hapart := hlayout.apart id id' page other hne.symm hpage hother
  have hfree := hunused id' other hne hother
  have hlt := BlockPage.sliceStart_lt (hlayout.ok id' other hother)
  obtain ⟨hlo, hhi⟩ := h.sliceEnd
  rw [hslice]
  omega

end Extension

/-! ## Steps -/

namespace HeapOk

theorem start (b : BlockBuild) (mem : Mem) : HeapOk b (BlockHeap.start mem) :=
  ⟨⟨fun _ _ h => (nomatch h), fun _ _ _ _ _ h => (nomatch h),
      fun _ _ h => (nomatch h)⟩,
    List.nodup_nil, fun _ h => (nomatch h), fun _ h => (nomatch h)⟩

theorem pageUsableSizeOf_plain (hb : b.padding = false) (mem : Mem)
    (page : BlockPage) (block : ℕ) :
    pageUsableSizeOf b mem page block = page.blockSize := by
  unfold pageUsableSizeOf usableBlockSize BlockBuild.paddingSize
  simp [hb]

/-- The page of one object is extended, and holds no other. -/
theorem extend (h : HeapOk b st) (hb : b.padding = false) (ho : o ∈ st.live)
    (hpage : st.pages o.page = some page) (hhuge : page.isHuge = false)
    {size : ℕ} (hextends : ReallocExtends page size newsize next commit)
    (hunused : st.Unused o.page page.sliceEnd
      (page.sliceEnd + next * segmentSliceSize))
    (hfits : st.SingleBlockFits o newsize) :
    HeapOk b (reallocExtend b st o page newsize zero) := by
  obtain ⟨same, hsame, hsingle, hroom⟩ := hfits
  obtain rfl := Option.some.inj (hsame.symm.trans hpage)
  have hok := h.layout.ok o.page same hpage
  have hext := extendPage_extendedBlock hok (h.layout.single o.page same hpage)
    hhuge hsingle hextends
  have hlayout := hext.layout h.layout hpage hextends.2.1 hunused
  set page' := extendPage same (needSlices same newsize) with hpage'
  obtain ⟨usable, hobject⟩ := h.object ho hpage
  have hblock := hext.block_eq hobject.toIsBlock
  -- another block in use is in another page
  have hother : ∀ slot block, slot ∈ st.slots → slot ≠ o.slot →
      IsBlock st.pages slot.1 block slot.2 → slot.1 ≠ o.page := by
    intro slot p hslot hne hold heq
    rw [heq] at hold
    obtain rfl := Option.some.inj (hold.hpage.symm.trans hpage)
    exact hne (Prod.ext heq ((hext.block_eq hold).trans hblock.symm))
  have hnodup := (slots_erase ho).nodup_iff.mp h.nodup
  have hunique : ∀ slot, slot ∈ (st.live.erase o).map HeapObject.slot ++
      st.delayed → slot ≠ o.slot := by
    rintro slot hslot rfl
    exact (List.nodup_cons.mp hnodup).1 hslot
  have hkept : ∀ id, id ≠ o.page →
      Function.update st.pages o.page (some page') id = st.pages id :=
    fun id hne => Function.update_of_ne hne _ _
  refine ⟨hlayout, hnodup, ?_, ?_⟩
  · intro d hd
    obtain ⟨p, hp⟩ := h.delayed d hd
    have hne := hother d p (List.mem_append_right _ hd)
      (hunique d (List.mem_append_right _ hd)) hp
    exact ⟨p, hp.congr (hkept d.1 hne)⟩
  · intro other hmem
    rcases List.mem_cons.mp hmem with rfl | hmem
    · have hgrown := hext.grown
      have hge := hobject.ptr_ge
      have hlt := hobject.ptr_lt
      refine ⟨page', _, hext.isBlock hobject.toIsBlock,
        pageUsableSizeOf_plain hb _ _ _, hge, ?_, ?_, ?_, ?_⟩
      · show o.ptr < o.block + page'.blockSize
        omega
      · intro p hlo hhi
        change p ≤ o.ptr at hhi
        change o.block ≤ p at hlo
        change page'.ptrUnalign p = o.block
        rw [hblock] at hlo hlt ⊢
        apply hext.ptrUnalign (by omega) _ hlo
        rw [← hblock] at hlo ⊢
        exact hobject.unalign p hlo hhi
      · have harea := hext.area
        have hslices := hext.slices
        have hend : page'.sliceEnd = same.sliceStart +
            sizeSlices newsize * segmentSliceSize := by
          unfold BlockPage.sliceEnd
          rw [hslices, hpage', extendPage_sliceStart]
        show o.ptr + newsize ≤ o.block + page'.blockSize
        omega
      · rw [hpage', extendPage_hasAligned]
        exact hobject.aligned
    · obtain ⟨p, u, hold⟩ := h.live other (List.mem_of_mem_erase hmem)
      have hslot := List.mem_append_left st.delayed
        (List.mem_map_of_mem (f := HeapObject.slot) hmem)
      have hne := hother other.slot p
        (slot_mem (List.mem_of_mem_erase hmem)) (hunique _ hslot)
        hold.toIsBlock
      have husable := hold.usable_eq
      rw [pageUsableSizeOf_plain hb] at husable
      refine ⟨p, u, hold.toIsBlock.congr (hkept other.page hne), ?_,
        hold.ptr_ge, hold.ptr_lt, hold.unalign, hold.fits, hold.aligned⟩
      rw [pageUsableSizeOf_plain hb]
      exact husable

/-- A new object whose first bytes are then written. -/
theorem mallocWrite {asked : ℕ} (h : HeapOk b st)
    (hcan : st.CanAlloc id page block (BlockHeap.requestSize b asked))
    (hmem : ChangesOnly block (block + max asked 1)
      (BlockHeap.malloc b st id page block asked zero).mem mem) :
    HeapOk b { BlockHeap.malloc b st id page block asked zero with
      mem := mem } := by
  obtain ⟨hok, ⟨usable, hnew⟩, -⟩ := @malloc _ _ _ _ _ _ zero h hcan
  have hroom := requestSize_room hcan.fits (h.layout.ok id page hcan.hpage)
  exact hok.write hnew (hmem.mono le_rfl (Nat.add_le_add_left hroom block))

/-- The same for an aligned object. -/
theorem mallocAlignedWrite {size alignment offset : ℕ} (h : HeapOk b st)
    (hcan : st.CanAlloc id page block
      (BlockHeap.requestSize b (oversize size alignment)))
    (hpos : 0 < alignment)
    (hreach : ReachesAligned b page block size alignment offset)
    (hmem : ChangesOnly (block + alignAdjust block alignment offset)
      (block + alignAdjust block alignment offset + size)
      (BlockHeap.mallocAligned b st id page block size alignment offset
        zero).mem mem) :
    HeapOk b { BlockHeap.mallocAligned b st id page block size alignment
      offset zero with mem := mem } := by
  have hnew := @AllocOutcome.mallocAligned _ _ _ _ _ _ _ _ zero h hcan hpos
    (h.aligned_room hcan hpos hreach)
  obtain ⟨page', usable, hobject⟩ := hnew.ok.live _ hnew.mem
  have hfits := hobject.fits
  have hle := hobject.usable_le
  dsimp only at hfits
  exact hnew.ok.write hobject (hmem.mono (Nat.le_add_right _ _)
    (hfits.trans (Nat.add_le_add_left hle block)))

theorem step {e : Event} (h : HeapOk b st) (hstep : Step b check st e st')
    (hsound : Extends b check st e → SoundExtension b st e) :
    HeapOk b st' := by
  cases hstep with
  | pageAlloc id addr segment idx sliceCount blockSize isHuge isZeroInit keys
      hid hcount hpos hword hslices hunused =>
      have hok := @blockPageInit_ok addr segment idx sliceCount blockSize
        isHuge isZeroInit keys hcount hpos hword fun hnot => (hslices hnot).1
      have hsingle := @blockPageInit_startsWhole addr segment idx sliceCount
        blockSize isHuge isZeroInit keys hpos fun hnot => (hslices hnot).2
      exact h.setPage (h.noSlot hid) (h.layout.addPage hok hsingle hunused)
  | pageFree id hid => exact h.setPage hid h.layout.removePage
  | pageRetire id page hid hpage =>
      have hsame : SameBlocks page { page with hasAligned := false } := rfl
      exact h.setPage hid (hsame.layout hpage h.layout)
  | pageCollect id page hpage => exact h.setFlags hpage rfl fun hflag => hflag
  | interfere mem hlive => exact (BackgroundStep.keeps h (.write mem hlive)).1
  | write o mem ho hmem =>
      obtain ⟨page, usable, hobject⟩ := h.live o ho
      have hfits := hobject.fits
      have hle := hobject.usable_le
      exact h.write hobject (hmem.mono hobject.ptr_ge (by omega))
  | malloc asked zero hcan => exact (h.malloc hcan).1
  | mallocAligned size alignment offset zero hpos hpow hcan hreach =>
      exact (AllocOutcome.mallocAligned h hcan hpos
        (h.aligned_room hcan hpos hreach)).ok
  | reallocInPlace o newsize next commit ho hpage hfits =>
      exact h.reask ho hpage (hfits.1.trans paUsableSize_le)
  | reallocExtend o newsize next commit zero ho hpage hhuge haccepted
      hextends hunused =>
      obtain ⟨hb, hfits⟩ := hsound ⟨_, hpage, hextends⟩
      exact h.extend hb ho hpage hhuge hextends hunused hfits
  | reallocCopy o newsize next commit zero ho hpage hfits hextends hcan =>
      exact h.mallocWrite hcan reallocContent_changesOnly
  | reallocNull newsize zero hcan =>
      exact h.mallocWrite hcan reallocContent_changesOnly
  | reallocAlignedInPlace o newsize alignment offset ho hpage hfits =>
      exact h.reask ho hpage (hfits.1.trans paUsableSize_le)
  | reallocAlignedCopy o newsize alignment offset zero ho hpage hfits hcan =>
      exact h.mallocWrite hcan
        (reallocAlignedContent_changesOnly.mono le_rfl (by omega))
  | reallocOveralignedCopy o newsize alignment offset zero hpos hpow ho hpage
      hfits hcan hreach =>
      exact h.mallocAlignedWrite hcan hpos hreach
        reallocAlignedContent_changesOnly
  | freeLocal o p link ho hpage haccepted hp =>
      obtain ⟨usable, hobject⟩ := h.object ho hpage
      rw [hobject.unalign_ptr] at hp
      rw [hobject.blockOf hp]
      exact h.remove ho hpage (freedLocal_changesOnly
        (h.layout.ok o.page _ hpage).eight_le) false
  | freeMt o link useDelayed mem ho hpage haccepted hmem =>
      obtain ⟨usable, hobject⟩ := h.object ho hpage
      have hok := h.layout.ok o.page _ hpage
      rw [hobject.unalign_ptr] at hmem ⊢
      exact h.remove ho hpage ((freedContent_changesOnly hok hmem).trans
        (store_changesOnly.mono le_rfl (by have := hok.eight_le; omega)))
        useDelayed
  | freeRefused o ho hrefused => exact h
  | freeDelayed d link hd hpage => exact h.freeDelayed hd hpage

end HeapOk

theorem BlockHeap.SoundRuns.heapOk
    (hrun : SoundRuns b check (BlockHeap.start mem) st) : HeapOk b st := by
  induction hrun with
  | refl => exact HeapOk.start b mem
  | tail _ hstep ih =>
      obtain ⟨e, hstep, hsound⟩ := hstep
      exact ih.step hstep hsound

end Palloc
