import Palloc.AlignedAllocation

/-!
# What an allocation leaves behind

An allocation returns a new object in a block that was not in use, or nothing,
and keeps every other object.  This is shown for the allocation without
alignment and for the four ways of the aligned one.
-/

namespace Palloc

open ByteMemory BlockHeap

variable {b : BlockBuild} (layer : PageLayer b)

/-! ## Outcomes -/

section Outcome

variable {st st' st₁ : BlockHeap} {id block size alignment offset : ℕ}
variable {page : BlockPage} {zero : Bool} {result : Option HeapObject}
variable {o : HeapObject}

/-- An allocation of `size` bytes returned a new object or nothing, and every
other object is kept. -/
structure AllocOutcome (b : BlockBuild) (st : BlockHeap) (size : ℕ)
    (result : Option HeapObject) (st' : BlockHeap) : Prop where
  ok : HeapOk b st'
  live : st'.live = result.toList ++ st.live
  asked : ∀ o, result = some o → o.asked = size
  kept : ∀ o ∈ st.live, ObjectKept b st st' o

namespace AllocOutcome

theorem mem (h : AllocOutcome b st size (some o) st') : o ∈ st'.live := by
  rw [h.live]
  exact List.mem_cons_self

theorem slot_ne (h : AllocOutcome b st size (some o) st') {other : HeapObject}
    (hother : other ∈ st.live) : other.slot ≠ o.slot := by
  have hnodup := (List.nodup_append.mp h.ok.nodup).1
  have hlive : st'.live = o :: st.live := h.live
  rw [hlive, List.map_cons, List.nodup_cons] at hnodup
  intro heq
  apply hnodup.1
  rw [← heq]
  exact List.mem_map_of_mem hother

theorem failed (h : HeapOk b st) : AllocOutcome b st size none st :=
  ⟨h, rfl, fun _ ho => (nomatch ho), fun o _ => .refl b st o⟩

theorem after (hok : HeapOk b st) (hback : Background st st₁)
    (h : AllocOutcome b st₁ size result st') :
    AllocOutcome b st size result st' := by
  obtain ⟨-, hlive, hkept⟩ := hback.keeps hok
  refine ⟨h.ok, ?_, h.asked, ?_⟩
  · rw [h.live, hlive]
  · intro o ho
    obtain ⟨page, usable, hobject⟩ := hok.live o ho
    exact (hkept o ho).trans hobject (h.kept o (by rw [hlive]; exact ho))

theorem malloc (h : HeapOk b st)
    (hcan : st.CanAlloc id page block (BlockHeap.requestSize b size)) :
    AllocOutcome b st size (some ⟨id, block, block, size⟩)
      (malloc b st id page block size zero) := by
  obtain ⟨hok, ⟨usable, hnew⟩, hmem⟩ := @HeapOk.malloc b st id block size
    page zero h hcan
  refine ⟨hok, rfl, ?_, ?_⟩
  · intro o ho
    obtain rfl := Option.some.inj ho
    rfl
  · intro o ho
    have hne := HeapOk.slot_ne_new hcan ho
    exact h.kept_other ho hcan.isBlock hne rfl hmem

end AllocOutcome

/-- The new block of an aligned object, before it is zeroed. -/
theorem mallocAligned_block (h : HeapOk b st)
    (hcan : st.CanAlloc id page block
      (BlockHeap.requestSize b (oversize size alignment)))
    (hpos : 0 < alignment)
    (hroom : alignAdjust block alignment offset + size ≤
      usableBlockSize b page) :
    let adjust := alignAdjust block alignment offset
    let mem := finishAlloc b st.mem page block
      (BlockHeap.requestSize b (oversize size alignment)) zero
    let mem' :=
      if adjust = 0 then mem
      else paddingShrink b mem page block (adjust + size)
    adjust + size ≤ pageUsableSizeOf b mem' page block ∧
      ChangesOnly block (block + page.blockSize) st.mem mem' := by
  have hok := h.layout.ok id page hcan.hpage
  have hover := le_oversize size alignment hpos
  have hfinish := @finishAlloc_changesOnly b st.mem page block
    (BlockHeap.requestSize b (oversize size alignment)) zero hok.eight_le
  dsimp only
  split
  · next hzero =>
      have husable := @finishAlloc_usable b st.mem block
        (oversize size alignment) page zero hok hcan.fits
      exact ⟨by omega, hfinish⟩
  · refine ⟨?_, hfinish.trans (paddingShrink_changesOnly hok.eight_le)⟩
    apply paddingShrink_usable hok hroom
    intro hb
    exact ⟨_, finishPadding_padded hb hok.eight_le hok.small⟩

/-- The block of an aligned object reaches behind it. -/
theorem HeapOk.aligned_room (h : HeapOk b st)
    (hcan : st.CanAlloc id page block
      (BlockHeap.requestSize b (oversize size alignment)))
    (hpos : 0 < alignment)
    (hreach : ReachesAligned b page block size alignment offset) :
    alignAdjust block alignment offset + max size 1 ≤
      usableBlockSize b page := by
  have hover := le_oversize size alignment hpos
  by_cases hlarge : blockAlignmentMax < alignment
  · obtain ⟨-, -, hroom⟩ := hreach hlarge
    omega
  · have hroom := requestSize_room hcan.fits (h.layout.ok id page hcan.hpage)
    have hadjust := @adjust_add_le_oversize block alignment offset size hpos
      hlarge
    omega

/-- An object that starts `adjust` bytes behind the start of its new block. -/
theorem alignedObject {mem : Mem} {page' : BlockPage} {adjust request : ℕ}
    (hcan : st.CanAlloc id page block request)
    (hsame : SameBlocks page page') (hlt : adjust < page.blockSize)
    (hfits : adjust + size ≤ pageUsableSizeOf b mem page block)
    (hflag : page'.hasAligned = false → adjust = 0) :
    LiveObject b mem (Function.update st.pages id (some page'))
      ⟨id, block, block + adjust, size⟩ page'
      (pageUsableSizeOf b mem page block) := by
  have husable : pageUsableSizeOf b mem page' block =
      pageUsableSizeOf b mem page block := by
    rw [hsame]
    rfl
  have hsize : page'.blockSize = page.blockSize := by rw [hsame]
  refine ⟨hsame.isBlock hcan.isBlock, husable, ?_, ?_, ?_, ?_, ?_⟩
  · exact Nat.le_add_right _ _
  · show block + adjust < block + page'.blockSize
    omega
  · intro p hlo hhi
    change p ≤ block + adjust at hhi
    rw [hsame]
    exact hcan.isBlock.ptrUnalign hcan.whole hlo (by omega)
  · show block + adjust + size ≤ block + _
    omega
  · intro haligned
    show block + adjust = block
    rw [hflag haligned, Nat.add_zero]

theorem AllocOutcome.mallocAligned (h : HeapOk b st)
    (hcan : st.CanAlloc id page block
      (BlockHeap.requestSize b (oversize size alignment)))
    (hpos : 0 < alignment)
    (hroom : alignAdjust block alignment offset + max size 1 ≤
      usableBlockSize b page) :
    AllocOutcome b st size
      (some ⟨id, block, block + alignAdjust block alignment offset, size⟩)
      (mallocAligned b st id page block size alignment offset zero) := by
  obtain ⟨hfits, hchange⟩ := @mallocAligned_block b st id block size
    alignment offset page (zero && !decide (blockAlignmentMax < alignment))
    h hcan hpos (by omega)
  have hle := usableBlockSize_le b page
  unfold BlockHeap.mallocAligned
  dsimp only at hfits hchange ⊢
  generalize alignAdjust block alignment offset = adjust
    at hfits hchange hroom ⊢
  generalize hpage' : (if adjust = 0 then page
    else { page with hasAligned := true }) = page'
  generalize (if adjust = 0 then finishAlloc b st.mem page block
      (BlockHeap.requestSize b (oversize size alignment))
      (zero && !decide (blockAlignmentMax < alignment))
    else paddingShrink b (finishAlloc b st.mem page block
      (BlockHeap.requestSize b (oversize size alignment))
      (zero && !decide (blockAlignmentMax < alignment))) page block
      (adjust + size)) = mem₂ at hfits hchange ⊢
  have hsame : SameBlocks page page' := by
    rw [← hpage']
    split <;> rfl
  have hsize : page'.blockSize = page.blockSize := by rw [hsame]
  have hflag : page'.hasAligned = false →
      page.hasAligned = false ∧ adjust = 0 := by
    rw [← hpage']
    split
    · next hzero => exact fun hold => ⟨hold, hzero⟩
    · exact fun hset => absurd hset.symm Bool.false_ne_true
  have hset := h.setFlags hcan.hpage hsame fun haligned => (hflag haligned).1
  set st₁ : BlockHeap :=
    { st with pages := Function.update st.pages id (some page') } with hst₁
  set new : HeapObject := ⟨id, block, block + adjust, size⟩ with hnewDef
  have hobject₂ : LiveObject b mem₂ st₁.pages new page'
      (pageUsableSizeOf b mem₂ page block) :=
    alignedObject hcan hsame (by omega) hfits fun haligned =>
      (hflag haligned).2
  have husable : usableSize b mem₂ page' (block + adjust) =
      pageUsableSizeOf b mem₂ page block - (block + adjust - block) :=
    hobject₂.usableSize
  have hfill : ChangesOnly block (block + usableBlockSize b page) mem₂
      (if blockAlignmentMax < alignment ∧ zero = true then
        fill mem₂ (block + adjust)
          (usableSize b mem₂ page' (block + adjust)) 0
      else mem₂) := by
    have hbound := pageUsableSizeOf_le b mem₂ page block
    split
    · rw [husable]
      exact fill_changesOnly.mono (by omega) (by omega)
    · exact ChangesOnly.refl _ _ mem₂
  generalize (if blockAlignmentMax < alignment ∧ zero = true then
    fill mem₂ (block + adjust) (usableSize b mem₂ page' (block + adjust)) 0
    else mem₂) = mem₃ at hfill ⊢
  have hbsize : usableBlockSize b page' = usableBlockSize b page := by
    rw [hsame]
    rfl
  have hobject₃ : LiveObject b mem₃ st₁.pages new page'
      (pageUsableSizeOf b mem₂ page block) := by
    apply hobject₂.congr hset.layout
    rw [hbsize]
    exact hfill.sameOn (Or.inr le_rfl)
  have hmem : ChangesOnly block (block + page'.blockSize) st.mem mem₃ := by
    rw [hsize]
    exact hchange.trans (hfill.mono le_rfl (by omega))
  refine ⟨hset.insert hcan.unused hmem hobject₃, rfl, ?_, ?_⟩
  · intro o ho
    obtain rfl := Option.some.inj ho
    rfl
  · intro o ho
    obtain ⟨p, usable, hobject⟩ := h.live o ho
    have hne := HeapOk.slot_ne_new hcan ho
    have hflags : ObjectKept b st st₁ o :=
      hsame.kept hcan.hpage (fun haligned => (hflag haligned).1) rfl rfl
    exact hflags.trans hobject (hset.kept_other ho hobject₃.toIsBlock hne rfl
      hmem)

end Outcome

/-! ## The four ways -/

section Paths

variable {st st' : BlockHeap} {size alignment offset k : ℕ} {zero : Bool}

theorem heapMallocZero_outcome (size : ℕ) (zero : Bool)
    (h : HeapOk b st) :
    AllocOutcome b st size (heapMallocZero layer st size zero).1
        (heapMallocZero layer st size zero).2 ∧
      ∀ o, (heapMallocZero layer st size zero).1 = some o →
        o.ptr = o.block := by
  have hback := layer.prepare_background st (BlockHeap.requestSize b size) h
  obtain ⟨hok, -, -⟩ := hback.keeps h
  unfold heapMallocZero
  dsimp only
  split
  · exact ⟨(AllocOutcome.failed hok).after h hback,
      fun _ ho => (nomatch ho)⟩
  · next id page block hanswer =>
      have hcan := layer.alloc_canAlloc _ _ id page block hok hanswer
      refine ⟨(AllocOutcome.malloc hok hcan).after h hback, ?_⟩
      intro o ho
      obtain rfl := Option.some.inj ho
      rfl

theorem segmentSize_dvd (hlarge : blockAlignmentMax < 2 ^ k) :
    segmentSize ∣ 2 ^ k := by
  have hk : 24 < k := by
    apply (Nat.pow_lt_pow_iff_right (a := 2) (by decide)).mp
    exact lt_of_le_of_lt (by decide) hlarge
  exact pow_dvd_pow 2 (show 25 ≤ k by omega)

theorem le_requestSize (b : BlockBuild) (asked : ℕ) :
    asked + b.paddingSize ≤ BlockHeap.requestSize b asked := by
  unfold BlockHeap.requestSize
  split <;> omega

/-- The page of a huge segment joins the heap, and its block reaches behind
the aligned address. -/
theorem hugePage_outcome (h : HeapOk b st)
    (hlarge : blockAlignmentMax < 2 ^ k) {area : HugeArea}
    (harea : layer.osAlloc st (hugeOsSize layer size (2 ^ k)) (2 ^ k) =
      some area) :
    let page := segmentHugePageAlloc b layer.sizes
      (hugeBlockSize layer size (2 ^ k)) (2 ^ k) area
    let st₁ : BlockHeap :=
      { st with pages := Function.update st.pages area.id (some page) }
    Background st st₁ ∧
      st₁.CanAlloc area.id page page.pageStart
        (BlockHeap.requestSize b (oversize size (2 ^ k))) ∧
      alignAdjust page.pageStart (2 ^ k) 0 + max size 1 ≤
        usableBlockSize b page := by
  intro page st₁
  obtain ⟨hstart, hid, hfree⟩ := layer.osAlloc_fresh st _ _ area harea
  set large := oversize size (2 ^ k) with hover
  have hrequest : BlockHeap.requestSize b large ≤
      hugeBlockSize layer size (2 ^ k) :=
    le_osGoodAllocSize layer.osPageSize_pos _
  have hask := le_requestSize b large
  have hoverPos : max size 1 ≤ large := by
    rw [hover]
    unfold oversize
    rw [if_pos hlarge]
    split
    · next hsmall => exact Nat.max_le.mpr ⟨by omega, by omega⟩
    · next hnot => exact Nat.max_le.mpr ⟨le_rfl, by omega⟩
  have hpage : HugePageOk b layer.sizes (hugeBlockSize layer size (2 ^ k))
      (2 ^ k) area page :=
    segmentHugePageAlloc_ok layer.osPageSize_pos (by omega)
      (segmentSize_dvd hlarge) hstart
  have hroom := hpage.room
  have hlayout : LayoutOk st₁.pages := by
    apply h.layout.addPage hpage.ok
      fun hhuge => nomatch hpage.isHuge.symm.trans hhuge
    intro id' page' _ hpage'
    have hlo := hpage.start_le
    have hhi : page.sliceEnd ≤
        area.start + hugeOsSize layer size (2 ^ k) := hpage.end_le
    rcases hfree id' page' hpage' with hbefore | hafter
    · left
      omega
    · right
      omega
  refine ⟨.single (.page area.id (some page) (h.noSlot hid) hlayout),
    ⟨Function.update_self _ _ _, ⟨0, ?_, ?_⟩, h.noSlot hid _, by omega, ?_,
      hpage.whole⟩, ?_⟩
  · rw [hpage.reserved]
    decide
  · unfold BlockPage.blockAt
    rw [Nat.zero_mul, Nat.add_zero]
  · intro hhuge
    rw [hpage.isHuge] at hhuge
    exact nomatch hhuge
  · unfold usableBlockSize
    omega

theorem mallocAlignedOveralloc_outcome (size k offset : ℕ) (zero : Bool)
    (h : HeapOk b st) :
    AllocOutcome b st size
        (mallocAlignedOveralloc layer st size (2 ^ k) offset zero).1
        (mallocAlignedOveralloc layer st size (2 ^ k) offset zero).2 ∧
      ∀ o, (mallocAlignedOveralloc layer st size (2 ^ k) offset zero).1 =
        some o → AlignedAt (2 ^ k) offset o := by
  have hpos : 0 < 2 ^ k := Nat.two_pow_pos k
  have haligned : ∀ id block, AlignedAt (2 ^ k) offset
      ⟨id, block, block + alignAdjust block (2 ^ k) offset, size⟩ := by
    intro id block
    obtain ⟨hlt, hdvd⟩ := alignAdjust_spec block offset k
    exact ⟨hdvd, Nat.add_lt_add_left hlt block⟩
  have hback := layer.prepare_background st
    (BlockHeap.requestSize b (oversize size (2 ^ k))) h
  obtain ⟨hok, -, -⟩ := hback.keeps h
  unfold mallocAlignedOveralloc
  dsimp only
  split
  · next hlarge =>
      split
      · exact ⟨.failed h, fun _ ho => (nomatch ho)⟩
      · next hoffset =>
          obtain rfl : offset = 0 := not_not.mp hoffset
          split
          · exact ⟨(AllocOutcome.failed hok).after h hback,
              fun _ ho => (nomatch ho)⟩
          · next area harea =>
              obtain ⟨hadd, hcan, hroom⟩ :=
                hugePage_outcome layer hok hlarge harea
              obtain ⟨hok', -, -⟩ := hadd.keeps hok
              have hnew := @AllocOutcome.mallocAligned _ _ _ _ _ _ _ _ zero
                hok' hcan hpos hroom
              refine ⟨(hnew.after hok hadd).after h hback, ?_⟩
              intro o ho
              obtain rfl := Option.some.inj ho
              exact haligned _ _
  · next hsmall =>
      split
      · exact ⟨(AllocOutcome.failed hok).after h hback,
          fun _ ho => (nomatch ho)⟩
      · next id page block hanswer =>
          have hcan := layer.alloc_canAlloc _ _ id page block hok hanswer
          have hnew := @AllocOutcome.mallocAligned _ _ _ _ _ _ offset _ zero
            hok hcan hpos (hok.aligned_room hcan hpos
              fun hlarge => absurd hlarge hsmall)
          refine ⟨hnew.after h hback, ?_⟩
          intro o ho
          obtain rfl := Option.some.inj ho
          exact haligned _ _

theorem AllocOutcome.pageOf {o : HeapObject}
    (h : AllocOutcome b st size (some o) st') :
    ∃ page usable, LiveObject b st'.mem st'.pages o page usable :=
  h.ok.live o h.mem

/-- A new object that is given back leaves the heap as it was for the other
objects. -/
theorem AllocOutcome.undo {o : HeapObject} {check : Bool}
    (h : HeapOk b st) (hnew : AllocOutcome b st size (some o) st')
    (hcheck : ptrAccepted check o.ptr = true) (kind : FreeKind) :
    HeapOk b (paFree b check st' o kind) ∧
      (paFree b check st' o kind).live = st.live ∧
      ∀ o' ∈ st.live, ObjectKept b st (paFree b check st' o kind) o' := by
  obtain ⟨page, usable, hobject⟩ := hnew.pageOf
  obtain ⟨hok, -, hlive, -⟩ :=
    hnew.ok.paFree hnew.mem hobject.hpage hcheck kind
  have hcons : st'.live = o :: st.live := hnew.live
  refine ⟨hok, ?_, ?_⟩
  · rw [hlive, hcons, List.erase_cons_head]
  · intro o' ho'
    obtain ⟨p, u, hold⟩ := h.live o' ho'
    have hne : o' ≠ o := by
      rintro rfl
      exact hnew.slot_ne ho' rfl
    have hmem : o' ∈ st'.live := by
      rw [hcons]
      exact List.mem_cons_of_mem o ho'
    exact (hnew.kept o' ho').trans hold
      (hnew.ok.paFree_kept hnew.mem hcheck kind hmem hne)

theorem mallocAlignedGeneric_outcome (check : Bool) (size k offset : ℕ)
    (zero : Bool) (h : HeapOk b st) :
    AllocOutcome b st size
        (mallocAlignedGeneric layer check st size (2 ^ k) offset zero).1
        (mallocAlignedGeneric layer check st size (2 ^ k) offset zero).2 ∧
      ∀ o, (mallocAlignedGeneric layer check st size (2 ^ k) offset zero).1 =
        some o → AlignedAt (2 ^ k) offset o := by
  obtain ⟨hmalloc, hblock⟩ := heapMallocZero_outcome layer size zero h
  unfold mallocAlignedGeneric
  split
  · exact ⟨.failed h, fun _ ho => (nomatch ho)⟩
  · split
    · next hnatural =>
        obtain rfl : offset = 0 := hnatural.1
        split
        · next st₁ hanswer =>
            rw [hanswer] at hmalloc
            exact ⟨hmalloc, fun _ ho => (nomatch ho)⟩
        · next o st₁ hanswer =>
            rw [hanswer] at hmalloc hblock
            have hptr : o.ptr = o.block := hblock o rfl
            split
            · next haligned =>
                refine ⟨hmalloc, ?_⟩
                intro o' ho'
                obtain rfl := Option.some.inj ho'
                refine ⟨aligned_iff.mp haligned, ?_⟩
                rw [hptr]
                exact Nat.lt_add_of_pos_right (Nat.two_pow_pos k)
            · obtain ⟨page, usable, hobject⟩ := hmalloc.pageOf
              have hcheck : ptrAccepted check o.ptr = true := by
                rw [ptrAccepted_iff, hptr]
                exact Or.inr (hobject.toIsBlock.word hmalloc.ok.layout)
              obtain ⟨hok, hlive, hkept⟩ := AllocOutcome.undo h hmalloc
                hcheck (layer.freeKind st₁ o)
              have hsettle := layer.settle_background
                (paFree b check st₁ o (layer.freeKind st₁ o)) hok
              obtain ⟨hok', hlive', hkept'⟩ := hsettle.keeps hok
              obtain ⟨hover, haligned⟩ := mallocAlignedOveralloc_outcome
                layer size k 0 zero hok'
              refine ⟨⟨hover.ok, ?_, hover.asked, ?_⟩, haligned⟩
              · rw [hover.live, hlive', hlive]
              · intro o' ho'
                obtain ⟨p, u, hold⟩ := h.live o' ho'
                have hback : ObjectKept b st (layer.settle
                    (paFree b check st₁ o (layer.freeKind st₁ o))) o' :=
                  (hkept o' ho').trans hold
                    (hkept' o' (by rw [hlive]; exact ho'))
                exact hback.trans hold
                  (hover.kept o' (by rw [hlive', hlive]; exact ho'))
    · exact mallocAlignedOveralloc_outcome layer size k offset zero h

/-- Every result is a new object at an aligned address. -/
theorem heapMallocZeroAlignedAt_outcome (check : Bool)
    (size alignment offset : ℕ) (zero : Bool) (h : HeapOk b st) :
    AllocOutcome b st size
        (heapMallocZeroAlignedAt layer check st size alignment offset zero).1
        (heapMallocZeroAlignedAt layer check st size alignment offset
          zero).2 ∧
      ∀ o, (heapMallocZeroAlignedAt layer check st size alignment offset
        zero).1 = some o → AlignedAt alignment offset o := by
  unfold heapMallocZeroAlignedAt
  split
  · exact ⟨.failed h, fun _ ho => (nomatch ho)⟩
  · next hadmitted =>
      obtain ⟨hne, hpow⟩ := not_or.mp hadmitted
      obtain ⟨k, rfl⟩ := MachineWord.exists_pow_of_and_pred
        (Nat.pos_of_ne_zero hne) (not_not.mp hpow)
      have hgeneric := mallocAlignedGeneric_outcome layer check size k
        offset zero h
      split
      · next hsmall =>
          split
          · next id page block hanswer =>
              split
              · next haligned =>
                  have hpos := Nat.two_pow_pos k
                  have hrequest : size + b.paddingSize =
                      BlockHeap.requestSize b size := by
                    unfold BlockHeap.requestSize
                    rw [if_neg (fun hzero => by omega)]
                  have hcan := layer.smallFree_canAlloc _ _ id page block h
                    hanswer
                  rw [hrequest] at hcan
                  refine ⟨AllocOutcome.malloc h hcan, ?_⟩
                  intro o ho
                  obtain rfl := Option.some.inj ho
                  exact ⟨aligned_iff.mp haligned,
                    Nat.lt_add_of_pos_right hpos⟩
              · exact hgeneric
          · exact hgeneric
      · exact hgeneric

end Paths

end Palloc
