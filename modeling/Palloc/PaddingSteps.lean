import Palloc.PaddingInvariant

/-!
# Operations keep the padding in order

The invariant of the heap is that every block in use has its padding in order.
An operation inserts a block, writes below the end of an object, removes a
block, or changes a page; each of the four keeps the invariant, and the
operations of the allocator are put together from them.
-/

namespace Palloc

open ByteMemory BlockHeap

variable {b : BlockBuild} {st st' : BlockHeap} {mem mem' : Mem}
variable {pages : ℕ → Option BlockPage}
variable {id block usable asked : ℕ} {page page' : BlockPage}
variable {o : HeapObject} {zero : Bool}

structure PaddingOk (b : BlockBuild) (st : BlockHeap) : Prop where
  layout : LayoutOk st.pages
  nodup : st.slots.Nodup
  live : ∀ o ∈ st.live, ObjectOk b st.mem st.pages o
  delayed : ∀ d ∈ st.delayed, DelayedOk b st.mem st.pages d

/-! ## The record of a new block -/

theorem le_of_bin_eq {size blockSize : ℕ} (hlo : 8 < size) (hhi : size ≤ 16)
    (hbin : bin blockSize = bin size) : blockSize ≤ 16 := by
  have hsize : bin size = 2 := by
    have hwsize : wsizeFromSize size = 2 := by
      unfold wsizeFromSize intptrSize
      omega
    unfold bin
    rw [hwsize]
    rfl
  rw [hsize] at hbin
  unfold bin at hbin
  dsimp only at hbin
  have hwsize : wsizeFromSize blockSize ≤ 2 → blockSize ≤ 16 := by
    unfold wsizeFromSize intptrSize
    omega
  apply hwsize
  split at hbin
  · split at hbin <;> omega
  · split at hbin
    · exact absurd hbin (by decide)
    · have hlog : 3 ≤ Nat.log2 (wsizeFromSize blockSize - 1) := by
        rw [Nat.le_log2 (by omega)]
        omega
      rw [Nat.shiftLeft_eq] at hbin
      omega

theorem requestSize_eq (hb : b.padding = true) :
    BlockHeap.requestSize b asked = (if asked = 0 then 8 else asked) + 8 := by
  unfold BlockHeap.requestSize BlockBuild.paddingSize intptrSize
  rw [hb]
  simp

theorem BlockHeap.CanAlloc.isBlock {size : ℕ}
    (h : st.CanAlloc id page block size) :
    IsBlock st.pages id page block :=
  ⟨h.hpage, h.hblock⟩

theorem finishAlloc_inUse (hb : b.padding = true)
    (hlayout : LayoutOk st.pages)
    (hcan : st.CanAlloc id page block (BlockHeap.requestSize b asked)) :
    ∃ usable, InUse b
        (finishAlloc b st.mem page block (BlockHeap.requestSize b asked) zero)
        st.pages id page block usable ∧
      max asked 1 ≤ usable := by
  have hok := hlayout.ok id page hcan.hpage
  have hfits := hcan.fits
  have hrequest := @requestSize_eq b asked hb
  have hask : max asked 1 ≤ if asked = 0 then 8 else asked := by
    split <;> omega
  generalize hneed : (if asked = 0 then 8 else asked) = need
    at hrequest hask
  have hsize := usableBlockSize_add hb hok.eight_le
  have hword : 16 ≤ page.blockSize := by
    obtain ⟨k, hk⟩ := hok.word
    unfold intptrSize at hk
    omega
  have hle := le_storedUsable hb hfits
  rw [hrequest, Nat.add_sub_cancel] at hle
  have hpadded := @finishPadding_padded b
    (finishContent b st.mem page block zero) page block
    (BlockHeap.requestSize b asked) hb hok.eight_le hok.small
  rw [hrequest, Nat.add_sub_cancel] at hpadded
  rw [← hrequest] at hpadded
  refine ⟨_, ⟨hcan.isBlock, hcan.whole, hpadded, by omega, ?_⟩,
    hask.trans hle⟩
  cases hhuge : page.isHuge with
  | true => exact Or.inl rfl
  | false =>
      right
      by_cases hneed8 : 8 ≤ need
      · exact Or.inl (hneed8.trans hle)
      · have hmedium : BlockHeap.requestSize b asked ≤ mediumObjSizeMax :=
          (show _ ≤ 16 by omega).trans (by decide)
        have hblock := @le_of_bin_eq
          (BlockHeap.requestSize b asked) page.blockSize
          (by omega) (by omega) (hcan.hbin hhuge hmedium)
        exact Or.inr (by omega)

/-! ## One block changes -/

namespace PaddingOk

/-- A new object in a block that was not in use. -/
theorem insert (hb : b.padding = true) (h : PaddingOk b st)
    (hblock : IsBlock st.pages id page block)
    (hunused : (id, block) ∉ st.slots)
    (hmem : ChangesOnly block (block + page.blockSize) st.mem mem)
    (hslot : o.slot = (id, block)) (hnew : ObjectOk b mem st.pages o) :
    PaddingOk b { st with mem := mem, live := o :: st.live } := by
  have hne : ∀ slot ∈ st.slots, slot ≠ (id, block) := by
    rintro slot hslot rfl
    exact hunused hslot
  constructor
  · exact h.layout
  · show (o.slot :: st.slots).Nodup
    rw [hslot]
    exact List.nodup_cons.mpr ⟨hunused, h.nodup⟩
  · intro other hother
    rcases List.mem_cons.mp hother with rfl | hold
    · exact hnew
    · have hmem' : other.slot ∈ st.slots :=
        List.mem_append_left _ (List.mem_map_of_mem hold)
      exact (h.live other hold).other hb h.layout hblock (hne _ hmem') hmem
  · intro d hd
    have hmem' : d ∈ st.slots := List.mem_append_right _ hd
    exact (h.delayed d hd).other hb h.layout hblock (hne _ hmem') hmem

theorem write (hb : b.padding = true) (h : PaddingOk b st)
    (huse : InUse b st.mem st.pages id page block usable)
    (hmem : ChangesOnly block (block + usable) st.mem mem) :
    PaddingOk b { st with mem := mem } := by
  have hle := (huse.usable_lt hb h.layout).le
  have hkeep : ∀ {id' block' usable' : ℕ} {page' : BlockPage},
      InUse b st.mem st.pages id' page' block' usable' →
      InUse b mem st.pages id' page' block' usable' := by
    intro id' block' usable' page' hother
    by_cases heq : (id', block') = (id, block)
    · obtain ⟨rfl, rfl⟩ := Prod.mk.inj heq
      obtain ⟨rfl, rfl⟩ := hother.unique huse
      exact hother.congr hb h.layout (hmem.sameOn (Or.inr le_rfl))
    · exact hother.other hb h.layout huse.toIsBlock heq
        (hmem.mono le_rfl (by omega))
  constructor
  · exact h.layout
  · exact h.nodup
  · intro o ho
    obtain ⟨p, u, hold, hrest⟩ := h.live o ho
    exact ⟨p, u, hkeep hold, hrest⟩
  · intro d hd
    obtain ⟨p, u, hold, hrest⟩ := h.delayed d hd
    exact ⟨p, u, hkeep hold, hrest⟩

/-- A block that was in use is given up, and its bytes change. -/
theorem remove (hb : b.padding = true) (h : PaddingOk b st)
    (hblock : IsBlock st.pages id page block)
    (hpages : st'.pages = st.pages)
    (hperm : st.slots.Perm ((id, block) :: st'.slots))
    (hlive : ∀ o ∈ st'.live, o ∈ st.live)
    (hdelayed : ∀ d ∈ st'.delayed, d ∈ st.delayed)
    (hmem : ChangesOnly block (block + page.blockSize) st.mem st'.mem) :
    PaddingOk b st' := by
  have hnodup := List.nodup_cons.mp (hperm.nodup_iff.mp h.nodup)
  have hne : ∀ slot ∈ st'.slots, slot ≠ (id, block) := by
    rintro slot hslot rfl
    exact hnodup.1 hslot
  constructor
  · rw [hpages]
    exact h.layout
  · exact hnodup.2
  · intro o ho
    rw [hpages]
    have hslot : o.slot ∈ st'.slots :=
      List.mem_append_left _ (List.mem_map_of_mem ho)
    exact (h.live o (hlive o ho)).other hb h.layout hblock (hne _ hslot) hmem
  · intro d hd
    rw [hpages]
    have hslot : d ∈ st'.slots := List.mem_append_right _ hd
    exact (h.delayed d (hdelayed d hd)).other hb h.layout hblock
      (hne _ hslot) hmem

/-! ## Pages -/

theorem setFlags (h : PaddingOk b st) (hpage : st.pages id = some page)
    (hsame : SameBlocks page page')
    (hflag : page'.hasAligned = false → page.hasAligned = false ∨
      ∀ o ∈ st.live, o.page ≠ id) :
    PaddingOk b
      { st with pages := Function.update st.pages id (some page') } := by
  constructor
  · exact hsame.layout hpage h.layout
  · exact h.nodup
  · intro o ho
    apply hsame.objectOk hpage _ (h.live o ho)
    intro haligned
    rcases hflag haligned with hold | hnone
    · exact Or.inl hold
    · exact Or.inr (hnone o ho)
  · intro d hd
    exact hsame.delayedOk hpage (h.delayed d hd)

theorem setPage {new : Option BlockPage} (h : PaddingOk b st)
    (hid : ∀ block, (id, block) ∉ st.slots)
    (hlayout : LayoutOk (Function.update st.pages id new)) :
    PaddingOk b { st with pages := Function.update st.pages id new } := by
  have hkeep : ∀ slot ∈ st.slots,
      Function.update st.pages id new slot.1 = st.pages slot.1 := by
    intro slot hslot
    apply Function.update_of_ne
    intro heq
    apply hid slot.2
    rw [← heq]
    exact hslot
  have huse : ∀ {slot : ℕ × ℕ} {page : BlockPage} {usable : ℕ},
      slot ∈ st.slots →
      InUse b st.mem st.pages slot.1 page slot.2 usable →
      InUse b st.mem (Function.update st.pages id new) slot.1 page slot.2
        usable := by
    intro slot page usable hslot hold
    exact ⟨⟨(hkeep slot hslot).trans hold.hpage, hold.hblock⟩, hold.whole,
      hold.padded, hold.big, hold.link⟩
  constructor
  · exact hlayout
  · exact h.nodup
  · intro o ho
    obtain ⟨p, u, hold, hrest⟩ := h.live o ho
    have hslot : o.slot ∈ st.slots :=
      List.mem_append_left _ (List.mem_map_of_mem ho)
    exact ⟨p, u, huse hslot hold, hrest⟩
  · intro d hd
    obtain ⟨p, u, hold, hrest⟩ := h.delayed d hd
    exact ⟨p, u, huse (List.mem_append_right _ hd) hold, hrest⟩

end PaddingOk

/-! ## Allocation -/

namespace PaddingOk

theorem malloc (hb : b.padding = true) (h : PaddingOk b st)
    (hcan : st.CanAlloc id page block (BlockHeap.requestSize b asked)) :
    PaddingOk b (malloc b st id page block asked zero) ∧
      ∃ usable, InUse b (BlockHeap.malloc b st id page block asked zero).mem
          st.pages id page block usable ∧
        max asked 1 ≤ usable := by
  obtain ⟨usable, huse, hle⟩ := finishAlloc_inUse hb h.layout hcan
  have hmem := @finishAlloc_changesOnly b st.mem page block
    (BlockHeap.requestSize b asked) zero
    (h.layout.ok id page hcan.hpage).eight_le
  have hnew : ObjectOk b
      (finishAlloc b st.mem page block (BlockHeap.requestSize b asked) zero)
      st.pages ⟨id, block, block, asked⟩ := by
    refine ⟨page, usable, huse, le_rfl, ?_, fun _ => rfl⟩
    show block + asked ≤ block + usable
    omega
  exact ⟨h.insert hb hcan.isBlock hcan.unused hmem rfl hnew,
    usable, huse, hle⟩

/-- The record of a block that is over-allocated and then shrunk. -/
theorem shrunk {size alignment offset : ℕ} (hb : b.padding = true)
    (h : PaddingOk b st) (hpos : 0 < alignment)
    (hcan : st.CanAlloc id page block
      (BlockHeap.requestSize b (oversize size alignment)))
    (hreach : ReachesAligned b page block size alignment offset) :
    ∃ usable, InUse b
        (if alignAdjust block alignment offset = 0 then
          finishAlloc b st.mem page block
            (BlockHeap.requestSize b (oversize size alignment)) zero
        else paddingShrink b
          (finishAlloc b st.mem page block
            (BlockHeap.requestSize b (oversize size alignment)) zero) page block
          (alignAdjust block alignment offset + size))
        st.pages id page block usable ∧
      alignAdjust block alignment offset + size ≤ usable := by
  have hok := h.layout.ok id page hcan.hpage
  obtain ⟨usable, huse, hle⟩ := @finishAlloc_inUse b st id block
    (oversize size alignment) page zero hb h.layout hcan
  have hover := le_oversize size alignment hpos
  by_cases hadjust : alignAdjust block alignment offset = 0
  · rw [if_pos hadjust]
    exact ⟨usable, huse, by omega⟩
  · rw [if_neg hadjust]
    have hshrink : alignAdjust block alignment offset + size ≤
          usableBlockSize b page ∧
        (page.isHuge = true ∨
          alignAdjust block alignment offset + size ≤ usable ∨
          alignAdjust block alignment offset + size =
            usableBlockSize b page) := by
      by_cases hlarge : blockAlignmentMax < alignment
      · obtain ⟨-, hhuge, hroom⟩ := hreach hlarge
        exact ⟨by omega, Or.inl hhuge⟩
      · have hfit := @adjust_add_le_oversize block alignment offset size hpos
          hlarge
        have husable := huse.padded.usable_le
        exact ⟨by omega, Or.inr (Or.inl (by omega))⟩
    obtain ⟨usable', hle', hmin, hpadded⟩ := huse.padded.paddingShrink hb
      hok.eight_le hshrink.1 hshrink.2
    refine ⟨usable', ⟨huse.toIsBlock, huse.whole, hpadded, huse.big, ?_⟩, hmin⟩
    rcases huse.link with hhuge | hroom | hall
    · exact Or.inl hhuge
    · exact Or.inr (Or.inl (hroom.trans hle'))
    · exact Or.inr (Or.inr hall)

theorem mallocAligned {size alignment offset : ℕ} (hb : b.padding = true)
    (h : PaddingOk b st) (hpos : 0 < alignment)
    (hcan : st.CanAlloc id page block
      (BlockHeap.requestSize b (oversize size alignment)))
    (hreach : ReachesAligned b page block size alignment offset) :
    PaddingOk b
        (mallocAligned b st id page block size alignment offset zero) ∧
      ∃ page' usable, InUse b
          (BlockHeap.mallocAligned b st id page block size alignment offset
            zero).mem
          (BlockHeap.mallocAligned b st id page block size alignment offset
            zero).pages id page' block usable ∧
        alignAdjust block alignment offset + size ≤ usable := by
  have hok := h.layout.ok id page hcan.hpage
  obtain ⟨usable, huse, hle⟩ := @shrunk b st id block page
    (zero && !decide (blockAlignmentMax < alignment)) size alignment offset
    hb h hpos hcan hreach
  have hfinish := @finishAlloc_changesOnly b st.mem page block
    (BlockHeap.requestSize b (oversize size alignment))
    (zero && !decide (blockAlignmentMax < alignment)) hok.eight_le
  unfold BlockHeap.mallocAligned
  dsimp only
  generalize hadj : alignAdjust block alignment offset = adjust at huse hle ⊢
  generalize hpage' : (if adjust = 0 then page
    else { page with hasAligned := true }) = page'
  generalize hmem1 : finishAlloc b st.mem page block
    (BlockHeap.requestSize b (oversize size alignment))
    (zero && !decide (blockAlignmentMax < alignment)) = mem1
    at huse hfinish ⊢
  generalize hmem2 : (if adjust = 0 then mem1
    else paddingShrink b mem1 page block (adjust + size)) = mem2 at huse ⊢
  have hsame : SameBlocks page page' := by
    rw [← hpage']
    split <;> rfl
  have hsize : page'.blockSize = page.blockSize := by rw [hsame]
  have hflag : page'.hasAligned = false →
      page.hasAligned = false ∧ adjust = 0 := by
    rw [← hpage']
    split
    · next hzero => exact fun hold => ⟨hold, hzero⟩
    · exact fun hset => absurd hset.symm Bool.false_ne_true
  have hset := h.setFlags hcan.hpage hsame
    (fun haligned => Or.inl (hflag haligned).1)
  have huse' := hsame.inUse huse
  have hptr : page'.hasAligned = false → block + adjust = block := by
    intro haligned
    rw [(hflag haligned).2, Nat.add_zero]
  have husable := huse'.usableSize hb hset.layout
    (Nat.le_add_right block adjust) (by omega) hptr
  rw [Nat.add_sub_cancel_left] at husable
  have hchange2 : ChangesOnly block (block + page.blockSize) st.mem mem2 := by
    refine hfinish.trans ?_
    rw [← hmem2]
    split
    · exact ChangesOnly.refl _ _ mem1
    · exact paddingShrink_changesOnly hok.eight_le
  have hlt := huse.usable_lt hb h.layout
  generalize hmem3 : (if blockAlignmentMax < alignment ∧ zero = true then
    fill mem2 (block + adjust) (Palloc.usableSize b mem2 page' (block + adjust)) 0
    else mem2) = mem3
  have hchange3 : ChangesOnly block (block + usable) mem2 mem3 := by
    rw [← hmem3]
    split
    · rw [husable]
      exact fill_changesOnly.mono (by omega) (by omega)
    · exact ChangesOnly.refl _ _ mem2
  have hfinal : InUse b mem3 (Function.update st.pages id (some page')) id
      page' block usable :=
    huse'.congr hb hset.layout (hchange3.sameOn (Or.inr le_rfl))
  have hchange : ChangesOnly block (block + page'.blockSize) st.mem mem3 := by
    rw [hsize]
    exact hchange2.trans (hchange3.mono le_rfl (by omega))
  have hnew : ObjectOk b mem3 (Function.update st.pages id (some page'))
      ⟨id, block, block + adjust, size⟩ := by
    refine ⟨page', usable, hfinal, Nat.le_add_right _ _, ?_, hptr⟩
    show block + adjust + size ≤ block + usable
    omega
  exact ⟨hset.insert hb huse'.toIsBlock hcan.unused hchange rfl hnew,
    page', usable, hfinal, hle⟩

end PaddingOk

/-! ## Reallocation -/

theorem reallocContent_changesOnly {newp p size newsize : ℕ} :
    ChangesOnly newp (newp + max newsize 1) mem
      (reallocContent mem newp p size newsize zero) := by
  unfold reallocContent
  dsimp only
  refine ChangesOnly.trans ?_ (copy_changesOnly.mono le_rfl (by omega))
  split
  · next htail =>
      rw [Bool.and_eq_true, decide_eq_true_iff] at htail
      exact fill_changesOnly.mono (by omega) (by omega)
  · split
    · exact fill_changesOnly.mono le_rfl (by omega)
    · exact ChangesOnly.refl _ _ mem

theorem reallocAlignedContent_changesOnly {newp p size newsize : ℕ} :
    ChangesOnly newp (newp + newsize) mem
      (reallocAlignedContent mem newp p size newsize zero) := by
  unfold reallocAlignedContent
  dsimp only
  refine ChangesOnly.trans ?_ (copy_changesOnly.mono le_rfl (by omega))
  split
  · next htail =>
      rw [Bool.and_eq_true, decide_eq_true_iff] at htail
      have hstart : (if intptrSize ≤ size then size - intptrSize else 0) ≤
          newsize := by
        split <;> omega
      generalize (if intptrSize ≤ size then size - intptrSize else 0) = start
        at hstart ⊢
      exact fill_changesOnly.mono (by omega) (by omega)
  · exact ChangesOnly.refl _ _ mem

/-! ## Objects -/

namespace PaddingOk

theorem object (h : PaddingOk b st) (ho : o ∈ st.live)
    (hpage : st.pages o.page = some page) :
    ∃ usable, InUse b st.mem st.pages o.page page o.block usable ∧
      o.block ≤ o.ptr ∧ o.ptr + o.asked ≤ o.block + usable ∧
      (page.hasAligned = false → o.ptr = o.block) := by
  obtain ⟨p, usable, huse, hrest⟩ := h.live o ho
  obtain rfl : p = page := Option.some.inj (huse.hpage.symm.trans hpage)
  exact ⟨usable, huse, hrest⟩

theorem usableSize_eq (hb : b.padding = true) (h : PaddingOk b st)
    (ho : o ∈ st.live) (hpage : st.pages o.page = some page)
    (huse : InUse b st.mem st.pages o.page page o.block usable) :
    usableSize b st.mem page o.ptr = usable - (o.ptr - o.block) := by
  obtain ⟨u, huse', hlo, hhi, hptr⟩ := h.object ho hpage
  obtain ⟨-, rfl⟩ := huse.unique huse'
  exact huse.usableSize hb h.layout hlo (by omega) hptr

theorem slots_perm (ho : o ∈ st.live) :
    st.slots.Perm
      (o.slot :: ((st.live.erase o).map HeapObject.slot ++ st.delayed)) :=
  ((List.perm_cons_erase ho).map HeapObject.slot).append_right st.delayed

theorem reask {newsize : ℕ} (hb : b.padding = true) (h : PaddingOk b st)
    (ho : o ∈ st.live) (hpage : st.pages o.page = some page)
    (hfits : newsize ≤ usableSize b st.mem page o.ptr) :
    PaddingOk b (st.reask o newsize) := by
  constructor
  · exact h.layout
  · exact (slots_perm ho).nodup_iff.mp h.nodup
  · intro other hother
    rcases List.mem_cons.mp hother with rfl | hold
    · obtain ⟨usable, huse, hlo, hhi, hptr⟩ := h.object ho hpage
      rw [h.usableSize_eq hb ho hpage huse] at hfits
      refine ⟨page, usable, huse, hlo, ?_, hptr⟩
      show o.ptr + newsize ≤ o.block + usable
      omega
    · exact h.live other (List.mem_of_mem_erase hold)
  · exact h.delayed

/-! ## Free -/

theorem blockOf_eq {p : ℕ} (hb : b.padding = true) (h : PaddingOk b st)
    (ho : o ∈ st.live) (hpage : st.pages o.page = some page)
    (hp : p = o.ptr ∨ p = page.ptrUnalign o.ptr) :
    page.blockOf p = o.block := by
  obtain ⟨usable, huse, hlo, hhi, hptr⟩ := h.object ho hpage
  have hlt := huse.usable_lt hb h.layout
  have hsize := (h.layout.ok o.page page hpage).pos
  rcases hp with rfl | rfl
  · exact huse.blockOf hlo (by omega) hptr
  · rw [huse.ptrUnalign hlo (by omega)]
    exact huse.blockOf le_rfl (by omega) (fun _ => rfl)

theorem freeLocal {p link : ℕ} (hb : b.padding = true) (h : PaddingOk b st)
    (ho : o ∈ st.live) (hpage : st.pages o.page = some page)
    (hp : p = o.ptr ∨ p = page.ptrUnalign o.ptr) :
    PaddingOk b
      { st with
        mem := freedLocal b st.mem page (page.blockOf p) link
        live := st.live.erase o } := by
  obtain ⟨usable, huse, -⟩ := h.object ho hpage
  rw [h.blockOf_eq hb ho hpage hp]
  apply h.remove hb huse.toIsBlock
  · rfl
  · exact slots_perm ho
  · exact fun other hother => List.mem_of_mem_erase hother
  · exact fun d hd => hd
  · exact freedLocal_changesOnly (h.layout.ok o.page page hpage).eight_le

theorem freeDelayed {d : ℕ × ℕ} {link : ℕ} (hb : b.padding = true)
    (h : PaddingOk b st) (hd : d ∈ st.delayed)
    (hpage : st.pages d.1 = some page) :
    PaddingOk b
      { st with
        mem := freedLocal b st.mem page d.2 link
        delayed := st.delayed.erase d } := by
  obtain ⟨p, usable, huse, -⟩ := h.delayed d hd
  obtain rfl : p = page := Option.some.inj (huse.hpage.symm.trans hpage)
  apply h.remove hb huse.toIsBlock
  · rfl
  · exact ((List.perm_cons_erase hd).append_left _).trans List.perm_middle
  · exact fun other hother => hother
  · exact fun other hother => List.mem_of_mem_erase hother
  · exact freedLocal_changesOnly (h.layout.ok d.1 p hpage).eight_le

/-- The content of a block that another thread frees; the record is shrunk
before, so that the link of the list fits. -/
theorem freedMem {link : ℕ} (hb : b.padding = true) (h : PaddingOk b st)
    (huse : InUse b st.mem st.pages id page block usable)
    (hmem : FreedContent b page block
      (paddingShrink b st.mem page block 8) mem) :
    ChangesOnly block (block + page.blockSize) st.mem
        (store mem block 8 link) ∧
      DelayedOk b (store mem block 8 link) st.pages (id, block) := by
  have hok := h.layout.ok id page huse.hpage
  obtain ⟨usable', hle, hmin, hpadded⟩ := huse.padded.paddingShrink hb
    hok.eight_le huse.big huse.link
  have hshrink := @paddingShrink_changesOnly b st.mem page block 8
    hok.eight_le
  have huse' : InUse b (paddingShrink b st.mem page block 8) st.pages id page
      block usable' :=
    ⟨huse.toIsBlock, huse.whole, hpadded, huse.big, Or.inr (Or.inl hmin)⟩
  have husable := huse'.usableSize hb h.layout le_rfl (by omega)
    (fun _ => rfl)
  rw [Nat.sub_self, Nat.sub_zero] at husable
  have hcontent : ChangesOnly block (block + usable')
      (paddingShrink b st.mem page block 8) mem := by
    unfold FreedContent at hmem
    rw [husable] at hmem
    split at hmem
    · exact hmem.mono (by omega) (by omega)
    · split at hmem
      · rw [hmem]
        exact fill_changesOnly
      · rw [hmem]
        exact ChangesOnly.refl _ _ _
  have hstore : ChangesOnly block (block + usable') mem
      (store mem block 8 link) :=
    store_changesOnly.mono le_rfl (by omega)
  have hchange := hcontent.trans hstore
  have hlt := huse'.usable_lt hb h.layout
  refine ⟨hshrink.trans (hchange.mono le_rfl (by omega)), page, usable', ?_,
    hmin⟩
  exact huse'.congr hb h.layout (hchange.sameOn (Or.inr le_rfl))

theorem freeMt {link : ℕ} {useDelayed : Bool} (hb : b.padding = true)
    (h : PaddingOk b st) (ho : o ∈ st.live)
    (hpage : st.pages o.page = some page)
    (hmem : FreedContent b page (page.ptrUnalign o.ptr)
      (paddingShrink b st.mem page (page.ptrUnalign o.ptr) 8) mem) :
    PaddingOk b
      { st with
        mem := store mem (page.ptrUnalign o.ptr) 8 link
        live := st.live.erase o
        delayed :=
          if useDelayed then (o.page, page.ptrUnalign o.ptr) :: st.delayed
          else st.delayed } := by
  obtain ⟨usable, huse, hlo, hhi, -⟩ := h.object ho hpage
  have hlt := huse.usable_lt hb h.layout
  have hunalign := huse.ptrUnalign hlo (by omega)
  rw [hunalign] at hmem ⊢
  obtain ⟨hchange, hdelayed⟩ :=
    @freedMem b st mem o.page o.block usable page link hb h huse hmem
  have hdone : PaddingOk b
      { st with
        mem := store mem o.block 8 link
        live := st.live.erase o } := by
    apply h.remove hb huse.toIsBlock
    · rfl
    · exact slots_perm ho
    · exact fun other hother => List.mem_of_mem_erase hother
    · exact fun d hd => hd
    · exact hchange
  cases useDelayed with
  | false => exact hdone
  | true =>
      constructor
      · exact hdone.layout
      · exact ((slots_perm ho).trans List.perm_middle.symm).nodup_iff.mp
          h.nodup
      · exact hdone.live
      · intro d hd
        rcases List.mem_cons.mp hd with rfl | hold
        · exact hdelayed
        · exact hdone.delayed d hold

end PaddingOk

end Palloc
