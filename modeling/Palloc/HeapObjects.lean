import Palloc.PaddingRun

/-!
# Live objects of a heap

In every build a live object lies in the usable bytes of its block, and the
blocks of two objects do not overlap.  The operations on one object and the
work of the page layer between them keep this.
-/

namespace Palloc

open ByteMemory BlockHeap

/-! ## The invariant -/

structure LiveObject (b : BlockBuild) (mem : Mem)
    (pages : ℕ → Option BlockPage) (o : HeapObject) (page : BlockPage)
    (usable : ℕ) : Prop extends IsBlock pages o.page page o.block where
  usable_eq : pageUsableSizeOf b mem page o.block = usable
  ptr_ge : o.block ≤ o.ptr
  ptr_lt : o.ptr < o.block + page.blockSize
  unalign : ∀ p, o.block ≤ p → p ≤ o.ptr → page.ptrUnalign p = o.block
  fits : o.ptr + o.asked ≤ o.block + usable
  aligned : page.hasAligned = false → o.ptr = o.block

structure HeapOk (b : BlockBuild) (st : BlockHeap) : Prop where
  layout : LayoutOk st.pages
  nodup : st.slots.Nodup
  delayed : ∀ d ∈ st.delayed, ∃ page, IsBlock st.pages d.1 page d.2
  live : ∀ o ∈ st.live, ∃ page usable,
    LiveObject b st.mem st.pages o page usable

variable {b : BlockBuild} {st st' : BlockHeap} {mem mem' : Mem}
variable {pages : ℕ → Option BlockPage}
variable {id block usable asked size : ℕ} {page page' : BlockPage}
variable {o o' : HeapObject} {zero : Bool}

/-! ## The usable size -/

theorem pageUsableSizeOf_le (b : BlockBuild) (mem : Mem) (page : BlockPage)
    (block : ℕ) :
    pageUsableSizeOf b mem page block ≤ usableBlockSize b page := by
  unfold pageUsableSizeOf
  dsimp only
  split
  · split
    · exact Nat.sub_le _ _
    · exact Nat.zero_le _
  · exact le_rfl

theorem usableBlockSize_le (b : BlockBuild) (page : BlockPage) :
    usableBlockSize b page ≤ page.blockSize :=
  Nat.sub_le _ _

theorem pageUsableSizeOf_record (hblock : 8 ≤ page.blockSize)
    (hsame : SameOn (block + usableBlockSize b page)
      (block + page.blockSize) mem mem') :
    pageUsableSizeOf b mem' page block =
      pageUsableSizeOf b mem page block := by
  unfold pageUsableSizeOf
  split
  · next hb =>
      have hsize := usableBlockSize_add hb hblock
      unfold pageDecodePadding
      dsimp only
      rw [load_congr (hsame.mono (by omega) (by omega)),
        load_congr (hsame.mono (by omega) (by omega))]
  · rfl

theorem requestSize_room
    (hfits : BlockHeap.requestSize b asked ≤ page.blockSize)
    (hok : PageOk page) : max asked 1 ≤ usableBlockSize b page := by
  have height := hok.eight_le
  unfold BlockHeap.requestSize BlockBuild.paddingSize intptrSize at hfits
  unfold usableBlockSize BlockBuild.paddingSize
  cases hb : b.padding with
  | true =>
      simp only [hb, true_and, if_true] at hfits ⊢
      split at hfits <;> omega
  | false =>
      simp only [hb, Bool.false_eq_true, false_and, if_false] at hfits ⊢
      omega

theorem finishAlloc_usable (hok : PageOk page)
    (hfits : BlockHeap.requestSize b asked ≤ page.blockSize) :
    asked ≤ pageUsableSizeOf b
      (finishAlloc b mem page block (BlockHeap.requestSize b asked) zero)
      page block := by
  by_cases hb : b.padding = true
  · have hpadded := @finishPadding_padded b
      (finishContent b mem page block zero) page block
      (BlockHeap.requestSize b asked) hb hok.eight_le hok.small
    have hle := le_storedUsable hb hfits
    have hrequest := @requestSize_eq b asked hb
    have hask : asked ≤ if asked = 0 then 8 else asked := by
      split <;> omega
    unfold finishAlloc
    rw [hpadded.usableSizeOf hb]
    omega
  · have hsize : pageUsableSizeOf b (finishAlloc b mem page block
        (BlockHeap.requestSize b asked) zero) page block =
        usableBlockSize b page := if_neg hb
    have hroom := requestSize_room hfits hok
    rw [hsize]
    omega

theorem paddingShrink_usable {minSize : ℕ} (hok : PageOk page)
    (hmin : minSize ≤ usableBlockSize b page)
    (hpadded : b.padding = true → ∃ usable, Padded b mem page block usable) :
    minSize ≤ pageUsableSizeOf b (paddingShrink b mem page block minSize)
      page block := by
  by_cases hb : b.padding = true
  · obtain ⟨usable, husable⟩ := hpadded hb
    have hsize := usableBlockSize_add hb hok.eight_le
    have hle := husable.usable_le
    unfold paddingShrink
    dsimp only
    rw [if_pos hb, husable.decode]
    dsimp only
    rw [Nat.sub_sub_self hle, Bool.not_true, Bool.false_or]
    by_cases henough : minSize ≤ usable
    · rw [if_pos (decide_eq_true henough), husable.usableSizeOf hb]
      exact henough
    · rw [if_neg (by rw [decide_eq_true_iff]; exact henough),
        if_neg (not_lt.mpr hmin)]
      have hmod := Nat.mod_le (usableBlockSize b page - minSize) (256 ^ 4)
      have hcanary : SameOn (block + usableBlockSize b page)
          (block + usableBlockSize b page + 4) mem
          (store mem (block + usableBlockSize b page + 4) 4
            (usableBlockSize b page - minSize)) :=
        store_changesOnly.sameOn (Or.inl le_rfl)
      have hdecode : pageDecodePadding b
          (store mem (block + usableBlockSize b page + 4) 4
            (usableBlockSize b page - minSize)) page block =
          ⟨true, (usableBlockSize b page - minSize) % 256 ^ 4,
            usableBlockSize b page⟩ := by
        have hcheck : (usableBlockSize b page - minSize) % 256 ^ 4 ≤
            usableBlockSize b page := by omega
        unfold pageDecodePadding
        dsimp only
        rw [load_store, load_congr hcanary, husable.canary,
          beq_self_eq_true, Bool.true_and, decide_eq_true hcheck]
      unfold pageUsableSizeOf
      dsimp only
      rw [if_pos hb, hdecode, if_pos rfl]
      dsimp only
      omega
  · have hsize : pageUsableSizeOf b (paddingShrink b mem page block minSize)
        page block = usableBlockSize b page := if_neg hb
    rw [hsize]
    exact hmin

/-! ## One object -/

namespace LiveObject

theorem usable_le (h : LiveObject b mem pages o page usable) :
    usable ≤ usableBlockSize b page := by
  rw [← h.usable_eq]
  exact pageUsableSizeOf_le b mem page o.block

theorem unalign_ptr (h : LiveObject b mem pages o page usable) :
    page.ptrUnalign o.ptr = o.block :=
  h.unalign o.ptr h.ptr_ge le_rfl

/-- The block that a free finds; one that first reclaims an abandoned segment
starts from the block. -/
theorem blockOf {p : ℕ} (h : LiveObject b mem pages o page usable)
    (hp : p = o.ptr ∨ p = o.block) : page.blockOf p = o.block := by
  unfold BlockPage.blockOf
  split
  · rcases hp with rfl | rfl
    · exact h.unalign_ptr
    · exact h.unalign o.block le_rfl h.ptr_ge
  · next hflag =>
      have hptr := h.aligned (Bool.eq_false_of_not_eq_true hflag)
      rcases hp with rfl | rfl
      · exact hptr
      · rfl

theorem usableSize (h : LiveObject b mem pages o page usable) :
    usableSize b mem page o.ptr = usable - (o.ptr - o.block) := by
  unfold Palloc.usableSize
  split
  · rw [h.unalign_ptr, h.usable_eq]
  · next hflag =>
      have hptr := h.aligned (Bool.eq_false_of_not_eq_true hflag)
      rw [hptr, h.usable_eq, Nat.sub_self, Nat.sub_zero]

theorem asked_le (h : LiveObject b mem pages o page usable) :
    o.asked ≤ Palloc.usableSize b mem page o.ptr := by
  have hfits := h.fits
  have hge := h.ptr_ge
  rw [h.usableSize]
  omega

theorem congr (h : LiveObject b mem pages o page usable)
    (hlayout : LayoutOk pages)
    (hsame : SameOn (o.block + usableBlockSize b page)
      (o.block + page.blockSize) mem mem') :
    LiveObject b mem' pages o page usable := by
  have hrecord := pageUsableSizeOf_record
    (hlayout.ok o.page page h.hpage).eight_le hsame
  exact ⟨h.toIsBlock, hrecord.trans h.usable_eq, h.ptr_ge, h.ptr_lt,
    h.unalign, h.fits, h.aligned⟩

theorem other (h : LiveObject b mem pages o page usable)
    (hlayout : LayoutOk pages) (hother : IsBlock pages id page' block)
    (hne : o.slot ≠ (id, block))
    (hmem : ChangesOnly block (block + page'.blockSize) mem mem') :
    LiveObject b mem' pages o page usable := by
  have hapart := hlayout.blocks_apart h.toIsBlock hother hne
  have hle := usableBlockSize_le b page
  apply h.congr hlayout
  exact hmem.sameOn (by omega)

theorem flags {pages' : ℕ → Option BlockPage}
    (h : LiveObject b mem pages o page usable) (hsame : SameBlocks page page')
    (hpage : pages' o.page = some page')
    (hflag : page'.hasAligned = false → o.ptr = o.block) :
    LiveObject b mem pages' o page' usable := by
  rw [hsame] at hpage ⊢
  exact ⟨⟨hpage, h.hblock⟩, h.usable_eq, h.ptr_ge, h.ptr_lt, h.unalign,
    h.fits, hflag⟩

end LiveObject

/-! ## The heap -/

namespace HeapOk

theorem object (h : HeapOk b st) (ho : o ∈ st.live)
    (hpage : st.pages o.page = some page) :
    ∃ usable, LiveObject b st.mem st.pages o page usable := by
  obtain ⟨p, usable, hobject⟩ := h.live o ho
  obtain rfl : p = page := Option.some.inj (hobject.hpage.symm.trans hpage)
  exact ⟨usable, hobject⟩

theorem slot_mem (ho : o ∈ st.live) : o.slot ∈ st.slots :=
  List.mem_append_left _ (List.mem_map_of_mem ho)

theorem slot_ne_new {page : BlockPage} {size block id : ℕ}
    (hcan : st.CanAlloc id page block size) (ho : o ∈ st.live) :
    o.slot ≠ (id, block) := by
  intro heq
  apply hcan.unused
  rw [← heq]
  exact slot_mem ho

theorem eq_of_slot (h : HeapOk b st) (ho : o ∈ st.live)
    (ho' : o' ∈ st.live) (hslot : o.slot = o'.slot) : o = o' := by
  have hnodup := (List.nodup_append.mp h.nodup).1
  exact List.inj_on_of_nodup_map hnodup ho ho' hslot

/-- The blocks of two objects do not overlap. -/
theorem apart (h : HeapOk b st) (ho : o ∈ st.live)
    (ho' : o' ∈ st.live) (hne : o ≠ o')
    (hpage : st.pages o.page = some page)
    (hpage' : st.pages o'.page = some page') :
    o.block + page.blockSize ≤ o'.block ∨
      o'.block + page'.blockSize ≤ o.block := by
  obtain ⟨usable, hobject⟩ := h.object ho hpage
  obtain ⟨usable', hobject'⟩ := h.object ho' hpage'
  exact h.layout.blocks_apart hobject.toIsBlock hobject'.toIsBlock
    fun hslot => hne (h.eq_of_slot ho ho' hslot)

theorem insert (h : HeapOk b st) (hunused : o.slot ∉ st.slots)
    (hmem : ChangesOnly o.block (o.block + page.blockSize) st.mem mem)
    (hnew : LiveObject b mem st.pages o page usable) :
    HeapOk b { st with mem := mem, live := o :: st.live } := by
  refine ⟨h.layout, ?_, h.delayed, ?_⟩
  · exact List.nodup_cons.mpr ⟨hunused, h.nodup⟩
  · intro other hother
    rcases List.mem_cons.mp hother with rfl | hold
    · exact ⟨page, usable, hnew⟩
    · obtain ⟨p, u, hobject⟩ := h.live other hold
      have hne : other.slot ≠ o.slot := by
        intro heq
        apply hunused
        rw [← heq]
        exact slot_mem hold
      exact ⟨p, u, hobject.other h.layout hnew.toIsBlock hne hmem⟩

theorem write (h : HeapOk b st)
    (hobject : LiveObject b st.mem st.pages o page usable)
    (hmem : ChangesOnly o.block (o.block + usableBlockSize b page) st.mem
      mem) :
    HeapOk b { st with mem := mem } := by
  have hle := usableBlockSize_le b page
  refine ⟨h.layout, h.nodup, h.delayed, ?_⟩
  intro other hother
  obtain ⟨p, u, hold⟩ := h.live other hother
  refine ⟨p, u, ?_⟩
  by_cases heq : other.slot = o.slot
  · obtain ⟨hpage, hblock⟩ := Prod.mk.inj heq
    have hpage' : some p = some page := by
      rw [← hold.hpage, hpage, hobject.hpage]
    obtain rfl := Option.some.inj hpage'
    apply hold.congr h.layout
    rw [hblock]
    exact hmem.sameOn (Or.inr le_rfl)
  · exact hold.other h.layout hobject.toIsBlock heq
      (hmem.mono le_rfl (by omega))

theorem slots_erase (ho : o ∈ st.live) :
    st.slots.Perm
      (o.slot :: ((st.live.erase o).map HeapObject.slot ++ st.delayed)) :=
  PaddingOk.slots_perm ho

/-- An object is given up; the bytes of its block change, and it may wait on
the list of a heap. -/
theorem remove (h : HeapOk b st) (ho : o ∈ st.live)
    (hpage : st.pages o.page = some page)
    (hmem : ChangesOnly o.block (o.block + page.blockSize) st.mem mem)
    (useDelayed : Bool) :
    HeapOk b { st with
      mem := mem
      live := st.live.erase o
      delayed :=
        if useDelayed then o.slot :: st.delayed else st.delayed } := by
  have hnodup := (slots_erase ho).nodup_iff.mp h.nodup
  refine ⟨h.layout, ?_, ?_, ?_⟩
  · cases useDelayed with
    | false => exact (List.nodup_cons.mp hnodup).2
    | true => exact (List.perm_middle.symm.nodup_iff).mp hnodup
  · intro d hd
    cases useDelayed with
    | false => exact h.delayed d hd
    | true =>
        rcases List.mem_cons.mp hd with rfl | hold
        · obtain ⟨usable, hobject⟩ := h.object ho hpage
          exact ⟨page, hobject.toIsBlock⟩
        · exact h.delayed d hold
  · intro other hother
    have hold := List.mem_of_mem_erase hother
    obtain ⟨p, u, hobject⟩ := h.live other hold
    obtain ⟨usable, hfreed⟩ := h.object ho hpage
    have hne : other.slot ≠ o.slot := by
      intro heq
      apply (List.nodup_cons.mp hnodup).1
      rw [← heq]
      exact List.mem_append_left _ (List.mem_map_of_mem hother)
    exact ⟨p, u, hobject.other h.layout hfreed.toIsBlock hne hmem⟩

theorem freeDelayed {d : ℕ × ℕ} {link : ℕ} (h : HeapOk b st)
    (hd : d ∈ st.delayed) (hpage : st.pages d.1 = some page) :
    HeapOk b { st with
      mem := freedLocal b st.mem page d.2 link
      delayed := st.delayed.erase d } := by
  obtain ⟨p, hblock⟩ := h.delayed d hd
  obtain rfl := Option.some.inj (hblock.hpage.symm.trans hpage)
  have hmem := @freedLocal_changesOnly b st.mem d.2 p link
    (h.layout.ok d.1 p hpage).eight_le
  have hsub : (st.live.map HeapObject.slot ++
      st.delayed.erase d).Sublist st.slots :=
    List.erase_sublist.append_left _
  refine ⟨h.layout, h.nodup.sublist hsub,
    fun d hd => h.delayed d (List.mem_of_mem_erase hd), ?_⟩
  intro other hother
  obtain ⟨q, usable, hobject⟩ := h.live other hother
  have hne : other.slot ≠ d := by
    rintro rfl
    exact List.disjoint_of_nodup_append h.nodup
      (List.mem_map_of_mem hother) hd
  exact ⟨q, usable, hobject.other h.layout hblock hne hmem⟩

theorem setFlags (h : HeapOk b st) (hpage : st.pages id = some page)
    (hsame : SameBlocks page page')
    (hflag : page'.hasAligned = false → page.hasAligned = false) :
    HeapOk b
      { st with pages := Function.update st.pages id (some page') } := by
  refine ⟨hsame.layout hpage h.layout, h.nodup, ?_, ?_⟩
  · intro d hd
    obtain ⟨p, hp⟩ := h.delayed d hd
    by_cases hid : d.1 = id
    · rw [hid] at hp ⊢
      obtain rfl := Option.some.inj (hp.hpage.symm.trans hpage)
      exact ⟨page', hsame.isBlock hp⟩
    · exact ⟨p, hp.congr (Function.update_of_ne hid _ _)⟩
  intro o ho
  obtain ⟨p, u, hobject⟩ := h.live o ho
  by_cases hid : o.page = id
  · obtain rfl : p = page := by
      apply Option.some.inj
      rw [← hobject.hpage, hid, hpage]
    refine ⟨page', u, hobject.flags hsame ?_
      (fun haligned => hobject.aligned (hflag haligned))⟩
    show Function.update st.pages id (some page') o.page = some page'
    rw [hid, Function.update_self]
  · refine ⟨p, u, hobject.flags rfl ?_ hobject.aligned⟩
    exact (Function.update_of_ne hid _ _).trans hobject.hpage

theorem setPage {new : Option BlockPage} (h : HeapOk b st)
    (hid : ∀ block, (id, block) ∉ st.slots)
    (hlayout : LayoutOk (Function.update st.pages id new)) :
    HeapOk b { st with pages := Function.update st.pages id new } := by
  have hkeep : ∀ slot ∈ st.slots,
      Function.update st.pages id new slot.1 = st.pages slot.1 := by
    intro slot hslot
    apply Function.update_of_ne
    intro heq
    apply hid slot.2
    rw [← heq]
    exact hslot
  refine ⟨hlayout, h.nodup, ?_, ?_⟩
  · intro d hd
    obtain ⟨p, hp⟩ := h.delayed d hd
    exact ⟨p, hp.congr (hkeep d (List.mem_append_right _ hd))⟩
  intro o ho
  obtain ⟨p, u, hobject⟩ := h.live o ho
  exact ⟨p, u, hobject.flags rfl ((hkeep o.slot (slot_mem ho)).trans
    hobject.hpage) hobject.aligned⟩

theorem reask {newsize : ℕ} (h : HeapOk b st) (ho : o ∈ st.live)
    (hpage : st.pages o.page = some page)
    (hfits : newsize ≤ usableSize b st.mem page o.ptr) :
    HeapOk b (st.reask o newsize) := by
  refine ⟨h.layout, ?_, h.delayed, ?_⟩
  · exact (slots_erase ho).nodup_iff.mp h.nodup
  · intro other hother
    rcases List.mem_cons.mp hother with rfl | hold
    · obtain ⟨usable, hobject⟩ := h.object ho hpage
      rw [hobject.usableSize] at hfits
      have hge := hobject.ptr_ge
      have hold := hobject.fits
      refine ⟨page, usable, hobject.toIsBlock, hobject.usable_eq, hge,
        hobject.ptr_lt, hobject.unalign, ?_, hobject.aligned⟩
      show o.ptr + newsize ≤ o.block + usable
      omega
    · exact h.live other (List.mem_of_mem_erase hold)

theorem noSlot (h : HeapOk b st) (hid : st.pages id = none) (block : ℕ) :
    (id, block) ∉ st.slots := by
  intro hslot
  have hnone : ∀ page, st.pages id ≠ some page := by
    intro page hpage
    rw [hid] at hpage
    exact nomatch hpage
  rcases List.mem_append.mp hslot with hlive | hdelayed
  · obtain ⟨o, ho, hslot⟩ := List.mem_map.mp hlive
    obtain ⟨page, usable, hobject⟩ := h.live o ho
    have hpage : o.page = id := congrArg Prod.fst hslot
    exact hnone page (hpage ▸ hobject.hpage)
  · obtain ⟨page, hpage⟩ := h.delayed _ hdelayed
    exact hnone page hpage.hpage

theorem exists_page (h : HeapOk b st) (ho : o ∈ st.live) :
    ∃ page, st.pages o.page = some page := by
  obtain ⟨page, usable, hobject⟩ := h.live o ho
  exact ⟨page, hobject.hpage⟩

/-- A new object without alignment. -/
theorem malloc (h : HeapOk b st)
    (hcan : st.CanAlloc id page block (BlockHeap.requestSize b asked)) :
    HeapOk b (malloc b st id page block asked zero) ∧
      (∃ usable, LiveObject b (BlockHeap.malloc b st id page block asked
        zero).mem st.pages ⟨id, block, block, asked⟩ page usable) ∧
      ChangesOnly block (block + page.blockSize) st.mem
        (BlockHeap.malloc b st id page block asked zero).mem := by
  have hok := h.layout.ok id page hcan.hpage
  have hmem := @finishAlloc_changesOnly b st.mem page block
    (BlockHeap.requestSize b asked) zero hok.eight_le
  have hle := @finishAlloc_usable b st.mem block asked page zero hok
    hcan.fits
  have hnew : LiveObject b (finishAlloc b st.mem page block
      (BlockHeap.requestSize b asked) zero) st.pages
      ⟨id, block, block, asked⟩ page _ :=
    ⟨hcan.isBlock, rfl, le_rfl, Nat.lt_add_of_pos_right hok.pos,
      fun p hlo hhi => hcan.isBlock.ptrUnalign hcan.whole hlo
        (Nat.lt_of_le_of_lt hhi (Nat.lt_add_of_pos_right hok.pos)),
      Nat.add_le_add_left hle block, fun _ => rfl⟩
  exact ⟨h.insert hcan.unused hmem hnew, ⟨_, hnew⟩, hmem⟩

end HeapOk

/-! ## Work of the page layer -/

/-- The page layer works on pages without objects and on memory outside of
the objects. -/
inductive BackgroundStep : BlockHeap → BlockHeap → Prop
  /-- A page comes, goes, or its flags are reset. -/
  | page {st : BlockHeap} (id : ℕ) (new : Option BlockPage)
      (hid : ∀ block, (id, block) ∉ st.slots)
      (hlayout : LayoutOk (Function.update st.pages id new)) :
      BackgroundStep st
        { st with pages := Function.update st.pages id new }
  /-- `_pa_page_free_collect`. -/
  | collect {st : BlockHeap} (id : ℕ) (page : BlockPage)
      (hpage : st.pages id = some page) :
      BackgroundStep st
        { st with
          pages := Function.update st.pages id
            (some { page with freeIsZero := false }) }
  | write {st : BlockHeap} (mem : Mem)
      (hlive : ∀ o ∈ st.live, ∀ page, st.pages o.page = some page →
        SameOn o.block (o.block + page.blockSize) st.mem mem) :
      BackgroundStep st { st with mem := mem }
  /-- `_pa_free_delayed_block`, without what it writes to the block. -/
  | delayed {st : BlockHeap} (d : ℕ × ℕ) :
      BackgroundStep st { st with delayed := st.delayed.erase d }

def Background : BlockHeap → BlockHeap → Prop :=
  Relation.ReflTransGen BackgroundStep

structure ObjectKept (b : BlockBuild) (st st' : BlockHeap)
    (o : HeapObject) : Prop where
  page : ∀ page usable, LiveObject b st.mem st.pages o page usable →
    ∃ page', SameBlocks page page' ∧
      LiveObject b st'.mem st'.pages o page' usable
  mem : ∀ page, st.pages o.page = some page →
    SameOn o.block (o.block + page.blockSize) st.mem st'.mem

theorem ObjectKept.refl (b : BlockBuild) (st : BlockHeap)
    (o : HeapObject) : ObjectKept b st st o :=
  ⟨fun page _ hobject => ⟨page, rfl, hobject⟩,
    fun _ _ => SameOn.refl _ _ _⟩

theorem HeapOk.kept_other (h : HeapOk b st) (ho : o ∈ st.live)
    (hblock : IsBlock st.pages id page block) (hne : o.slot ≠ (id, block))
    (hpages : st'.pages = st.pages)
    (hmem : ChangesOnly block (block + page.blockSize) st.mem st'.mem) :
    ObjectKept b st st' o := by
  constructor
  · intro p usable hobject
    rw [hpages]
    exact ⟨p, rfl, hobject.other h.layout hblock hne hmem⟩
  · intro p hpage
    obtain ⟨usable, hobject⟩ := h.object ho hpage
    have hapart := h.layout.blocks_apart hobject.toIsBlock hblock hne
    exact hmem.sameOn (by omega)

theorem SameBlocks.kept (hsame : SameBlocks page page')
    (hpage : st.pages id = some page)
    (hflag : page'.hasAligned = false → page.hasAligned = false)
    (hpages : st'.pages = Function.update st.pages id (some page'))
    (hmem : st'.mem = st.mem) : ObjectKept b st st' o := by
  constructor
  · intro p usable hobject
    rw [hmem]
    by_cases hid : o.page = id
    · obtain rfl : p = page := by
        apply Option.some.inj
        rw [← hobject.hpage, hid, hpage]
      refine ⟨page', hsame, hobject.flags hsame ?_
        (fun haligned => hobject.aligned (hflag haligned))⟩
      rw [hpages, hid, Function.update_self]
    · refine ⟨p, rfl, hobject.flags rfl ?_ hobject.aligned⟩
      rw [hpages]
      exact (Function.update_of_ne hid _ _).trans hobject.hpage
  · intro p _
    rw [hmem]
    exact SameOn.refl _ _ _

theorem BackgroundStep.keeps (h : HeapOk b st)
    (hstep : BackgroundStep st st') :
    HeapOk b st' ∧ st'.live = st.live ∧
      ∀ o ∈ st.live, ObjectKept b st st' o := by
  cases hstep with
  | page id new hid hlayout =>
      refine ⟨h.setPage hid hlayout, rfl, ?_⟩
      intro o ho
      refine ⟨?_, fun page _ => SameOn.refl _ _ _⟩
      intro page usable hobject
      have hne : o.page ≠ id := by
        intro heq
        apply hid o.block
        rw [← heq]
        exact HeapOk.slot_mem ho
      refine ⟨page, rfl, hobject.flags rfl ?_ hobject.aligned⟩
      exact (Function.update_of_ne hne _ _).trans hobject.hpage
  | collect id page hpage =>
      have hsame : SameBlocks page { page with freeIsZero := false } := rfl
      exact ⟨h.setFlags hpage hsame fun haligned => haligned, rfl,
        fun o _ => hsame.kept hpage (fun haligned => haligned) rfl rfl⟩
  | write mem hlive =>
      have hkeep : ∀ o ∈ st.live, ∀ page usable,
          LiveObject b st.mem st.pages o page usable →
          LiveObject b mem st.pages o page usable := by
        intro o ho page usable hobject
        have hsame := hlive o ho page hobject.hpage
        exact hobject.congr h.layout
          (hsame.mono (Nat.le_add_right _ _) le_rfl)
      refine ⟨⟨h.layout, h.nodup, h.delayed, ?_⟩, rfl, ?_⟩
      · intro o ho
        obtain ⟨page, usable, hobject⟩ := h.live o ho
        exact ⟨page, usable, hkeep o ho page usable hobject⟩
      · intro o ho
        refine ⟨?_, fun page hpage => hlive o ho page hpage⟩
        intro page usable hobject
        exact ⟨page, rfl, hkeep o ho page usable hobject⟩
  | delayed d =>
      have hsub : (st.live.map HeapObject.slot ++
          st.delayed.erase d).Sublist st.slots :=
        (List.erase_sublist).append_left _
      refine ⟨⟨h.layout, h.nodup.sublist hsub, fun d hd =>
        h.delayed d (List.mem_of_mem_erase hd), h.live⟩, rfl, ?_⟩
      intro o ho
      refine ⟨?_, fun page _ => SameOn.refl _ _ _⟩
      intro page usable hobject
      exact ⟨page, rfl, hobject⟩

theorem ObjectKept.trans {st'' : BlockHeap} (hobject : LiveObject b st.mem
    st.pages o page usable) (h : ObjectKept b st st' o)
    (h' : ObjectKept b st' st'' o) : ObjectKept b st st'' o := by
  constructor
  · intro page usable hlive
    obtain ⟨page', hsame, hlive'⟩ := h.page page usable hlive
    obtain ⟨page'', hsame', hlive''⟩ := h'.page page' usable hlive'
    exact ⟨page'', hsame.trans hsame', hlive''⟩
  · intro p hpage
    obtain rfl : page = p :=
      Option.some.inj (hobject.hpage.symm.trans hpage)
    obtain ⟨page', hsame, hlive'⟩ := h.page page usable hobject
    have hsize : page'.blockSize = page.blockSize := by rw [hsame]
    have hmem := h'.mem page' hlive'.hpage
    rw [hsize] at hmem
    exact (h.mem page hpage).trans hmem

theorem Background.keeps (h : HeapOk b st) (hrun : Background st st') :
    HeapOk b st' ∧ st'.live = st.live ∧
      ∀ o ∈ st.live, ObjectKept b st st' o := by
  induction hrun with
  | refl =>
      exact ⟨h, rfl, fun o _ => .refl b st o⟩
  | tail hrun hstep ih =>
      obtain ⟨hok, hlive, hkept⟩ := ih
      obtain ⟨hok', hlive', hkept'⟩ := hstep.keeps hok
      refine ⟨hok', hlive'.trans hlive, ?_⟩
      intro o ho
      obtain ⟨page, usable, hobject⟩ := h.live o ho
      exact (hkept o ho).trans hobject (hkept' o (by rw [hlive]; exact ho))

/-! ## Free -/

/-- How `pa_free` gives a block back: the owner of the page frees it, or
another thread, to the list of the page or with `useDelayed` to the list of
the heap.  The link is the encoded link of the list, and `reset` the bytes of
a huge page that was reset. -/
inductive FreeKind where
  | owner (link : ℕ)
  | other (link : ℕ) (useDelayed : Bool) (reset : Mem)

/-- What `pa_free_block_mt` leaves in the block before it is linked. -/
def freedMt (b : BlockBuild) (mem : Mem) (page : BlockPage) (block : ℕ)
    (reset : Mem) : Mem :=
  let mem := paddingShrink b mem page block 8
  let size := usableSize b mem page block
  if page.isHuge then
    fun a => if block + 8 ≤ a ∧ a < block + size then reset a else mem a
  else if b.debug then fill mem block size debugFreed
  else mem

/-- `pa_free` of an object, up to the release of an empty page. -/
def paFree (b : BlockBuild) (check : Bool) (st : BlockHeap)
    (o : HeapObject) (kind : FreeKind) : BlockHeap :=
  match st.pages o.page with
  | none => st
  | some page =>
      if ptrAccepted check o.ptr then
        match kind with
        | .owner link =>
            { st with
              mem := freedLocal b st.mem page (page.blockOf o.ptr) link
              live := st.live.erase o }
        | .other link useDelayed reset =>
            let block := page.ptrUnalign o.ptr
            { st with
              mem := store (freedMt b st.mem page block reset) block 8 link
              live := st.live.erase o
              delayed :=
                if useDelayed then (o.page, block) :: st.delayed
                else st.delayed }
      else st

theorem freedContent_changesOnly (hok : PageOk page)
    (hmem : FreedContent b page block (paddingShrink b mem page block 8)
      mem') : ChangesOnly block (block + page.blockSize) mem mem' := by
  have height := hok.eight_le
  have hshrink := @paddingShrink_changesOnly b mem page block 8 height
  generalize paddingShrink b mem page block 8 = mem₁ at hmem hshrink
  refine hshrink.trans ?_
  have hsize : usableSize b mem₁ page block ≤ page.blockSize := by
    have hle : ∀ block, pageUsableSizeOf b mem₁ page block ≤
        page.blockSize := fun block =>
      (pageUsableSizeOf_le b mem₁ page block).trans
        (usableBlockSize_le b page)
    unfold usableSize
    split
    · exact (Nat.sub_le _ _).trans (hle _)
    · exact hle block
  unfold FreedContent at hmem
  split at hmem
  · exact hmem.mono (by omega) (by omega)
  · split at hmem
    · rw [hmem]
      exact fill_changesOnly.mono le_rfl (by omega)
    · rw [hmem]
      exact ChangesOnly.refl _ _ _

theorem freedMt_content (reset : Mem) :
    FreedContent b page block (paddingShrink b mem page block 8)
      (freedMt b mem page block reset) := by
  unfold FreedContent freedMt
  dsimp only
  split
  · intro a ha
    exact if_neg (by omega)
  · split
    · rfl
    · rfl

/-- A free that is accepted removes the object, and changes bytes of its
block only. -/
theorem HeapOk.paFree (h : HeapOk b st) (ho : o ∈ st.live)
    (hpage : st.pages o.page = some page) {check : Bool}
    (hcheck : ptrAccepted check o.ptr = true) (kind : FreeKind) :
    HeapOk b (paFree b check st o kind) ∧
      (paFree b check st o kind).pages = st.pages ∧
      (paFree b check st o kind).live = st.live.erase o ∧
      ChangesOnly o.block (o.block + page.blockSize) st.mem
        (paFree b check st o kind).mem := by
  obtain ⟨usable, hobject⟩ := h.object ho hpage
  have hok := h.layout.ok o.page page hpage
  have height := hok.eight_le
  unfold Palloc.paFree
  rw [hpage]
  dsimp only
  rw [if_pos hcheck]
  cases kind with
  | owner link =>
      dsimp only
      rw [hobject.blockOf (.inl rfl)]
      have hmem := @freedLocal_changesOnly b st.mem o.block page link height
      exact ⟨h.remove ho hpage hmem false, rfl, rfl, hmem⟩
  | other link useDelayed reset =>
      dsimp only
      rw [hobject.unalign_ptr]
      have hmem : ChangesOnly o.block (o.block + page.blockSize) st.mem
          (store (freedMt b st.mem page o.block reset) o.block 8 link) :=
        (freedContent_changesOnly hok (freedMt_content reset)).trans
          (store_changesOnly.mono le_rfl (by omega))
      exact ⟨h.remove ho hpage hmem useDelayed, rfl, rfl, hmem⟩

theorem HeapOk.paFree_kept (h : HeapOk b st) (ho : o ∈ st.live)
    {check : Bool} (hcheck : ptrAccepted check o.ptr = true)
    (kind : FreeKind) (ho' : o' ∈ st.live) (hne : o' ≠ o) :
    ObjectKept b st (Palloc.paFree b check st o kind) o' := by
  obtain ⟨page, usable, hobject⟩ := h.live o ho
  obtain ⟨-, hpages, -, hmem⟩ := h.paFree ho hobject.hpage hcheck kind
  exact h.kept_other ho' hobject.toIsBlock
    (fun hslot => hne (h.eq_of_slot ho' ho hslot)) hpages hmem

end Palloc
