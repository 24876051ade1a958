import Palloc.HeapObjects

/-!
# The check for a double free

With encoded free lists `pa_free_block_local` first decodes the first word of
the block as if it were a link of the page.  Only when the result is null or
an aligned address in the page are the three lists of the page walked.  A word
of the program may pass the first test, so the walk decides; a block on a list
always passes it.
-/

namespace Palloc

open LinkedChain

/-! ## Addresses of a page -/

namespace BlockPage

/-- `_pa_segment_page_start`. -/
def area (page : BlockPage) : ℕ × ℕ :=
  segmentPageStartFromSlice page.segment page.idx page.sliceCount
    page.blockSize

def owner (page : BlockPage) : FreeListOwner :=
  ⟨BitVec.ofNat 64 page.addr, page.keys⟩

def blockPtr (page : BlockPage) (i : ℕ) : UintPtr :=
  BitVec.ofNat 64 (page.blockAt i)

/-- `pa_is_in_same_page` for an address `p` in the page. -/
def isInSamePage (page : BlockPage) (p q : UintPtr) : Bool :=
  if ptrSegment q ≠ ptrSegment p then false
  else page.area.1 ≤ q.toNat && q.toNat < page.area.1 + page.area.2

end BlockPage

/-- A page in memory: its blocks are in its slices and start in one segment,
and its record lies before them. -/
structure PageArea (page : BlockPage) : Prop where
  start_eq : page.pageStart = page.area.1
  fits : page.reserved * page.blockSize ≤ page.area.2
  pos : 0 < page.blockSize
  word : intptrSize ∣ page.blockSize
  start_word : intptrSize ∣ page.pageStart
  inside : page.segment * segmentSize < page.pageStart
  single : ∀ i < page.reserved,
    page.blockAt i ≤ (page.segment + 1) * segmentSize
  bound : (page.segment + 1) * segmentSize ≤ 2 ^ 63
  record : 0 < page.addr ∧ page.addr < page.pageStart

/-! ## The check -/

structure CheckedPage where
  page : BlockPage
  next : UintPtr → UintPtr
  free : UintPtr
  localFree : UintPtr
  threadFree : UintPtr
  used : ℕ

namespace CheckedPage

/-- `pa_block_next`: a link out of the page is reported and taken as the end
of the list. -/
def blockNext (st : CheckedPage) (block : UintPtr) : UintPtr :=
  let next := blockNextx st.next st.page.owner block
  if next ≠ 0 ∧ ¬st.page.isInSamePage block next then 0 else next

/-- `pa_list_contains`. -/
def listContains (st : CheckedPage) (elem : UintPtr) :
    (fuel : ℕ) → (list : UintPtr) → Option Bool
  | 0, _ => none
  | fuel + 1, list =>
      if list = 0 then some false
      else if elem = list then some true
      else listContains st elem fuel (st.blockNext list)

/-- `pa_check_is_double_freex`. -/
def checkIsDoubleFreex (st : CheckedPage) (fuel : ℕ) (block : UintPtr) :
    Option Bool :=
  match st.listContains block fuel st.free with
  | none => none
  | some true => some true
  | some false =>
      match st.listContains block fuel st.localFree with
      | none => none
      | some true => some true
      | some false => st.listContains block fuel st.threadFree

/-- `pa_check_is_double_free`. -/
def checkIsDoubleFree (st : CheckedPage) (fuel : ℕ) (block : UintPtr) :
    Option Bool :=
  let n := blockNextx st.next st.page.owner block
  if n &&& BitVec.ofNat 64 (intptrSize - 1) = 0 ∧
      (n = 0 ∨ st.page.isInSamePage block n) then
    st.checkIsDoubleFreex fuel block
  else some false

/-- `pa_free_block_local`, up to what follows when the page was full or has
become empty. -/
def freeBlockLocal (st : CheckedPage) (fuel : ℕ) (block : UintPtr) :
    Option CheckedPage :=
  match st.checkIsDoubleFree fuel block with
  | none => none
  | some true => some st
  | some false =>
      some
        { st with
          next := blockSetNextx st.next st.page.owner block st.localFree
          localFree := block
          used := (st.used + 65535) % 65536 }

end CheckedPage

/-! ## Blocks of a page -/

theorem and_not_segmentMask {x y : UintPtr}
    (h : x.toNat / segmentSize = y.toNat / segmentSize) :
    x &&& ~~~BitVec.ofNat 64 (segmentSize - 1) =
      y &&& ~~~BitVec.ofNat 64 (segmentSize - 1) := by
  apply BitVec.eq_of_toNat_eq
  rw [toNat_and_not_segmentMask, toNat_and_not_segmentMask, h]

namespace PageArea

variable {page : BlockPage} {i j : ℕ}

theorem blockAt_lt (h : PageArea page) (hi : i < page.reserved) :
    page.area.1 ≤ page.blockAt i ∧
      page.blockAt i < page.area.1 + page.area.2 := by
  have hpos := h.pos
  have hfits := h.fits
  have hstart := h.start_eq
  have hmul : i * page.blockSize + page.blockSize ≤
      page.reserved * page.blockSize := by
    rw [← Nat.succ_mul]
    exact Nat.mul_le_mul_right _ hi
  unfold BlockPage.blockAt
  omega

theorem toNat_blockPtr (h : PageArea page) (hi : i < page.reserved) :
    (page.blockPtr i).toNat = page.blockAt i := by
  have hbound := h.bound
  have hsingle := h.single i hi
  unfold BlockPage.blockPtr
  rw [BitVec.toNat_ofNat]
  exact Nat.mod_eq_of_lt (by omega)

theorem blockPtr_ne_zero (h : PageArea page) (hi : i < page.reserved) :
    page.blockPtr i ≠ 0 := by
  intro hzero
  have hnat := h.toNat_blockPtr hi
  rw [hzero] at hnat
  have hle := (h.blockAt_lt hi).1
  have hinside := h.inside
  have hstart := h.start_eq
  have hnat' : 0 = page.blockAt i := hnat
  omega

theorem toNat_self (h : PageArea page) (hi : i < page.reserved) :
    page.owner.self.toNat = page.addr := by
  have hle := (h.blockAt_lt hi).1
  have hsingle := h.single i hi
  have hbound := h.bound
  have hstart := h.start_eq
  have hrecord := h.record.2
  unfold BlockPage.owner
  rw [BitVec.toNat_ofNat]
  exact Nat.mod_eq_of_lt (by omega)

theorem blockPtr_ne_self (h : PageArea page) (hi : i < page.reserved) :
    page.blockPtr i ≠ page.owner.self := by
  intro hself
  have hnat := h.toNat_blockPtr hi
  have hle := (h.blockAt_lt hi).1
  have hstart := h.start_eq
  have hrecord := h.record.2
  rw [hself, h.toNat_self hi] at hnat
  omega

theorem blockPtr_aligned (h : PageArea page) (hi : i < page.reserved) :
    page.blockPtr i &&& BitVec.ofNat 64 (intptrSize - 1) = 0 := by
  apply BitVec.eq_of_toNat_eq
  have hmask : (BitVec.ofNat 64 (intptrSize - 1)).toNat = 2 ^ 3 - 1 := rfl
  have hdvd : intptrSize ∣ page.blockAt i :=
    Nat.dvd_add h.start_word (Dvd.dvd.mul_left h.word i)
  rw [BitVec.toNat_and, h.toNat_blockPtr hi, hmask,
    Nat.and_two_pow_sub_one_eq_mod]
  exact Nat.mod_eq_zero_of_dvd hdvd

theorem ptrSegment_blockPtr (h : PageArea page) (hi : i < page.reserved)
    (hj : j < page.reserved) :
    ptrSegment (page.blockPtr i) =
      ptrSegment (page.blockPtr j) := by
  have hsegment : ∀ {k}, k < page.reserved →
      (page.blockPtr k - 1).toNat / segmentSize = page.segment := by
    intro k hk
    have hle := (h.blockAt_lt hk).1
    have hinside := h.inside
    have hstart := h.start_eq
    have hsingle := h.single k hk
    have hone : (1 : UintPtr) ≤ page.blockPtr k := by
      rw [BitVec.le_def, h.toNat_blockPtr hk]
      show 1 ≤ page.blockAt k
      omega
    rw [BitVec.toNat_sub_of_le hone, h.toNat_blockPtr hk]
    show (page.blockAt k - 1) / segmentSize = page.segment
    apply Nat.div_eq_of_lt_le
    · omega
    · rw [Nat.succ_mul] at *
      omega
  have hand := and_not_segmentMask
    ((hsegment hi).trans (hsegment hj).symm)
  unfold ptrSegment
  rw [hand]

theorem isInSamePage_blockPtr (h : PageArea page) (hi : i < page.reserved)
    (hj : j < page.reserved) :
    page.isInSamePage (page.blockPtr i) (page.blockPtr j) = true := by
  have hrange := h.blockAt_lt hj
  unfold BlockPage.isInSamePage
  rw [if_neg (not_not.mpr (h.ptrSegment_blockPtr hj hi)), Bool.and_eq_true,
    decide_eq_true_iff, decide_eq_true_iff, h.toNat_blockPtr hj]
  exact hrange

end PageArea

/-- The pages that `pa_page_init` sets up: in a normal segment the slices end
with the segment, and a huge page has one block. -/
theorem blockPageInit_area {addr segment idx sliceCount blockSize : ℕ}
    {isHuge isZeroInit : Bool} {keys : FreeListKeys}
    (hcount : 0 < sliceCount) (hpos : 0 < blockSize)
    (hword : intptrSize ∣ blockSize)
    (hlarge : isHuge = false → blockSize ≤ largeObjSizeMax)
    (hidx : 0 < idx)
    (hslices : idx + sliceCount ≤ slicesPerSegment ∨
      idx < slicesPerSegment ∧ blockSize = sliceCount * segmentSliceSize)
    (hbound : (segment + 1) * segmentSize ≤ 2 ^ 63)
    (haddr : 0 < addr ∧ addr < segment * segmentSize + idx * segmentSliceSize) :
    PageArea (blockPageInit addr segment idx sliceCount blockSize isHuge
      isZeroInit keys) := by
  have hok := @blockPageInit_ok addr segment idx sliceCount blockSize isHuge
    isZeroInit keys hcount hpos hword hlarge
  have hstartWord := blockPageInit_word addr segment idx sliceCount blockSize
    isHuge isZeroInit keys
  have hgeometry : segmentSize = slicesPerSegment * segmentSliceSize := by
    decide
  have hslice : 0 < segmentSliceSize := by decide
  set page := blockPageInit addr segment idx sliceCount blockSize isHuge
    isZeroInit keys with hpage
  have hstart : segment * segmentSize + idx * segmentSliceSize ≤
      page.pageStart := Nat.le_add_right _ _
  have hidxSlice : segmentSliceSize ≤ idx * segmentSliceSize :=
    Nat.le_mul_of_pos_left _ hidx
  have hreserved : page.reserved * blockSize ≤ page.area.2 :=
    (Nat.mul_le_mul_right _ (Nat.mod_le _ _)).trans
      (Nat.div_mul_le_self _ _)
  refine ⟨rfl, hreserved, hpos, hword, hstartWord, ?_, ?_, hbound, haddr.1,
    lt_of_lt_of_le haddr.2 hstart⟩
  · show segment * segmentSize < page.pageStart
    omega
  · intro i hi
    have hend : page.blockAt i + blockSize ≤ segment * segmentSize +
        idx * segmentSliceSize + sliceCount * segmentSliceSize :=
      (hok.area i hi).2
    show page.blockAt i ≤ (segment + 1) * segmentSize
    rw [Nat.succ_mul, hgeometry]
    rcases hslices with hnormal | ⟨hinfo, hhuge⟩
    · have hle := Nat.mul_le_mul_right segmentSliceSize hnormal
      rw [Nat.add_mul] at hle
      rw [hgeometry] at hend
      omega
    · have hle := Nat.mul_le_mul_right segmentSliceSize hinfo.le
      rw [← hhuge, hgeometry] at hend
      omega

/-! ## Walking the lists -/

namespace CheckedPage

variable {st : CheckedPage} {free localFree threadFree l : List UintPtr}
variable {block head elem : UintPtr} {fuel : ℕ}

structure ListOk (st : CheckedPage) (head : UintPtr) (l : List UintPtr) :
    Prop where
  chain : IsChain (st.page.owner.link st.next) (nonNull head) l
  blocks : ∀ block ∈ l, ∃ i < st.page.reserved, block = st.page.blockPtr i

structure ListsOk (st : CheckedPage)
    (free localFree threadFree : List UintPtr) : Prop where
  free : st.ListOk st.free free
  localFree : st.ListOk st.localFree localFree
  threadFree : st.ListOk st.threadFree threadFree

/-- What `pa_block_nextx` reads in a block of a list. -/
theorem nextx_of_link {target : Option UintPtr}
    (hlink : st.page.owner.link st.next block = target) :
    blockNextx st.next st.page.owner block = target.getD 0 := by
  unfold FreeListOwner.link at hlink
  cases target with
  | none => exact nonNull_eq_none.mp hlink
  | some q => exact (nonNull_eq_some.mp hlink).2

/-- The check of `pa_block_next` does not cut a list of blocks. -/
theorem blockNext_eq (harea : PageArea st.page)
    (hblock : ∃ i < st.page.reserved, block = st.page.blockPtr i)
    (hnext : ∀ q, st.page.owner.link st.next block = some q →
      ∃ i < st.page.reserved, q = st.page.blockPtr i) :
    nonNull (st.blockNext block) = st.page.owner.link st.next block := by
  obtain ⟨i, hi, rfl⟩ := hblock
  have hkeep : ¬(blockNextx st.next st.page.owner (st.page.blockPtr i) ≠ 0 ∧
      ¬st.page.isInSamePage (st.page.blockPtr i)
        (blockNextx st.next st.page.owner (st.page.blockPtr i))) := by
    rintro ⟨hne, hother⟩
    obtain ⟨j, hj, hq⟩ := hnext _ (nonNull_of_ne hne)
    rw [hq] at hother
    exact hother (harea.isInSamePage_blockPtr hi hj)
  unfold blockNext
  rw [if_neg hkeep]
  rfl

theorem listContains_eq (harea : PageArea st.page) (h : st.ListOk head l)
    (hfuel : l.length < fuel) :
    st.listContains elem fuel head = some (decide (elem ∈ l)) := by
  induction l generalizing head fuel with
  | nil =>
      have hhead := nonNull_eq_none.mp h.chain
      obtain ⟨fuel, rfl⟩ := Nat.exists_eq_succ_of_ne_zero (by omega :
        fuel ≠ 0)
      unfold listContains
      rw [if_pos hhead]
      rfl
  | cons first rest ih =>
      obtain ⟨hhead, hrest⟩ := h.chain
      obtain ⟨hne, rfl⟩ := nonNull_eq_some.mp hhead
      rw [List.length_cons] at hfuel
      obtain ⟨fuel, rfl⟩ := Nat.exists_eq_succ_of_ne_zero (by omega :
        fuel ≠ 0)
      have hnext := blockNext_eq harea
        (h.blocks head List.mem_cons_self) (by
          intro q hq
          rw [hq] at hrest
          obtain ⟨rest', rfl, -⟩ := hrest.exists_rest
          exact h.blocks q (List.mem_cons_of_mem head List.mem_cons_self))
      have hok : st.ListOk (st.blockNext head) rest := by
        refine ⟨?_, fun b hb => h.blocks b (List.mem_cons_of_mem head hb)⟩
        rw [hnext]
        exact hrest
      unfold listContains
      rw [if_neg hne]
      by_cases heq : elem = head
      · rw [if_pos heq, decide_eq_true (heq ▸ List.mem_cons_self)]
      · rw [if_neg heq, ih hok (by omega)]
        simp [heq]

theorem ListOk.length_le (h : st.ListOk head l) :
    l.length ≤ st.page.reserved := by
  have hsub : l ⊆ (List.range st.page.reserved).map st.page.blockPtr := by
    intro block hblock
    obtain ⟨i, hi, rfl⟩ := h.blocks block hblock
    exact List.mem_map_of_mem (List.mem_range.mpr hi)
  have hle := (List.subperm_of_subset h.chain.nodup hsub).length_le
  rw [List.length_map, List.length_range] at hle
  exact hle

theorem ListOk.head_ne_self {i : ℕ} (harea : PageArea st.page)
    (h : st.ListOk head l) (hi : i < st.page.reserved) :
    head ≠ st.page.owner.self := by
  intro hself
  cases l with
  | nil =>
      have hzero := nonNull_eq_none.mp h.chain
      have hnat : st.page.owner.self.toNat = 0 := by
        rw [← hself, hzero]
        rfl
      have haddr := harea.toNat_self hi
      have hpos := harea.record.1
      omega
  | cons first rest =>
      obtain ⟨-, rfl⟩ := nonNull_eq_some.mp h.chain.1
      obtain ⟨j, hj, hblock⟩ := h.blocks head List.mem_cons_self
      exact harea.blockPtr_ne_self hj (hblock.symm.trans hself)

/-- A block on a list passes the quick test: its link is null or a block of
the page. -/
theorem ListOk.quick (harea : PageArea st.page) (h : st.ListOk head l)
    (hmem : block ∈ l) :
    let n := blockNextx st.next st.page.owner block
    n &&& BitVec.ofNat 64 (intptrSize - 1) = 0 ∧
      (n = 0 ∨ st.page.isInSamePage block n) := by
  obtain ⟨i, hi, hblock⟩ := h.blocks block hmem
  obtain ⟨before, after, rfl⟩ := List.append_of_mem hmem
  have hlink := h.chain.suffix.2.head_eq
  have hn := nextx_of_link hlink
  cases after with
  | nil =>
      have hzero : blockNextx st.next st.page.owner block = 0 := hn
      dsimp only
      rw [hzero]
      exact ⟨rfl, Or.inl rfl⟩
  | cons q rest =>
      have hq : blockNextx st.next st.page.owner block = q := hn
      obtain ⟨j, hj, rfl⟩ := h.blocks q (by simp)
      dsimp only
      rw [hq, hblock]
      exact ⟨harea.blockPtr_aligned hj,
        Or.inr (harea.isInSamePage_blockPtr hi hj)⟩

theorem checkIsDoubleFreex_eq (harea : PageArea st.page)
    (h : st.ListsOk free localFree threadFree)
    (hfuel : st.page.reserved < fuel) :
    st.checkIsDoubleFreex fuel block =
      some (decide (block ∈ free ∨ block ∈ localFree ∨
        block ∈ threadFree)) := by
  have hwalk : ∀ {head l}, st.ListOk head l →
      st.listContains block fuel head = some (decide (block ∈ l)) :=
    fun hl => listContains_eq harea hl (hl.length_le.trans_lt hfuel)
  unfold checkIsDoubleFreex
  rw [hwalk h.free, hwalk h.localFree, hwalk h.threadFree]
  by_cases hfree : block ∈ free
  · simp [hfree]
  · by_cases hlocal : block ∈ localFree
    · simp [hfree, hlocal]
    · simp [hfree, hlocal]

/-- The quick test does not change the answer. -/
theorem checkIsDoubleFree_eq (harea : PageArea st.page)
    (h : st.ListsOk free localFree threadFree)
    (hfuel : st.page.reserved < fuel) :
    st.checkIsDoubleFree fuel block =
      some (decide (block ∈ free ∨ block ∈ localFree ∨
        block ∈ threadFree)) := by
  unfold checkIsDoubleFree
  dsimp only
  split
  · exact checkIsDoubleFreex_eq harea h hfuel
  · next hquick =>
      have hnot : ¬(block ∈ free ∨ block ∈ localFree ∨
          block ∈ threadFree) := by
        rintro (hmem | hmem | hmem)
        · exact hquick (h.free.quick harea hmem)
        · exact hquick (h.localFree.quick harea hmem)
        · exact hquick (h.threadFree.quick harea hmem)
      rw [decide_eq_false hnot]

theorem ListOk.setNext {target : UintPtr} {st' : CheckedPage}
    (h : st.ListOk head l) (hnot : block ∉ l) (hpage : st'.page = st.page)
    (hnext : st'.next =
      blockSetNextx st.next st.page.owner block target) :
    st'.ListOk head l := by
  constructor
  · rw [hpage, hnext]
    apply h.chain.congr
    intro other hother
    apply FreeListOwner.link_update_of_ne
    rintro rfl
    exact hnot hother
  · rw [hpage]
    exact h.blocks

end CheckedPage

/-! ## The check is exact -/

section Exact

variable {st : CheckedPage} {free localFree threadFree : List UintPtr}
variable {i fuel : ℕ}

/-- The check says whether the block is on a list of the page; a free of a
listed block changes nothing, and any other block is pushed on
`local_free`. -/
theorem double_free_exact (harea : PageArea st.page)
    (h : st.ListsOk free localFree threadFree) (hi : i < st.page.reserved)
    (hfuel : st.page.reserved < fuel) :
    let block := st.page.blockPtr i
    let listed := block ∈ free ∨ block ∈ localFree ∨ block ∈ threadFree
    st.checkIsDoubleFree fuel block = some (decide listed) ∧
      (listed → st.freeBlockLocal fuel block = some st) ∧
      (¬listed → ∃ st', st.freeBlockLocal fuel block = some st' ∧
        st'.page = st.page ∧ st'.used = (st.used + 65535) % 65536 ∧
        st'.ListsOk free (block :: localFree) threadFree) := by
  intro block listed
  have hcheck : st.checkIsDoubleFree fuel block = some (decide listed) :=
    CheckedPage.checkIsDoubleFree_eq harea h hfuel
  refine ⟨hcheck, ?_, ?_⟩
  · intro hlisted
    unfold CheckedPage.freeBlockLocal
    rw [hcheck, decide_eq_true hlisted]
  · intro hlive
    obtain ⟨hfree, hlive'⟩ := not_or.mp hlive
    obtain ⟨hlocal, hthread⟩ := not_or.mp hlive'
    unfold CheckedPage.freeBlockLocal
    rw [hcheck, decide_eq_false hlive]
    refine ⟨_, rfl, rfl, rfl, h.free.setNext hfree rfl rfl, ?_,
      h.threadFree.setNext hthread rfl rfl⟩
    have hrest := @CheckedPage.ListOk.setNext _ _ _ _ _ { st with
      next := blockSetNextx st.next st.page.owner block st.localFree
      localFree := block
      used := (st.used + 65535) % 65536 } h.localFree hlocal rfl rfl
    have hself := h.localFree.head_ne_self harea hi
    constructor
    · refine ⟨nonNull_of_ne (harea.blockPtr_ne_zero hi), ?_⟩
      rw [FreeListOwner.link_setNextx _ _ _ hself]
      exact hrest.chain
    · intro other hother
      rcases List.mem_cons.mp hother with rfl | hold
      · exact ⟨i, hi, rfl⟩
      · exact hrest.blocks other hold

/-- A page with two blocks on its free list; the other blocks are live and
hold words that decode to null. -/
def checkedStart : CheckedPage :=
  let page := blockPageInit 33554528 1 1 1 4096 false false ⟨5, 77⟩
  let null := ptrEncode page.owner.self 0 page.keys
  { page := page
    next := blockSetNextx (fun _ => null) page.owner (page.blockPtr 3)
      (page.blockPtr 1)
    free := page.blockPtr 3
    localFree := 0
    threadFree := 0
    used := 14 }

theorem checkedStart_area : PageArea checkedStart.page :=
  blockPageInit_area (by decide) (by decide) (by decide) (fun _ => by decide)
    (by decide) (Or.inl (by decide)) (by decide) (by decide)

theorem checkedStart_lists : checkedStart.ListsOk
    [checkedStart.page.blockPtr 3, checkedStart.page.blockPtr 1] [] [] := by
  refine ⟨⟨?_, ?_⟩, ⟨rfl, fun _ hmem => nomatch hmem⟩,
    ⟨rfl, fun _ hmem => nomatch hmem⟩⟩
  · refine ⟨?_, ?_, (isChain_nil _ _).mpr ?_⟩
    · decide +kernel
    · decide +kernel
    · decide +kernel
  · intro block hblock
    rcases List.mem_pair.mp hblock with rfl | rfl
    · exact ⟨3, by decide, rfl⟩
    · exact ⟨1, by decide, rfl⟩

/-- The link of the live block 2 decodes to null, but it is on no list. -/
theorem double_free_exact_live :
    ∃ st', checkedStart.freeBlockLocal 17 (checkedStart.page.blockPtr 2) =
        some st' ∧ st'.page = checkedStart.page ∧
      st'.used = (checkedStart.used + 65535) % 65536 ∧
      st'.ListsOk
        [checkedStart.page.blockPtr 3, checkedStart.page.blockPtr 1]
        [checkedStart.page.blockPtr 2] [] := by
  apply (double_free_exact checkedStart_area checkedStart_lists
    (i := 2) (by decide) (by decide)).2.2
  decide +kernel

end Exact

end Palloc
