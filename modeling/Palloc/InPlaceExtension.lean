import Palloc.QueuedHeapInvariant

/-!
# A page that `realloc` extends in place

`_pa_heap_realloc_zero` extends every page of several slices, whatever it
holds, and makes one block of the whole page.  What it returns belongs to the
caller alone when the page holds one block and the new size fits behind the
offset of the pointer; a page of many medium blocks is extended over them.
-/

namespace Palloc

open ByteMemory BlockHeap

namespace QueuedHeap

variable {b : BlockBuild} {cfg : Config} {st st' : QueuedHeap}
variable {page page' : BlockPage} {o : HeapObject} {newsize : ℕ}

/-! ## What an extension changes -/

theorem heapReallocZero_extended {layer : PageLayer b} {check zero : Bool}
    {st : BlockHeap} {next : ℕ} {commit : Bool} {r : Reallocation}
    (hresult : heapReallocZero layer check st (some o) newsize zero next
      commit = some r) (hextended : r.extended = true) :
    ∃ page, st.pages o.page = some page ∧
      ReallocExtends page (usableSize b st.mem page o.ptr) newsize next
        commit ∧
      r.heap = st.reallocExtend b o page newsize zero := by
  have hcopy : ∀ size, (reallocCopy layer check st (some o) size newsize
      zero).extended = false := by
    intro size
    unfold reallocCopy
    split
    · rfl
    · rfl
  unfold heapReallocZero at hresult
  dsimp only at hresult
  split at hresult
  · obtain rfl := Option.some.inj hresult
    exact nomatch hextended
  split at hresult
  · cases hvalid : validatePtrPage check st o with
    | none =>
        rw [hvalid] at hresult
        exact nomatch hresult
    | some page =>
        rw [hvalid] at hresult
        dsimp only at hresult
        split at hresult
        · next hextends =>
            obtain rfl := Option.some.inj hresult
            unfold validatePtrPage at hvalid
            split at hvalid
            · exact ⟨page, hvalid, hextends, rfl⟩
            · exact nomatch hvalid
        · obtain rfl := Option.some.inj hresult
          rw [hcopy] at hextended
          exact nomatch hextended
  · obtain rfl := Option.some.inj hresult
    rw [hcopy] at hextended
    exact nomatch hextended

structure Extended (st : QueuedHeap) (o : HeapObject) (newsize : ℕ)
    (st' : QueuedHeap) (page page' : BlockPage) : Prop where
  before : st.heap.pages o.page = some page
  slices : 1 < page.sliceCount
  more : page.sliceCount < sizeSlices newsize
  entries : page.idx + sizeSlices newsize ≤ st.sliceEntries o.page
  new : page' = extendPage page (needSlices page newsize)
  pages : st'.heap.pages = Function.update st.heap.pages o.page (some page')
  live : st'.heap.live =
    { o with asked := newsize } :: st.heap.live.erase o
  rest : st' = { st with heap := st'.heap }

theorem Extension.extended (h : Extension b st o newsize st') :
    ∃ page page', Extended st o newsize st' page page' := by
  obtain ⟨layer, check, zero, commit, next, r, hnext, hresult, hextended,
    rfl⟩ := h.realloc
  obtain ⟨page, hpage, hextends, hheap⟩ :=
    heapReallocZero_extended hresult hextended
  obtain ⟨-, -, hslices, hneed, hle, -⟩ := hextends
  have hentries := (hnext page hpage).entries (hneed.trans_le hle)
  change 0 < sizeSlices newsize - page.sliceCount at hneed
  change sizeSlices newsize - page.sliceCount ≤ next at hle
  refine ⟨page, _, hpage, hslices, by omega, by omega, rfl, ?_, ?_, rfl⟩
  · exact congrArg BlockHeap.pages hheap
  · exact congrArg BlockHeap.live hheap

section Fields

variable (h : Extended st o newsize st' page page')

include h

theorem Extended.after : st'.heap.pages o.page = some page' := by
  rw [h.pages, Function.update_self]

theorem Extended.sliceCount : page'.sliceCount = sizeSlices newsize := by
  have hmore := h.more
  rw [h.new]
  change page.sliceCount + (sizeSlices newsize - page.sliceCount) = _
  omega

theorem Extended.blockSize :
    page'.blockSize = sizeSlices newsize * segmentSliceSize := by
  rw [← h.sliceCount, h.new]
  rfl

theorem Extended.sliceEnd :
    page'.sliceEnd =
      page.sliceStart + sizeSlices newsize * segmentSliceSize := by
  unfold BlockPage.sliceEnd
  rw [h.sliceCount, h.new, extendPage_sliceStart]

theorem Extended.pageStart : page'.pageStart = page.pageStart := by
  simp [h.new]

theorem Extended.sliceStart : page'.sliceStart = page.sliceStart := by
  simp [h.new]

theorem Extended.isHuge : page'.isHuge = page.isHuge := by
  simp [h.new]

theorem Extended.reserved : page'.reserved = page.reserved := by
  simp [h.new]

theorem Extended.capacity : st'.capacity = st.capacity := by
  rw [h.rest]

theorem Extended.large : mediumObjSizeMax < page'.blockSize := by
  have htwo : 2 ≤ sizeSlices newsize := h.slices.trans h.more
  rw [h.blockSize]
  unfold mediumObjSizeMax mediumPageSize segmentSliceSize
  omega

theorem Extended.not_huge (hok : st.QueuedOk) : page.isHuge = false := by
  by_contra hhuge
  have hle := (hok.page _ page h.before).huge (by simpa using hhuge)
  have hmore := h.more
  have hentries := h.entries
  omega

end Fields

/-! ## What the caller gets -/

structure OwnMemory (st st' : QueuedHeap) (o : HeapObject) (newsize : ℕ)
    (page page' : BlockPage) : Prop where
  before : st.heap.pages o.page = some page
  after : st'.heap.pages o.page = some page'
  inside : page'.pageStart ≤ o.ptr ∧ o.ptr + newsize ≤ page'.sliceEnd
  apart : ∀ i < page.reserved,
    ¬(page.blockAt i ≤ o.ptr ∧ o.ptr < page.blockAt i + page.blockSize) →
      page.blockAt i + page.blockSize ≤ o.ptr ∨
        o.ptr + newsize ≤ page.blockAt i
  fits : page'.pageStart + st'.capacity o.page * page'.blockSize ≤
    page'.sliceEnd
  linked : st'.queues.InQueue (st'.queueOf o.page page') o.page

def ReturnsOwnMemory (st st' : QueuedHeap) (o : HeapObject) (newsize : ℕ) :
    Prop :=
  ∃ page page', OwnMemory st st' o newsize page page'

theorem QueuesPlaced.inQueue (h : st.QueuesPlaced) {id : ℕ}
    (howned : st.Owned id) (hpage : st.heap.pages id = some page) :
    st.queues.InQueue (st.queueOf id page) id := by
  obtain ⟨lists, hlaw, hfits⟩ := h
  obtain ⟨queue, hqueue, hmem⟩ := (hlaw.queued_iff subset_rfl).mp howned
  obtain ⟨same, hsame, hbin⟩ := hfits queue id hmem
  obtain rfl := Option.some.inj (hpage.symm.trans hsame)
  have heq : st.queueOf id page = queue := by
    refine Prod.ext (hlaw.xheap queue id hmem) ?_
    unfold queueOf
    dsimp only
    by_cases hfull : queue.2 = binFull
    · rw [if_pos ((hlaw.inFull queue id hmem).mpr hfull), hfull]
    · have hnot : ¬st.queues.inFull id = true := fun hyes =>
        hfull ((hlaw.inFull queue id hmem).mp hyes)
      rw [if_neg hnot]
      exact (hbin.resolve_left hfull).symm
  rw [heq]
  exact (hlaw.inQueue_iff hqueue).mpr hmem

/-- The page that is extended is one large block, and stays with the large
pages. -/
theorem Extended.growable (h : Extended st o newsize st' page page')
    (hok : st.QueuedOk) (hsingle : page.reserved = 1) : Growable page :=
  (hok.page _ page h.before).growable (h.not_huge hok) h.slices hsingle

theorem Extended.pageBin (h : Extended st o newsize st' page page')
    (hok : st.QueuedOk) (hsingle : page.reserved = 1) :
    page'.pageBin = page.pageBin := by
  rw [pageBin_large h.large, pageBin_large (h.growable hok hsingle).large]

theorem Extended.ok (h : Extended st o newsize st' page page')
    (hok : st.QueuedOk) (hmem : o ∈ st.heap.live)
    (hsingle : page.reserved = 1) : st'.QueuedOk := by
  have hgrowable := h.growable hok hsingle
  have hsound := hok.page _ page h.before
  have hpages : ∀ id, id ≠ o.page →
      st'.heap.pages id = st.heap.pages id := by
    intro id hid
    rw [h.pages, Function.update_of_ne hid]
  have hplaced : ∀ other, st.ObjectPlaced other → st'.ObjectPlaced other := by
    rintro other ⟨old, i, hold, hi, hblock, hptr⟩
    by_cases hother : other.page = o.page
    · rw [hother] at hold
      obtain rfl := Option.some.inj (h.before.symm.trans hold)
      refine ⟨page', i, ?_, ?_, ?_, hptr⟩
      · rw [hother]
        exact h.after
      · rw [h.reserved]
        exact hi
      · -- there is one block, at the start of the page
        obtain rfl : i = 0 := by omega
        rw [hblock]
        unfold BlockPage.blockAt
        rw [Nat.zero_mul, Nat.zero_mul, h.pageStart]
    · exact ⟨old, i, (hpages _ hother).trans hold, hi, hblock, hptr⟩
  refine ⟨?_, ?_, ?_⟩
  · intro id new hnew
    by_cases hid : id = o.page
    · subst hid
      obtain rfl := Option.some.inj (h.after.symm.trans hnew)
      refine ⟨?_, ?_, ?_, ?_, ?_⟩
      · rw [h.pageStart, h.sliceStart]
        exact hsound.start
      · rw [h.capacity, h.reserved]
        exact hsound.carved
      · rw [h.capacity, h.reserved]
        exact hsound.first
      · intro _ _ _
        refine ⟨?_, h.large⟩
        rw [h.pageStart, hgrowable.pageStart, h.sliceStart]
      · intro hhuge
        rw [h.isHuge, h.not_huge hok] at hhuge
        exact nomatch hhuge
    · rw [hpages id hid] at hnew
      rw [h.rest]
      exact (hok.page id new hnew).congr rfl rfl
  · intro other hother
    rw [h.live] at hother
    rcases List.mem_cons.mp hother with rfl | hother
    · exact hplaced { o with asked := newsize } (hok.object o hmem)
    · exact hplaced other (hok.object other (List.mem_of_mem_erase hother))
  · rw [h.rest]
    apply hok.queues.pages
    intro id old _ hold
    by_cases hid : id = o.page
    · subst hid
      obtain rfl := Option.some.inj (h.before.symm.trans hold)
      exact ⟨page', h.after, h.pageBin hok hsingle⟩
    · exact ⟨old, (hpages id hid).trans hold, rfl⟩

theorem Reachable.ok (hrun : Reachable b cfg st) : st.QueuedOk := by
  induction hrun with
  | start mem => exact start_ok mem
  | step _ hstep ih => exact hstep.ok ih
  | extend _ hextend hfits ih =>
      obtain ⟨page, page', h⟩ := hextend.extended
      obtain ⟨same, hsame, hsingle, -⟩ := hfits
      obtain rfl := Option.some.inj (h.before.symm.trans hsame)
      exact h.ok ih hextend.mem hsingle

/-! ## When the memory is the caller's -/

/-- A page with more than one block has too many of them for its new block
size. -/
theorem Extended.single (h : Extended st o newsize st' page page')
    (hok : st.QueuedOk) (hmem : o ∈ st.heap.live)
    (hfits : page'.pageStart + st'.capacity o.page * page'.blockSize ≤
      page'.sliceEnd) : page.reserved = 1 := by
  have hfirst := (hok.page _ page h.before).first
  have hstart := (hok.page _ page h.before).start
  obtain ⟨same, i, hsame, hi, -⟩ := hok.object o hmem
  obtain rfl := Option.some.inj (h.before.symm.trans hsame)
  rw [h.pageStart, h.capacity, h.blockSize, h.sliceEnd] at hfits
  have hpos : 0 < sizeSlices newsize * segmentSliceSize :=
    Nat.mul_pos (by have := h.more; omega) (by decide)
  have hone : st.capacity o.page ≤ 1 := by
    by_contra htwo
    have hmul := Nat.mul_le_mul_right (sizeSlices newsize * segmentSliceSize)
      (show 2 ≤ st.capacity o.page by omega)
    omega
  omega

/-- After any run whose extensions are of pages with one block and fit, the
next one returns memory of the caller alone if and only if it is so too. -/
theorem extension_owns_memory (hrun : Reachable b cfg st)
    (hextend : Extension b st o newsize st') :
    ReturnsOwnMemory st st' o newsize ↔ st.heap.SingleBlockFits o newsize := by
  have hok := hrun.ok
  obtain ⟨page, page', h⟩ := hextend.extended
  constructor
  · rintro ⟨p, p', howns⟩
    obtain rfl := Option.some.inj (h.before.symm.trans howns.before)
    obtain rfl := Option.some.inj (h.after.symm.trans howns.after)
    refine ⟨page, h.before, h.single hok hextend.mem howns.fits, ?_⟩
    rw [← h.sliceEnd]
    exact howns.inside.2
  · rintro ⟨p, hp, hsingle, hfits⟩
    obtain rfl := Option.some.inj (h.before.symm.trans hp)
    have hok' := h.ok hok hextend.mem hsingle
    have hstart := (h.growable hok hsingle).pageStart
    obtain ⟨same, i, hsame, hi, hblock, hptr⟩ := hok.object o hextend.mem
    obtain rfl := Option.some.inj (h.before.symm.trans hsame)
    have hzero : page.blockAt 0 = page.pageStart := by
      unfold BlockPage.blockAt
      rw [Nat.zero_mul, Nat.add_zero]
    obtain rfl : i = 0 := by omega
    rw [hblock, hzero] at hptr
    refine ⟨page, page', h.before, h.after, ⟨?_, ?_⟩, ?_, ?_, ?_⟩
    · rw [h.pageStart]
      exact hptr
    · rw [h.sliceEnd]
      exact hfits
    · intro j hj hnot
      obtain rfl : j = 0 := by omega
      rw [hzero] at hnot ⊢
      omega
    · have hcarved := (hok.page _ page h.before).carved
      have hle := Nat.mul_le_mul_right
        (sizeSlices newsize * segmentSliceSize) hcarved
      rw [hsingle, Nat.one_mul] at hle
      rw [h.pageStart, h.capacity, h.blockSize, h.sliceEnd, hstart]
      omega
    · apply hok'.queues.inQueue _ h.after
      rw [h.rest]
      exact hextend.owned

/-! ## Two pages -/

section Solo

def plainBuild : BlockBuild := ⟨false, false, false⟩

def soloStart : QueuedHeap :=
  { start (fun _ => 0#8) with
    queues := noQueues.initHeap 0
    alive := insert 0 ∅ }

def soloPages (cfg : Config) (blockSize : ℕ) : QueuedHeap :=
  QueuedHeap.freshPage cfg soloStart 0 0 512
    (Palloc.freshPage 0 (pageSlices blockSize) blockSize)

def soloObject (blockSize : ℕ) : HeapObject :=
  let start := (Palloc.freshPage 0 (pageSlices blockSize) blockSize).pageStart
  ⟨0, start, start, blockSize⟩

/-- The heap with one page and one object in its first block. -/
def soloHeap (cfg : Config) (blockSize : ℕ) : QueuedHeap :=
  { soloPages cfg blockSize with
    heap := malloc plainBuild (soloPages cfg blockSize).heap 0
      (Palloc.freshPage 0 (pageSlices blockSize) blockSize)
      (soloObject blockSize).block blockSize false }

variable {blockSize : ℕ}

theorem soloStart_step (cfg : Config) :
    Step plainBuild cfg (start fun _ => 0#8) soloStart :=
  .heapInit 0 (Finset.notMem_empty 0)

theorem soloStart_not_owned : ¬soloStart.Owned 0 := by
  rintro ⟨queue, -, l, hl, hmem⟩
  have hfirst := hl.first
  rw [show (soloStart.queues.pages queue).first = none by
    simp [soloStart, PageQueues.initHeap, noQueues,
      LinkedQueue.Ends.empty]] at hfirst
  rw [List.head?_eq_none_iff.mp hfirst.symm] at hmem
  exact List.not_mem_nil hmem

theorem soloPages_reachable (cfg : Config) (hpos : 0 < blockSize)
    (hword : intptrSize ∣ blockSize) (hlarge : blockSize ≤ largeObjSizeMax) :
    Reachable plainBuild cfg (soloPages cfg blockSize) := by
  apply Reachable.step (.step (.start fun _ => 0#8) (soloStart_step cfg))
  exact .pageFresh 0 0 512 _ 1 1 (pageSlices blockSize) blockSize false false
    ⟨1, 2⟩ (Finset.mem_insert_self 0 ∅) rfl soloStart_not_owned hpos hword
    (fun _ _ _ h => nomatch h) (fun _ => ⟨hlarge, rfl⟩) (fun h => nomatch h)

theorem soloPages_owned (cfg : Config) (blockSize : ℕ) :
    (soloPages cfg blockSize).Owned 0 := by
  obtain ⟨lists, hlaw, -⟩ :=
    ((soloStart_step cfg).ok (start_ok fun _ => 0#8)).queues
  have hout := hlaw.not_mem_of_not_queued soloStart_not_owned
  have hpushed := (setHeap_law hlaw hout 0).push (Finset.mem_insert_self 0 ∅)
    (servedBin_pageBin (Palloc.freshPage 0 (pageSlices blockSize) blockSize))
    (Function.update_self _ _ _) hout
  apply (hpushed.queued_iff subset_rfl).mpr
  refine ⟨(0, (Palloc.freshPage 0 (pageSlices blockSize) blockSize).pageBin),
    Finset.mem_insert_self 0 ∅, ?_⟩
  rw [Function.update_self]
  exact List.mem_cons_self

theorem soloHeap_reachable (cfg : Config) (hpos : 0 < blockSize)
    (hword : intptrSize ∣ blockSize) (hlarge : blockSize ≤ largeObjSizeMax)
    (hreserved :
      0 < (Palloc.freshPage 0 (pageSlices blockSize) blockSize).reserved) :
    Reachable plainBuild cfg (soloHeap cfg blockSize) := by
  set page := Palloc.freshPage 0 (pageSlices blockSize) blockSize with hpage
  have hzero : (soloObject blockSize).block = page.blockAt 0 := by
    unfold BlockPage.blockAt
    rw [Nat.zero_mul, Nat.add_zero]
    rfl
  have hsize : BlockHeap.requestSize plainBuild blockSize = blockSize := rfl
  have hcan : (soloPages cfg blockSize).heap.CanAlloc 0 page
      (soloObject blockSize).block
      (BlockHeap.requestSize plainBuild blockSize) :=
    ⟨rfl, ⟨0, hreserved, hzero⟩, List.not_mem_nil, le_rfl, fun _ _ => rfl,
      blockPageInit_whole hpos⟩
  apply (soloPages_reachable cfg hpos hword hlarge).step
  have hmalloc : BlockHeap.Step plainBuild false
      (soloPages cfg blockSize).heap .other _ := .malloc blockSize false hcan
  refine .objects .other hmalloc id (fun _ => Iff.rfl) ?_
  intro o ho _ page' hpage'
  obtain rfl : o = soloObject blockSize := List.mem_singleton.mp ho
  obtain rfl : page = page' := Option.some.inj hpage'
  have hfirst := le_nextExtend cfg page
  have hcapacity : (soloPages cfg blockSize).capacity 0 =
      page.nextExtend cfg 0 := by
    unfold soloPages QueuedHeap.freshPage
    dsimp only
    rw [Function.update_self]
  refine ⟨0, ?_, hzero⟩
  change 0 < (soloPages cfg blockSize).capacity 0
  rw [hcapacity]
  omega

/-- `realloc` extends the page of the first object. -/
theorem soloHeap_extension (cfg : Config) {newsize : ℕ}
    (hnext : sizeSlices newsize + 1 ≤ 512)
    (hextends : ReallocExtends
      (Palloc.freshPage 0 (pageSlices blockSize) blockSize) blockSize newsize
      (sizeSlices newsize - pageSlices blockSize) true) :
    ∃ st', Extension plainBuild (soloHeap cfg blockSize)
      (soloObject blockSize) newsize st' := by
  set page := Palloc.freshPage 0 (pageSlices blockSize) blockSize with hpage
  set next := sizeSlices newsize - pageSlices blockSize with hnextDef
  have husable : pageUsableSize plainBuild (soloHeap cfg blockSize).heap.mem
      (soloObject blockSize).ptr (some page) = blockSize := rfl
  have hnot : ¬ReallocFits blockSize newsize := by
    intro hfits
    exact absurd hfits.1 (not_le.mpr hextends.1)
  have hresult : ∃ r, heapReallocZero (firstFitLayer plainBuild) false
      (soloHeap cfg blockSize).heap (some (soloObject blockSize)) newsize
      false next true = some r ∧ r.extended = true := by
    have hvalid : validatePtrPage false (soloHeap cfg blockSize).heap
        (soloObject blockSize) = some page := rfl
    unfold heapReallocZero
    dsimp only
    rw [hvalid, husable, if_neg hnot, if_pos ⟨hextends.1, hextends.2.1⟩]
    dsimp only
    rw [if_pos hextends]
    exact ⟨_, rfl, rfl⟩
  obtain ⟨r, hr, hextended⟩ := hresult
  refine ⟨_, List.mem_cons_self, soloPages_owned cfg blockSize,
    firstFitLayer plainBuild, false, false, true, next, r, ?_, hr, hextended,
    rfl⟩
  intro other hother
  obtain rfl : page = other := Option.some.inj hother
  refine ⟨?_, ?_⟩
  · intro hpos
    change 1 + pageSlices blockSize + next ≤ 512
    omega
  · intro id page' hne hpage'
    have hnone : (soloHeap cfg blockSize).heap.pages id = none := by
      have hid : id ≠ 0 := hne
      exact Function.update_of_ne hid _ _
    rw [hnone] at hpage'
    exact nomatch hpage'

/-- A page for one block of two slices grows to three. -/
theorem extension_owns_memory_large :
    ∃ st', Extension plainBuild (soloHeap {} 131072) (soloObject 131072)
        196608 st' ∧
      ReturnsOwnMemory (soloHeap {} 131072) st' (soloObject 131072)
        196608 := by
  obtain ⟨st', hextend⟩ := @soloHeap_extension 131072 {} 196608
    (by decide +kernel) (by decide +kernel)
  have hrun := @soloHeap_reachable 131072 {} (by decide) (by decide)
    (by decide) (by decide +kernel)
  exact ⟨st', hextend, (extension_owns_memory hrun hextend).mpr
    ⟨_, rfl, by decide +kernel, by decide +kernel⟩⟩

/-- A page of 32 blocks of 16 KiB is extended over its other blocks. -/
theorem medium_page_extended :
    ¬∀ (b : BlockBuild) (cfg : Config) (st st' : QueuedHeap) (o : HeapObject)
      (newsize : ℕ), Reachable b cfg st → Extension b st o newsize st' →
        ReturnsOwnMemory st st' o newsize := by
  intro hclaim
  obtain ⟨st', hextend⟩ := @soloHeap_extension 16384 {} 524289
    (by decide +kernel) (by decide +kernel)
  have hrun := @soloHeap_reachable 16384 {} (by decide) (by decide)
    (by decide) (by decide +kernel)
  obtain ⟨page, hpage, hsingle, -⟩ := (extension_owns_memory hrun hextend).mp
    (hclaim _ _ _ st' _ _ hrun hextend)
  obtain rfl : Palloc.freshPage 0 (pageSlices 16384) 16384 = page :=
    Option.some.inj hpage
  exact absurd hsingle (by decide +kernel)

end Solo

end QueuedHeap

end Palloc
