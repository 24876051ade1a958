import Palloc.QueuedHeap

/-!
# What the pages of a heap keep

A page with several slices and one block starts at its first slice and is
linked with the large pages, so that it can grow.  The operations on objects
leave the place of every page as it is, and those on queues move a page only
between the queue of its block size and the full queue.
-/

namespace Palloc

open ByteMemory BlockHeap

/-! ## Operations on objects -/

section Objects

variable {b : BlockBuild} {st st' : BlockHeap} {e : Event}
variable {pages : ℕ → Option BlockPage} {id : ℕ} {page page' : BlockPage}
variable {check : Bool}

structure SamePlace (page page' : BlockPage) : Prop where
  segment : page'.segment = page.segment
  idx : page'.idx = page.idx
  sliceCount : page'.sliceCount = page.sliceCount
  isHuge : page'.isHuge = page.isHuge
  blockSize : page'.blockSize = page.blockSize
  reserved : page'.reserved = page.reserved
  pageStart : page'.pageStart = page.pageStart

theorem SamePlace.refl (page : BlockPage) : SamePlace page page :=
  ⟨rfl, rfl, rfl, rfl, rfl, rfl, rfl⟩

theorem samePlace_flags (page : BlockPage) (hasAligned freeIsZero : Bool) :
    SamePlace page
      { page with hasAligned := hasAligned, freeIsZero := freeIsZero } :=
  ⟨rfl, rfl, rfl, rfl, rfl, rfl, rfl⟩

theorem SamePlace.blockAt (h : SamePlace page page') (i : ℕ) :
    page'.blockAt i = page.blockAt i := by
  unfold BlockPage.blockAt
  rw [h.pageStart, h.blockSize]

theorem SamePlace.sliceStart (h : SamePlace page page') :
    page'.sliceStart = page.sliceStart := by
  unfold BlockPage.sliceStart
  rw [h.segment, h.idx]

theorem SamePlace.pageBin (h : SamePlace page page') :
    page'.pageBin = page.pageBin := by
  unfold BlockPage.pageBin
  rw [h.isHuge, h.blockSize]

theorem samePlace_update (hpage : pages id = some page)
    (hsame : SamePlace page page') {other : ℕ} {new : BlockPage}
    (hnew : Function.update pages id (some page') other = some new) :
    ∃ old, pages other = some old ∧ SamePlace old new := by
  by_cases hother : other = id
  · subst hother
    rw [Function.update_self] at hnew
    obtain rfl := Option.some.inj hnew
    exact ⟨page, hpage, hsame⟩
  · rw [Function.update_of_ne hother] at hnew
    exact ⟨new, hnew, .refl new⟩

theorem mallocAligned_samePlace (b : BlockBuild) (size : ℕ)
    (zero : Bool) {block alignment offset : ℕ} (hpage : st.pages id = some page)
    {other : ℕ} {new : BlockPage}
    (hnew : (BlockHeap.mallocAligned b st id page block size alignment offset
      zero).pages other = some new) :
    ∃ old, st.pages other = some old ∧ SamePlace old new := by
  apply samePlace_update hpage _ hnew
  split
  · exact .refl page
  · exact samePlace_flags page true page.freeIsZero

theorem BlockHeap.Step.samePlace (hstep : BlockHeap.Step b check st e st')
    (hext : ¬Extends b check st e)
    (hpages : ∀ id, st'.pages id = none ↔ st.pages id = none)
    (hpage : st'.pages id = some page') :
    ∃ page, st.pages id = some page ∧ SamePlace page page' := by
  cases hstep with
  | pageAlloc other addr segment idx sliceCount blockSize isHuge isZeroInit
      keys hid hcount =>
      have hnone := (hpages other).mpr hid
      dsimp only at hnone
      rw [Function.update_self] at hnone
      exact nomatch hnone
  | pageFree other hid =>
      dsimp only at hpage
      by_cases hother : id = other
      · subst hother
        rw [Function.update_self] at hpage
        exact nomatch hpage
      · rw [Function.update_of_ne hother] at hpage
        exact ⟨page', hpage, .refl page'⟩
  | pageRetire other page hid hother =>
      exact samePlace_update hother
        (samePlace_flags page false page.freeIsZero) hpage
  | pageCollect other page hother =>
      exact samePlace_update hother
        (samePlace_flags page page.hasAligned false) hpage
  | mallocAligned size alignment offset zero hpos hpow hcan hreach =>
      exact mallocAligned_samePlace b size zero hcan.hpage hpage
  | reallocExtend o newsize next commit zero ho hother hhuge haccepted
      hextends =>
      exact absurd ⟨_, hother, hextends⟩ hext
  | reallocOveralignedCopy o newsize alignment offset zero hpos hpow ho hother
      hfits hcan hreach =>
      exact mallocAligned_samePlace b newsize false hcan.hpage hpage
  | _ => exact ⟨page', hpage, .refl page'⟩

/-- The object is in the place of an old one, or in a block that was not in
use. -/
def PlacedBy (st : BlockHeap) (o : HeapObject) : Prop :=
  (∃ old ∈ st.live, o.page = old.page ∧ o.block = old.block ∧
    o.ptr = old.ptr) ∨
  ∃ page size, st.CanAlloc o.page page o.block size ∧ o.block ≤ o.ptr

theorem placedBy_of_mem {o : HeapObject} (ho : o ∈ st.live) : PlacedBy st o :=
  .inl ⟨o, ho, rfl, rfl, rfl⟩

theorem placedBy_cons {new o : HeapObject} {size : ℕ}
    (hcan : st.CanAlloc new.page page new.block size)
    (hptr : new.block ≤ new.ptr) (ho : o ∈ new :: st.live) :
    PlacedBy st o := by
  rcases List.mem_cons.mp ho with rfl | ho
  · exact .inr ⟨page, size, hcan, hptr⟩
  · exact placedBy_of_mem ho

theorem placedBy_reask {o new : HeapObject} {newsize : ℕ} (ho : o ∈ st.live)
    (hnew : new ∈ (st.reask o newsize).live) : PlacedBy st new := by
  rcases List.mem_cons.mp hnew with rfl | hnew
  · exact .inl ⟨o, ho, rfl, rfl, rfl⟩
  · exact placedBy_of_mem (List.mem_of_mem_erase hnew)

theorem BlockHeap.Step.placedBy (hstep : BlockHeap.Step b check st e st')
    {o : HeapObject} (ho : o ∈ st'.live) : PlacedBy st o := by
  cases hstep with
  | malloc asked zero hcan => exact placedBy_cons hcan le_rfl ho
  | mallocAligned size alignment offset zero hpos hpow hcan hreach =>
      exact placedBy_cons hcan (Nat.le_add_right _ _) ho
  | reallocInPlace old newsize next commit hold =>
      exact placedBy_reask hold ho
  | reallocExtend old newsize next commit zero hold =>
      exact placedBy_reask hold ho
  | reallocCopy old newsize next commit zero hold hpage hfits hextends hcan =>
      exact placedBy_cons hcan le_rfl ho
  | reallocNull newsize zero hcan => exact placedBy_cons hcan le_rfl ho
  | reallocAlignedInPlace old newsize alignment offset hold =>
      exact placedBy_reask hold ho
  | reallocAlignedCopy old newsize alignment offset zero hold hpage hfits
      hcan => exact placedBy_cons hcan le_rfl ho
  | reallocOveralignedCopy old newsize alignment offset zero hpos hpow hold
      hpage hfits hcan hreach =>
      exact placedBy_cons hcan (Nat.le_add_right _ _) ho
  | freeLocal old p link hold =>
      exact placedBy_of_mem (List.mem_of_mem_erase ho)
  | freeMt old link useDelayed mem hold =>
      exact placedBy_of_mem (List.mem_of_mem_erase ho)
  | _ => exact placedBy_of_mem ho

end Objects

/-! ## The queue of a page -/

theorem pageBin_large {page : BlockPage}
    (hlarge : mediumObjSizeMax < page.blockSize) : page.pageBin = binHuge := by
  unfold BlockPage.pageBin
  rw [bin_large hlarge]
  split <;> rfl

theorem servedBin_pageBin (page : BlockPage) : ServedBin page.pageBin := by
  unfold BlockPage.pageBin
  split
  · exact .inr ⟨largeObjSizeMax, by decide⟩
  · exact .inr ⟨page.blockSize, rfl⟩

/-! ## The invariant -/

namespace QueuedHeap

variable {b : BlockBuild} {cfg : Config} {st st' : QueuedHeap}
variable {id heap : ℕ} {page page' : BlockPage} {o : HeapObject}

structure PageSound (st : QueuedHeap) (id : ℕ) (page : BlockPage) : Prop where
  start : page.sliceStart ≤ page.pageStart
  carved : st.capacity id ≤ page.reserved
  first : min page.reserved 4 ≤ st.capacity id
  growable : page.isHuge = false → 1 < page.sliceCount →
    page.reserved = 1 → Growable page
  huge : page.isHuge = true → st.sliceEntries id ≤ page.idx + page.sliceCount

def ObjectPlaced (st : QueuedHeap) (o : HeapObject) : Prop :=
  ∃ page i, st.heap.pages o.page = some page ∧ i < page.reserved ∧
    o.block = page.blockAt i ∧ o.block ≤ o.ptr

def FitsQueue (pages : ℕ → Option BlockPage) (id bin : ℕ) : Prop :=
  ∃ page, pages id = some page ∧ (bin = binFull ∨ bin = page.pageBin)

/-- The queues are in order, with each page in the full queue or that of its
block size. -/
def QueuesPlaced (st : QueuedHeap) : Prop :=
  ∃ lists, QueueLaw st.queues st.alive (aliveQueues st.alive) lists ∧
    ∀ queue, ∀ id ∈ lists queue, FitsQueue st.heap.pages id queue.2

structure QueuedOk (st : QueuedHeap) : Prop where
  page : ∀ id page, st.heap.pages id = some page → st.PageSound id page
  object : ∀ o ∈ st.heap.live, st.ObjectPlaced o
  queues : st.QueuesPlaced

theorem nextExtend_le (cfg : Config) (page : BlockPage) (capacity : ℕ) :
    page.nextExtend cfg capacity ≤ page.reserved - capacity :=
  min_le_left _ _

theorem le_nextExtend (cfg : Config) (page : BlockPage) :
    min page.reserved 4 ≤ page.nextExtend cfg 0 := by
  have hfour : 4 ≤ cfg.minExtend := by
    unfold Config.minExtend
    split <;> omega
  unfold BlockPage.nextExtend extendCount
  dsimp only
  exact min_le_min le_rfl (hfour.trans (le_max_right _ _))

theorem PageSound.samePlace (h : st.PageSound id page)
    (hsame : SamePlace page page') : st.PageSound id page' where
  start := by
    rw [hsame.sliceStart, hsame.pageStart]
    exact h.start
  carved := by
    rw [hsame.reserved]
    exact h.carved
  first := by
    rw [hsame.reserved]
    exact h.first
  growable := by
    intro hhuge hslices hsingle
    rw [hsame.isHuge] at hhuge
    rw [hsame.sliceCount] at hslices
    rw [hsame.reserved] at hsingle
    obtain ⟨hstart, hlarge⟩ := h.growable hhuge hslices hsingle
    refine ⟨?_, ?_⟩
    · rw [hsame.pageStart, hsame.sliceStart]
      exact hstart
    · rw [hsame.blockSize]
      exact hlarge
  huge := by
    rw [hsame.isHuge, hsame.idx, hsame.sliceCount]
    exact h.huge

/-! ## The queues -/

theorem setHeap_law {queues : PageQueues} {alive : Finset ℕ}
    {live : ℕ × ℕ → Bool} {lists : ℕ × ℕ → List ℕ}
    (h : QueueLaw queues alive live lists)
    (hout : ∀ queue, id ∉ lists queue) (heap : ℕ) :
    QueueLaw (setHeap queues id heap) alive live lists where
  live_of_alive := h.live_of_alive
  family := h.family
  served := h.served
  xheap queue page hpage := by
    have hne : page ≠ id := by
      rintro rfl
      exact hout queue hpage
    unfold setHeap
    dsimp only
    rw [Function.update_of_ne hne]
    exact h.xheap queue page hpage
  inFull := h.inFull
  linked := h.linked
  count := h.count
  direct := h.direct

theorem QueuesPlaced.pages (h : st.QueuesPlaced) {heap : BlockHeap}
    (hpages : ∀ id page, st.Owned id → st.heap.pages id = some page →
      ∃ page', heap.pages id = some page' ∧ page'.pageBin = page.pageBin) :
    QueuesPlaced { st with heap := heap } := by
  obtain ⟨lists, hlaw, hfits⟩ := h
  refine ⟨lists, hlaw, ?_⟩
  intro queue id hid
  obtain ⟨page, hpage, hbin⟩ := hfits queue id hid
  have howned : st.Owned id := by
    refine (hlaw.queued_iff subset_rfl).mpr ⟨queue, ?_, hid⟩
    by_contra hqueue
    rw [hlaw.lists_eq_nil (decide_eq_false hqueue)] at hid
    exact List.not_mem_nil hid
  obtain ⟨page', hpage', hsame⟩ := hpages id page howned hpage
  refine ⟨page', hpage', ?_⟩
  rw [hsame]
  exact hbin

/-- A page without a heap gets one. -/
theorem QueuesPlaced.push (h : st.QueuesPlaced) (hheap : heap ∈ st.alive)
    (hqueued : ¬st.Owned id) (page : BlockPage) {pages : ℕ → Option BlockPage}
    (hpages : ∀ other, other ≠ id → pages other = st.heap.pages other)
    (hpage : pages id = some page) :
    ∃ lists, QueueLaw ((setHeap st.queues id heap).pageQueuePush heap
        (heap, page.pageBin) id) st.alive (aliveQueues st.alive) lists ∧
      ∀ queue, ∀ other ∈ lists queue, FitsQueue pages other queue.2 := by
  obtain ⟨lists, hlaw, hfits⟩ := h
  have hout := hlaw.not_mem_of_not_queued hqueued
  have hset := setHeap_law hlaw hout heap
  have hxheap : (setHeap st.queues id heap).xheap id = heap :=
    Function.update_self _ _ _
  refine ⟨_, hset.push hheap (servedBin_pageBin page) hxheap hout, ?_⟩
  have hkept : ∀ queue, ∀ other ∈ lists queue,
      FitsQueue pages other queue.2 := by
    intro queue other hother
    have hne : other ≠ id := by
      rintro rfl
      exact hout queue hother
    obtain ⟨old, hold, hbin⟩ := hfits queue other hother
    exact ⟨old, (hpages other hne).trans hold, hbin⟩
  intro queue other hother
  by_cases hqueue : queue = (heap, page.pageBin)
  · subst hqueue
    rw [Function.update_self] at hother
    rcases List.mem_cons.mp hother with rfl | hother
    · exact ⟨page, hpage, .inr rfl⟩
    · exact hkept _ other hother
  · rw [Function.update_of_ne hqueue] at hother
    exact hkept queue other hother

theorem mem_enqueueList {atEnd : Bool} {page other : ℕ} {l : List ℕ}
    (hother : other ∈ QueueLaw.enqueueList atEnd page l) :
    other = page ∨ other ∈ l := by
  unfold QueueLaw.enqueueList at hother
  split at hother
  · rcases List.mem_append.mp hother with hmem | hmem
    · exact .inr hmem
    · exact .inl (List.mem_singleton.mp hmem)
  · rcases List.mem_append.mp hother with hmem | hmem
    · exact .inr (List.mem_of_mem_take hmem)
    · rcases List.mem_cons.mp hmem with heq | hmem
      · exact .inl heq
      · exact .inr (List.mem_of_mem_drop hmem)

/-- A page moves to another queue that it may be in. -/
theorem QueuesPlaced.enqueue (h : st.QueuesPlaced) (hheap : heap ∈ st.alive)
    {bin bin' : ℕ} (hserved : ServedBin bin')
    (hqueue : st.queues.InQueue (heap, bin) id)
    (hfits : FitsQueue st.heap.pages id bin') :
    QueuesPlaced
      { st with
        queues := st.queues.pageQueueEnqueueFromEx (heap, bin') (heap, bin)
          true id } := by
  obtain ⟨lists, hlaw, hold⟩ := h
  have hmem := (hlaw.inQueue_iff hheap).mp hqueue
  refine ⟨_, hlaw.enqueueFromEx hheap hserved hmem true, ?_⟩
  have hleft : ∀ queue, ∀ other ∈ Function.update lists (heap, bin)
      ((lists (heap, bin)).erase id) queue,
      FitsQueue st.heap.pages other queue.2 := by
    intro queue other hother
    by_cases hfrom : queue = (heap, bin)
    · subst hfrom
      rw [Function.update_self] at hother
      exact hold _ other (List.mem_of_mem_erase hother)
    · rw [Function.update_of_ne hfrom] at hother
      exact hold queue other hother
  intro queue other hother
  by_cases hto : queue = (heap, bin')
  · subst hto
    rw [Function.update_self] at hother
    rcases mem_enqueueList hother with rfl | hother
    · exact hfits
    · exact hleft _ other hother
  · rw [Function.update_of_ne hto] at hother
    exact hleft queue other hother

/-- The queues of a law whose pages keep their bins. -/
theorem QueuesPlaced.rebin (h : st.QueuesPlaced) {queues : PageQueues}
    {alive : Finset ℕ}
    (hlaw : ∀ lists, QueueLaw st.queues st.alive (aliveQueues st.alive) lists →
      ∃ lists', QueueLaw queues alive (aliveQueues alive) lists' ∧
        ∀ queue, ∀ id ∈ lists' queue, ∃ heap, id ∈ lists (heap, queue.2)) :
    QueuesPlaced { st with queues := queues, alive := alive } := by
  obtain ⟨lists, hold, hfits⟩ := h
  obtain ⟨lists', hnew, hbin⟩ := hlaw lists hold
  refine ⟨lists', hnew, ?_⟩
  intro queue id hid
  obtain ⟨heap, hmem⟩ := hbin queue id hid
  exact hfits (heap, queue.2) id hmem

/-! ## Steps -/

theorem pageInit_sound (st : QueuedHeap)
    (heap entries addr segment idx : ℕ) {sliceCount blockSize : ℕ}
    {isHuge : Bool} (isZeroInit : Bool) (keys : FreeListKeys)
    (hpos : 0 < blockSize)
    (hslices : isHuge = false → sliceCount = pageSlices blockSize)
    (hhuge : isHuge = true → entries ≤ idx + sliceCount) :
    PageSound (freshPage cfg st id heap entries (blockPageInit addr segment
      idx sliceCount blockSize isHuge isZeroInit keys)) id
      (blockPageInit addr segment idx sliceCount blockSize isHuge isZeroInit
        keys) := by
  refine ⟨Nat.le_add_right _ _, ?_, ?_, ?_, ?_⟩
  · unfold freshPage
    dsimp only
    rw [Function.update_self]
    exact (nextExtend_le cfg _ 0).trans_eq (Nat.sub_zero _)
  · unfold freshPage
    dsimp only
    rw [Function.update_self]
    exact le_nextExtend cfg _
  · intro hnot hcount hsingle
    obtain rfl : isHuge = false := hnot
    obtain rfl := hslices rfl
    exact blockPageInit_growable addr segment idx isZeroInit keys hpos hcount
      hsingle
  · intro hyes
    unfold freshPage
    dsimp only
    rw [Function.update_self]
    exact hhuge hyes

theorem PageSound.congr (h : st.PageSound id page)
    (hcapacity : st'.capacity id = st.capacity id)
    (hentries : st'.sliceEntries id = st.sliceEntries id) :
    st'.PageSound id page where
  start := h.start
  carved := hcapacity.trans_le h.carved
  first := h.first.trans_eq hcapacity.symm
  growable := h.growable
  huge hhuge := hentries.trans_le (h.huge hhuge)

theorem QueuedOk.requeue (h : st.QueuedOk) {queues : PageQueues}
    {alive : Finset ℕ}
    (hqueues : QueuesPlaced { st with queues := queues, alive := alive }) :
    QueuedOk { st with queues := queues, alive := alive } :=
  ⟨fun id page hpage => (h.page id page hpage).congr rfl rfl, h.object,
    hqueues⟩

theorem QueuedOk.freshPage (h : st.QueuedOk) (hheap : heap ∈ st.alive)
    (hid : st.heap.pages id = none) (hqueued : ¬st.Owned id) {entries : ℕ}
    (hsound : (QueuedHeap.freshPage cfg st id heap entries page).PageSound id
      page) :
    (QueuedHeap.freshPage cfg st id heap entries page).QueuedOk := by
  have hpages : ∀ other, other ≠ id →
      Function.update st.heap.pages id (some page) other =
        st.heap.pages other := fun other hne => Function.update_of_ne hne _ _
  refine ⟨?_, ?_, h.queues.push hheap hqueued page hpages
    (Function.update_self _ _ _)⟩
  · intro other new hnew
    by_cases hother : other = id
    · subst hother
      unfold QueuedHeap.freshPage at hnew
      dsimp only at hnew
      rw [Function.update_self] at hnew
      obtain rfl := Option.some.inj hnew
      exact hsound
    · apply (h.page other new ((hpages other hother).symm.trans hnew)).congr
      · exact Function.update_of_ne hother _ _
      · exact Function.update_of_ne hother _ _
  · intro o ho
    obtain ⟨old, i, hold, hplaced⟩ := h.object o ho
    have hne : o.page ≠ id := by
      intro heq
      rw [heq, hid] at hold
      exact nomatch hold
    exact ⟨old, i, (hpages _ hne).trans hold, hplaced⟩

theorem QueuedOk.objects (h : st.QueuedOk) {heap : BlockHeap} {e : Event}
    {check : Bool} (hstep : BlockHeap.Step b check st.heap e heap)
    (hext : ¬Extends b check st.heap e)
    (hpages : ∀ id, heap.pages id = none ↔ st.heap.pages id = none) :
    QueuedOk { st with heap := heap } := by
  have hback : ∀ id page', heap.pages id = some page' →
      ∃ page, st.heap.pages id = some page ∧ SamePlace page page' :=
    fun id page' hpage' => hstep.samePlace hext hpages hpage'
  have hforth : ∀ id page, st.heap.pages id = some page →
      ∃ page', heap.pages id = some page' ∧ SamePlace page page' := by
    intro id page hpage
    cases hpage' : heap.pages id with
    | none =>
        rw [(hpages id).mp hpage'] at hpage
        exact nomatch hpage
    | some page' =>
        obtain ⟨old, hold, hsame⟩ := hback id page' hpage'
        obtain rfl := Option.some.inj (hpage.symm.trans hold)
        exact ⟨page', rfl, hsame⟩
  refine ⟨?_, ?_, h.queues.pages ?_⟩
  · intro id page' hpage'
    obtain ⟨page, hpage, hsame⟩ := hback id page' hpage'
    exact ((h.page id page hpage).samePlace hsame).congr rfl rfl
  · intro o ho
    have hplaced : ∃ page i, st.heap.pages o.page = some page ∧
        i < page.reserved ∧ o.block = page.blockAt i ∧ o.block ≤ o.ptr := by
      rcases hstep.placedBy ho with ⟨old, hold, hid, hblock, hptr⟩ |
        ⟨page, size, hcan, hptr⟩
      · rw [hid, hblock, hptr]
        exact h.object old hold
      · obtain ⟨i, hi, hblock⟩ := hcan.hblock
        exact ⟨page, i, hcan.hpage, hi, hblock, hptr⟩
    obtain ⟨page, i, hpage, hi, hblock, hptr⟩ := hplaced
    obtain ⟨page', hpage', hsame⟩ := hforth _ page hpage
    refine ⟨page', i, hpage', ?_, ?_, hptr⟩
    · rw [hsame.reserved]
      exact hi
    · rw [hsame.blockAt]
      exact hblock
  · intro id page _ hpage
    obtain ⟨page', hpage', hsame⟩ := hforth id page hpage
    exact ⟨page', hpage', hsame.pageBin⟩

theorem QueuedOk.extendFree (h : st.QueuedOk)
    (hpage : st.heap.pages id = some page) :
    QueuedOk
      { st with
        capacity := Function.update st.capacity id
          (st.capacity id + page.nextExtend cfg (st.capacity id)) } := by
  refine ⟨?_, h.object, h.queues⟩
  intro other new hnew
  by_cases hother : other = id
  · subst hother
    obtain rfl := Option.some.inj (hpage.symm.trans hnew)
    obtain ⟨hstart, hcarved, hfirst, hgrowable, hhuge⟩ :=
      h.page other page hpage
    have hle := nextExtend_le cfg page (st.capacity other)
    refine ⟨hstart, ?_, ?_, hgrowable, hhuge⟩
    · dsimp only
      rw [Function.update_self]
      omega
    · dsimp only
      rw [Function.update_self]
      omega
  · exact (h.page other new hnew).congr (Function.update_of_ne hother _ _) rfl

theorem Step.ok (hstep : Step b cfg st st') (h : st.QueuedOk) :
    st'.QueuedOk := by
  cases hstep with
  | objects e hstep hext hpages => exact h.objects hstep hext hpages
  | pageFresh id heap entries addr segment idx sliceCount blockSize isHuge
      isZeroInit keys hheap hid hqueued hpos hword hunused hslices hhuge =>
      exact h.freshPage hheap hid hqueued (pageInit_sound st heap entries addr
        segment idx isZeroInit keys hpos (fun hnot => (hslices hnot).2) hhuge)
  | extendFree id page hpage => exact h.extendFree hpage
  | pageReclaim id heap page hheap hpage hqueued =>
      exact h.requeue
        (h.queues.push hheap hqueued page (fun _ _ => rfl) hpage)
  | pageRemove id heap bin hheap hqueue =>
      refine h.requeue (h.queues.rebin ?_)
      intro lists hlaw
      refine ⟨_, hlaw.remove hheap ((hlaw.inQueue_iff hheap).mp hqueue), ?_⟩
      intro queue other hother
      by_cases hsame : queue = (heap, bin)
      · subst hsame
        rw [Function.update_self] at hother
        exact ⟨heap, List.mem_of_mem_erase hother⟩
      · rw [Function.update_of_ne hsame] at hother
        exact ⟨queue.1, hother⟩
  | pageFree id hqueued hid =>
      refine ⟨?_, ?_, h.queues.pages ?_⟩
      · intro other page hpage
        by_cases hother : other = id
        · subst hother
          exact nomatch (Function.update_self _ _ _).symm.trans hpage
        · exact (h.page other page
            ((Function.update_of_ne hother _ _).symm.trans hpage)).congr rfl
              rfl
      · intro o ho
        obtain ⟨page, i, hpage, hplaced⟩ := h.object o ho
        have hne : o.page ≠ id := by
          intro heq
          apply hid o.block
          rw [← heq]
          exact List.mem_append_left _ (List.mem_map_of_mem ho)
        exact ⟨page, i, (Function.update_of_ne hne _ _).trans hpage, hplaced⟩
      · intro other page howned hpage
        have hne : other ≠ id := by
          rintro rfl
          exact hqueued howned
        exact ⟨page, (Function.update_of_ne hne _ _).trans hpage, rfl⟩
  | pageToFull id heap page hheap hpage hqueue =>
      exact h.requeue (h.queues.enqueue hheap (.inl rfl) hqueue
        ⟨page, hpage, .inl rfl⟩)
  | pageUnfull id heap page hheap hpage hqueue =>
      exact h.requeue (h.queues.enqueue hheap (servedBin_pageBin page) hqueue
        ⟨page, hpage, .inr rfl⟩)
  | moveToFront id heap bin hheap hqueue =>
      refine h.requeue (h.queues.rebin ?_)
      intro lists hlaw
      have hmem := (hlaw.inQueue_iff hheap).mp hqueue
      refine ⟨_, hlaw.moveToFront hheap hmem, ?_⟩
      intro queue other hother
      by_cases hsame : queue = (heap, bin)
      · subst hsame
        rw [Function.update_self] at hother
        rcases List.mem_cons.mp hother with rfl | hother
        · exact ⟨heap, hmem⟩
        · exact ⟨heap, List.mem_of_mem_erase hother⟩
      · rw [Function.update_of_ne hsame] at hother
        exact ⟨queue.1, hother⟩
  | heapInit heap hheap =>
      refine h.requeue (h.queues.rebin ?_)
      intro lists hlaw
      exact ⟨lists, hlaw.initHeap hheap,
        fun queue other hother => ⟨queue.1, hother⟩⟩
  | heapAbsorb heap fromHeap fuel hheap hfrom hne habsorb =>
      exact h.requeue (h.queues.rebin fun lists hlaw =>
        hlaw.absorb hheap hfrom hne habsorb)
  | other hsub hsame =>
      refine h.requeue (h.queues.rebin ?_)
      intro lists hlaw
      refine ⟨_, hlaw.other hsub hsame, ?_⟩
      intro queue id hid
      split at hid
      · exact ⟨queue.1, hid⟩
      · exact absurd hid List.not_mem_nil

theorem start_ok (mem : Mem) : (start mem).QueuedOk where
  page := fun _ _ hpage => nomatch hpage
  object := fun _ ho => nomatch ho
  queues := by
    obtain ⟨lists, hlaw⟩ :=
      queueRun_law (@QueueRun.start noQueues fun _ => rfl)
    refine ⟨lists, hlaw, ?_⟩
    intro queue id hid
    rw [hlaw.lists_eq_nil (decide_eq_false (Finset.notMem_empty _))] at hid
    exact absurd hid List.not_mem_nil

end QueuedHeap

end Palloc
