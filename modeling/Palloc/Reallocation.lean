import Palloc.AlignedContract
import Palloc.VecArena

/-!
# Reallocation

`_pa_heap_realloc_zero` keeps an object whose block is at most a quarter too
large, extends a page of several slices in place, and otherwise copies the
object to a new block and frees the old one.  All copied lengths are usable
sizes of the old object.

When `pa_checked_ptr_segment` refuses the address, `_pa_usable_size` is zero
and `pa_free` does nothing; the test for the extension reads the slices of the
null page.
-/

namespace Palloc

open ByteMemory BlockHeap

variable {b : BlockBuild} (layer : PageLayer b)

/-! ## The functions -/

structure Reallocation where
  result : Option HeapObject
  heap : BlockHeap
  /-- The objects that `pa_free` gave back. -/
  freed : List HeapObject
  extended : Bool

/-- `pa_validate_ptr_page`. -/
def validatePtrPage (check : Bool) (st : BlockHeap) (o : HeapObject) :
    Option BlockPage :=
  if ptrAccepted check o.ptr then st.pages o.page else none

/-- `_pa_usable_size`. -/
def pageUsableSize (b : BlockBuild) (mem : Mem) (p : ℕ) :
    Option BlockPage → ℕ
  | none => 0
  | some page => usableSize b mem page p

/-- `pa_free`, with the release of an empty page. -/
def freeObject (check : Bool) (st : BlockHeap) (o : HeapObject) :
    BlockHeap × List HeapObject :=
  if ptrAccepted check o.ptr then
    (layer.settle (paFree b check st o (layer.freeKind st o)), [o])
  else (st, [])

/-- The end of a reallocation: the content of the new block is written, and
the old object is freed. -/
def replaceObject (check : Bool) (st : BlockHeap) (p : Option HeapObject)
    (new : HeapObject) (mem : Mem) : Reallocation :=
  let st := { st with mem := mem }
  match p with
  | none => ⟨some new, st, [], false⟩
  | some o =>
      let (st, freed) := freeObject layer check st o
      ⟨some new, st, freed, false⟩

def ptrOf : Option HeapObject → ℕ
  | none => 0
  | some o => o.ptr

/-- `_pa_heap_realloc_zero` from `pa_heap_umalloc` on. -/
def reallocCopy (check : Bool) (st : BlockHeap) (p : Option HeapObject)
    (size newsize : ℕ) (zero : Bool) : Reallocation :=
  match heapMallocZero layer st newsize false with
  | (none, st) => ⟨none, st, [], false⟩
  | (some new, st) =>
      replaceObject layer check st p new
        (reallocContent st.mem new.ptr (ptrOf p) size newsize zero)

def reallocKeep (st : BlockHeap) (o : HeapObject) (newsize : ℕ) :
    Reallocation :=
  ⟨some { o with asked := newsize }, st.reask o newsize, [], false⟩

/-- `_pa_heap_realloc_zero`; a free span of `next` slices follows the page,
and `commit` tells whether its slices can be committed.  The program stops
where it reads the null page. -/
def heapReallocZero (check : Bool) (st : BlockHeap) (p : Option HeapObject)
    (newsize : ℕ) (zero : Bool) (next : ℕ) (commit : Bool) :
    Option Reallocation :=
  match p with
  | none => some (reallocCopy layer check st none 0 newsize zero)
  | some o =>
      let page := validatePtrPage check st o
      let size := pageUsableSize b st.mem o.ptr page
      if ReallocFits size newsize then some (reallocKeep st o newsize)
      else if size < newsize ∧ newsize ≤ largeObjSizeMax then
        match page with
        | none => none
        | some page =>
            if ReallocExtends page size newsize next commit then
              some ⟨some { o with asked := newsize },
                reallocExtend b st o page newsize zero, [], true⟩
            else some (reallocCopy layer check st (some o) size newsize zero)
      else some (reallocCopy layer check st (some o) size newsize zero)

/-- `pa_heap_reallocf`. -/
def heapReallocf (check : Bool) (st : BlockHeap) (p : Option HeapObject)
    (newsize next : ℕ) (commit : Bool) : Option Reallocation :=
  match heapReallocZero layer check st p newsize false next commit with
  | none => none
  | some r =>
      match r.result, p with
      | none, some o =>
          let (st, freed) := freeObject layer check r.heap o
          some ⟨none, st, r.freed ++ freed, r.extended⟩
      | _, _ => some r

/-- `pa_heap_reallocn`, and with `zero` also `pa_heap_recalloc`. -/
def heapReallocn (check : Bool) (st : BlockHeap) (p : Option HeapObject)
    (count size : ℕ) (zero : Bool) (next : ℕ) (commit : Bool) :
    Option Reallocation :=
  match countSizeOverflow count size with
  | none => some ⟨none, st, [], false⟩
  | some total => heapReallocZero layer check st p total zero next commit

/-! ## Contents -/

section Contents

variable {mem mem' : Mem} {newp p size newsize : ℕ} {zero : Bool}

theorem copy_at {count i : ℕ} (hi : i < count) :
    copy mem newp p count (newp + i) = mem (p + i) := by
  unfold copy
  rw [if_pos ⟨Nat.le_add_right _ _, Nat.add_lt_add_left hi newp⟩,
    Nat.add_sub_cancel_left]

theorem copy_after_write {count hi i : ℕ}
    (hwrite : ChangesOnly newp hi mem mem')
    (hapart : hi ≤ p ∨ p + count ≤ newp) (hi' : i < count) :
    copy mem' newp p count (newp + i) = mem (p + i) := by
  rw [copy_at hi']
  exact hwrite (p + i) (by omega)

theorem reallocContent_copies {i : ℕ}
    (hapart : newp + newsize ≤ p ∨ p + min newsize size ≤ newp)
    (hi : i < min newsize size) :
    reallocContent mem newp p size newsize zero (newp + i) =
      mem (p + i) := by
  have hpos : newsize ≠ 0 := by omega
  unfold reallocContent
  rw [if_neg hpos]
  refine @copy_after_write _ _ _ _ _ (newp + newsize) _ ?_ hapart hi
  split
  · next htail =>
      rw [Bool.and_eq_true, decide_eq_true_iff] at htail
      exact fill_changesOnly.mono (by omega) (by omega)
  · exact ChangesOnly.refl _ _ mem

end Contents

/-! ## Writing to the new object and freeing the old one -/

section Replace

variable {st st₁ : BlockHeap} {o new : HeapObject} {newsize : ℕ}
variable {page : BlockPage} {mem : Mem} {check : Bool}

/-- The usable bytes of the block of a new object are written. -/
theorem AllocOutcome.content (h : HeapOk b st)
    (hnew : AllocOutcome b st newsize (some new) st₁)
    (hpage : st₁.pages new.page = some page)
    (hmem : ChangesOnly new.block (new.block + usableBlockSize b page)
      st₁.mem mem) :
    AllocOutcome b st newsize (some new) { st₁ with mem := mem } := by
  obtain ⟨usable, hobject⟩ := hnew.ok.object hnew.mem hpage
  have hle := usableBlockSize_le b page
  refine ⟨hnew.ok.write hobject hmem, hnew.live, hnew.asked, ?_⟩
  intro o ho
  obtain ⟨p, u, hold⟩ := h.live o ho
  have hne : o.slot ≠ new.slot := hnew.slot_ne ho
  have hlive : o ∈ st₁.live := by
    rw [hnew.live]
    exact List.mem_cons_of_mem new ho
  exact (hnew.kept o ho).trans hold (hnew.ok.kept_other hlive
    hobject.toIsBlock hne rfl (hmem.mono le_rfl (by omega)))

/-- `pa_free` of an object that it accepts. -/
theorem freeObject_keeps (h : HeapOk b st) (ho : o ∈ st.live)
    (hcheck : ptrAccepted check o.ptr = true) :
    HeapOk b (freeObject layer check st o).1 ∧
      (freeObject layer check st o).1.live = st.live.erase o ∧
      (freeObject layer check st o).2 = [o] ∧
      ∀ o' ∈ st.live, o' ≠ o →
        ObjectKept b st (freeObject layer check st o).1 o' := by
  obtain ⟨page, usable, hobject⟩ := h.live o ho
  obtain ⟨hok, -, hlive, -⟩ := h.paFree ho hobject.hpage hcheck
    (layer.freeKind st o)
  obtain ⟨hok', hlive', hkept'⟩ :=
    (layer.settle_background _ hok).keeps hok
  unfold freeObject
  rw [if_pos hcheck]
  refine ⟨hok', hlive'.trans hlive, rfl, ?_⟩
  intro o' ho' hne
  obtain ⟨p, u, hold⟩ := h.live o' ho'
  have hmem := (List.mem_erase_of_ne hne).mpr ho'
  rw [← hlive] at hmem
  exact (h.paFree_kept ho hcheck _ ho' hne).trans hold (hkept' o' hmem)

theorem freeObject_refused (hcheck : ptrAccepted check o.ptr = false) :
    freeObject layer check st o = (st, []) := by
  unfold freeObject
  rw [if_neg (by rw [hcheck]; exact Bool.false_ne_true)]

theorem HeapOk.not_mem_erase (h : HeapOk b st) :
    o ∉ st.live.erase o := by
  have hnodup := (List.nodup_append.mp h.nodup).1
  exact hnodup.of_map.not_mem_erase

structure Replaced (b : BlockBuild) (st : BlockHeap) (o new : HeapObject)
    (page : BlockPage) (mem : Mem) (r : Reallocation) : Prop where
  ok : HeapOk b r.heap
  result : r.result = some new
  live : r.heap.live = new :: st.live.erase o
  freed : r.freed = [o]
  kept : ∀ o' ∈ st.live, o' ≠ o → ObjectKept b st r.heap o'
  content : SameOn new.block (new.block + page.blockSize) mem r.heap.mem

theorem replaceObject_replaced (h : HeapOk b st) (ho : o ∈ st.live)
    (hnew : AllocOutcome b st newsize (some new) st₁)
    (hpage : st₁.pages new.page = some page)
    (hmem : ChangesOnly new.block (new.block + usableBlockSize b page)
      st₁.mem mem)
    (hcheck : ptrAccepted check o.ptr = true) :
    Replaced b st o new page mem
      (replaceObject layer check st₁ (some o) new mem) := by
  have hout := hnew.content h hpage hmem
  have hslot : o.slot ≠ new.slot := hnew.slot_ne ho
  have hne : o ≠ new := fun heq => hslot (congrArg HeapObject.slot heq)
  have hlive : st₁.live = new :: st.live := hnew.live
  have hmem' : o ∈ st₁.live := by
    rw [hlive]
    exact List.mem_cons_of_mem new ho
  obtain ⟨hok, hlive', hfreed, hkept⟩ := freeObject_keeps layer hout.ok hmem'
    hcheck
  refine ⟨hok, rfl, ?_, hfreed, ?_, ?_⟩
  · show (freeObject layer check { st₁ with mem := mem } o).1.live = _
    rw [hlive']
    show st₁.live.erase o = _
    rw [hlive, List.erase_cons_tail (by simpa using hne.symm)]
  · intro o' ho' hother
    obtain ⟨p, u, hold⟩ := h.live o' ho'
    exact (hout.kept o' ho').trans hold (hkept o'
      (by rw [hlive]; exact List.mem_cons_of_mem new ho') hother)
  · exact (hkept new hnew.mem hne.symm).mem page hpage

end Replace

/-! ## The contract -/

section Contract

variable {st st₁ : BlockHeap} {o new : HeapObject} {newsize : ℕ}
variable {page : BlockPage} {mem : Mem} {check : Bool}

structure ReallocSuccess (b : BlockBuild) (check : Bool) (st : BlockHeap)
    (o : HeapObject) (newsize : ℕ) (r : Reallocation) (new : HeapObject) :
    Prop where
  live : new ∈ r.heap.live
  content : ∀ page, st.pages o.page = some page →
    ∀ i < min newsize (usableSize b st.mem page o.ptr),
      r.heap.mem (new.ptr + i) = st.mem (o.ptr + i)
  usable : ∃ page, r.heap.pages new.page = some page ∧
    newsize ≤ paUsableSize b check r.heap.mem page new.ptr
  apart : ∀ o' ∈ r.heap.live, o' ≠ new → ∀ page page',
    r.heap.pages new.page = some page → r.heap.pages o'.page = some page' →
      new.block + page.blockSize ≤ o'.block ∨
        o'.block + page'.blockSize ≤ new.block
  freed : r.freed = if new.ptr = o.ptr then [] else [o]
  gone : new.ptr ≠ o.ptr → o ∉ r.heap.live

structure ReallocFailure (b : BlockBuild) (st : BlockHeap) (o : HeapObject)
    (frees : Bool) (r : Reallocation) : Prop where
  freed : r.freed = if frees then [o] else []
  kept : frees = false → o ∈ r.heap.live ∧ ObjectKept b st r.heap o
  gone : frees = true → o ∉ r.heap.live

structure ReallocContract (b : BlockBuild) (check : Bool) (st : BlockHeap)
    (o : HeapObject) (newsize : ℕ) (frees : Bool) (r : Reallocation) :
    Prop where
  ok : HeapOk b r.heap
  others : ∀ o' ∈ st.live, o' ≠ o →
    o' ∈ r.heap.live ∧ ObjectKept b st r.heap o'
  success : ∀ new, r.result = some new →
    ReallocSuccess b check st o newsize r new
  failure : r.result = none → ReallocFailure b st o frees r

/-- The block of a new object and that of an old one do not overlap. -/
theorem AllocOutcome.apart (h : HeapOk b st) (ho : o ∈ st.live)
    (hpage : st.pages o.page = some page) {newPage : BlockPage}
    (hnew : AllocOutcome b st newsize (some new) st₁)
    (hnewPage : st₁.pages new.page = some newPage) :
    o.block + page.blockSize ≤ new.block ∨
      new.block + newPage.blockSize ≤ o.block := by
  obtain ⟨usable, hobject⟩ := h.object ho hpage
  obtain ⟨page', hsame, hobject'⟩ := (hnew.kept o ho).page page usable hobject
  have hlive : o ∈ st₁.live := by
    rw [hnew.live]
    exact List.mem_cons_of_mem new ho
  have hne : o ≠ new :=
    fun heq => hnew.slot_ne ho (congrArg HeapObject.slot heq)
  have hsize : page'.blockSize = page.blockSize := by rw [hsame]
  rw [← hsize]
  exact hnew.ok.apart hlive hnew.mem hne hobject'.hpage hnewPage

theorem AllocOutcome.ptr_ne (h : HeapOk b st) (ho : o ∈ st.live)
    (hnew : AllocOutcome b st newsize (some new) st₁) : new.ptr ≠ o.ptr := by
  obtain ⟨page, usable, hobject⟩ := h.live o ho
  obtain ⟨newPage, u, hobject₁⟩ := hnew.ok.live new hnew.mem
  have hapart := hnew.apart h ho hobject.hpage hobject₁.hpage
  have hlo := hobject.ptr_ge
  have hhi := hobject.ptr_lt
  have hlo' := hobject₁.ptr_ge
  have hhi' := hobject₁.ptr_lt
  omega

theorem Replaced.bytes {newPage : BlockPage} {r : Reallocation}
    (hnew : AllocOutcome b st newsize (some new) st₁)
    (hnewPage : st₁.pages new.page = some newPage)
    (hr : Replaced b st o new newPage mem r) {i : ℕ} (hi : i < newsize) :
    r.heap.mem (new.ptr + i) = mem (new.ptr + i) := by
  obtain ⟨u, hobject⟩ := hnew.ok.object hnew.mem hnewPage
  have hasked : new.asked = newsize := hnew.asked new rfl
  have hle := hobject.usable_le
  have hle' := usableBlockSize_le b newPage
  have hfits := hobject.fits
  have hlo := hobject.ptr_ge
  exact hr.content _ (by omega) (by omega)

theorem Replaced.gone {newPage : BlockPage} {r : Reallocation}
    (h : HeapOk b st) (ho : o ∈ st.live)
    (hnew : AllocOutcome b st newsize (some new) st₁)
    (hr : Replaced b st o new newPage mem r) : o ∉ r.heap.live := by
  intro hold
  rw [hr.live] at hold
  rcases List.mem_cons.mp hold with heq | hold
  · exact hnew.slot_ne ho (congrArg HeapObject.slot heq)
  · exact h.not_mem_erase hold

theorem Replaced.new_mem {newPage : BlockPage} {r : Reallocation}
    (hr : Replaced b st o new newPage mem r) : new ∈ r.heap.live := by
  rw [hr.live]
  exact List.mem_cons_self

/-- A reallocation that moved the object meets its contract when the new
block has the old content. -/
theorem Replaced.contract {newPage : BlockPage} {frees : Bool}
    {r : Reallocation} (h : HeapOk b st) (ho : o ∈ st.live)
    (hpage : st.pages o.page = some page)
    (hnew : AllocOutcome b st newsize (some new) st₁)
    (hnewPage : st₁.pages new.page = some newPage)
    (hr : Replaced b st o new newPage mem r)
    (haccepted : ptrAccepted check new.ptr = true)
    (hcontent : ∀ i < min newsize (usableSize b st.mem page o.ptr),
      mem (new.ptr + i) = st.mem (o.ptr + i)) :
    ReallocContract b check st o newsize frees r := by
  have hmem := hr.new_mem
  obtain ⟨page', usable', hobject'⟩ := hr.ok.live new hmem
  have hasked : new.asked = newsize := hnew.asked new rfl
  have hne := hnew.ptr_ne h ho
  refine ⟨hr.ok, ?_, ?_, ?_⟩
  · intro o' ho' hother
    refine ⟨?_, hr.kept o' ho' hother⟩
    rw [hr.live]
    exact List.mem_cons_of_mem new ((List.mem_erase_of_ne hother).mpr ho')
  · intro new' hresult
    rw [hr.result] at hresult
    obtain rfl := Option.some.inj hresult
    refine ⟨hmem, ?_, ⟨page', hobject'.hpage, ?_⟩, ?_, ?_,
      fun _ => hr.gone h ho hnew⟩
    · intro p hp i hi
      obtain rfl : page = p := Option.some.inj (hpage.symm.trans hp)
      rw [← hcontent i hi]
      exact hr.bytes hnew hnewPage (by omega)
    · have husable := hobject'.asked_le
      unfold paUsableSize
      rw [if_pos haccepted, ← hasked]
      exact husable
    · intro o' ho' hne' p p' hp hp'
      exact hr.ok.apart hmem ho' hne'.symm hp hp'
    · rw [hr.freed, if_neg hne]
  · intro hnone
    rw [hr.result] at hnone
    exact nomatch hnone

theorem reallocKeep_contract {frees : Bool} (h : HeapOk b st)
    (ho : o ∈ st.live) (hpage : st.pages o.page = some page)
    (hfits : newsize ≤ usableSize b st.mem page o.ptr)
    (haccepted : ptrAccepted check o.ptr = true) :
    ReallocContract b check st o newsize frees (reallocKeep st o newsize) := by
  have hok := h.reask ho hpage hfits
  have hmem : { o with asked := newsize } ∈ (st.reask o newsize).live :=
    List.mem_cons_self
  refine ⟨hok, ?_, ?_, fun hnone => nomatch hnone⟩
  · intro o' ho' hother
    exact ⟨List.mem_cons_of_mem _ ((List.mem_erase_of_ne hother).mpr ho'),
      fun p _ hp => ⟨p, rfl, hp⟩, fun _ _ => SameOn.refl _ _ _⟩
  intro new hresult
  obtain rfl := Option.some.inj hresult
  refine ⟨hmem, fun _ _ _ _ => rfl, ⟨page, hpage, ?_⟩, ?_, (if_pos rfl).symm,
    fun hne => absurd rfl hne⟩
  · unfold paUsableSize
    rw [if_pos haccepted]
    exact hfits
  · intro o' ho' hne p p' hp hp'
    exact hok.apart hmem ho' hne.symm hp hp'

theorem AllocOutcome.failed_contract (ho : o ∈ st.live)
    (hfail : AllocOutcome b st newsize none st₁) :
    ReallocContract b check st o newsize false ⟨none, st₁, [], false⟩ := by
  have hmem : ∀ o' ∈ st.live, o' ∈ st₁.live := by
    intro o' ho'
    rw [hfail.live]
    exact ho'
  refine ⟨hfail.ok, fun o' ho' _ => ⟨hmem o' ho', hfail.kept o' ho'⟩,
    fun _ hsome => (nomatch hsome), ?_⟩
  intro _
  exact ⟨rfl, fun _ => ⟨hmem o ho, hfail.kept o ho⟩,
    fun hfrees => nomatch hfrees⟩

theorem heapMallocZero_room (h : HeapOk b st) {zero : Bool}
    (hrun : heapMallocZero layer st newsize zero = (some new, st₁))
    (hpage : st₁.pages new.page = some page) :
    max newsize 1 ≤ usableBlockSize b page := by
  obtain ⟨hok, -, -⟩ := (layer.prepare_background st
    (BlockHeap.requestSize b newsize) h).keeps h
  unfold heapMallocZero at hrun
  dsimp only at hrun
  split at hrun
  · exact nomatch (Prod.mk.inj hrun).1
  · next id p block hanswer =>
      have hcan := layer.alloc_canAlloc _ _ id p block hok hanswer
      obtain ⟨hnew, hst⟩ := Prod.mk.inj hrun
      obtain rfl := Option.some.inj hnew
      rw [← hst] at hpage
      obtain rfl : p = page :=
        Option.some.inj (hcan.hpage.symm.trans hpage)
      exact requestSize_room hcan.fits (hok.layout.ok id p hcan.hpage)

/-- The copying path fails, or the new object takes the place of the old
one. -/
theorem reallocCopy_replaced (page : BlockPage) (newsize : ℕ) (zero : Bool)
    (h : HeapOk b st)
    (ho : o ∈ st.live) (haccepted : ptrAccepted check o.ptr = true) :
    let size := usableSize b st.mem page o.ptr
    let r := reallocCopy layer check st (some o) size newsize zero
    (∃ st₁, AllocOutcome b st newsize none st₁ ∧
      r = ⟨none, st₁, [], false⟩ ∧
      (heapMallocZero layer st newsize false).1 = none) ∨
    ∃ st₁ new newPage, AllocOutcome b st newsize (some new) st₁ ∧
      (heapMallocZero layer st newsize false).1 = some new ∧
      new.ptr = new.block ∧ intptrSize ∣ new.ptr ∧
      st₁.pages new.page = some newPage ∧
      Replaced b st o new newPage
        (reallocContent st₁.mem new.ptr o.ptr size newsize zero) r := by
  obtain ⟨hout, hblock⟩ := heapMallocZero_outcome layer newsize false h
  unfold reallocCopy
  dsimp only
  split
  · next st₁ hrun =>
      rw [hrun] at hout
      exact Or.inl ⟨st₁, hout, rfl, by rw [hrun]⟩
  · next new st₁ hrun =>
      rw [hrun] at hout hblock
      have hptr : new.ptr = new.block := hblock new rfl
      obtain ⟨newPage, u, hnew⟩ := hout.ok.live new hout.mem
      have hroom := heapMallocZero_room layer h hrun hnew.hpage
      have hword := hnew.toIsBlock.word hout.ok.layout
      rw [← hptr] at hword
      have hwrite : ChangesOnly new.block
          (new.block + usableBlockSize b newPage) st₁.mem
          (reallocContent st₁.mem new.ptr o.ptr
            (usableSize b st.mem page o.ptr) newsize zero) := by
        rw [hptr]
        exact reallocContent_changesOnly.mono le_rfl (by omega)
      exact Or.inr ⟨st₁, new, newPage, hout, by rw [hrun], hptr, hword,
        hnew.hpage,
        replaceObject_replaced layer h ho hout hnew.hpage hwrite haccepted⟩

/-- What was allocated and the bytes that are taken over do not overlap. -/
theorem AllocOutcome.source (h : HeapOk b st) (ho : o ∈ st.live)
    (hpage : st.pages o.page = some page)
    (hnew : AllocOutcome b st newsize (some new) st₁) :
    (new.ptr + newsize ≤ o.ptr ∨
      o.ptr + min newsize (usableSize b st.mem page o.ptr) ≤ new.ptr) ∧
    ∀ i < min newsize (usableSize b st.mem page o.ptr),
      st₁.mem (o.ptr + i) = st.mem (o.ptr + i) := by
  obtain ⟨usable, hobject⟩ := h.object ho hpage
  obtain ⟨newPage, u, hobject₁⟩ := hnew.ok.live new hnew.mem
  have hapart := hnew.apart h ho hpage hobject₁.hpage
  have hasked : new.asked = newsize := hnew.asked new rfl
  have husable := hobject.usableSize
  have hle := hobject.usable_le
  have hle' := usableBlockSize_le b page
  have hge := hobject.ptr_ge
  have hlt := hobject.ptr_lt
  have hle₁ := hobject₁.usable_le
  have hle₁' := usableBlockSize_le b newPage
  have hge₁ := hobject₁.ptr_ge
  have hfits₁ := hobject₁.fits
  refine ⟨by omega, ?_⟩
  intro i hi
  exact (hnew.kept o ho).mem page hpage _ (by omega) (by omega)

/-- The copying path meets the contract when `pa_free` accepts the
address. -/
theorem reallocCopy_contract {zero : Bool} (h : HeapOk b st)
    (ho : o ∈ st.live) (hpage : st.pages o.page = some page)
    (haccepted : ptrAccepted check o.ptr = true) :
    ReallocContract b check st o newsize false
      (reallocCopy layer check st (some o)
        (usableSize b st.mem page o.ptr) newsize zero) := by
  rcases reallocCopy_replaced layer page newsize zero h ho haccepted with ⟨st₁, hfail, hr, -⟩ |
    ⟨st₁, new, newPage, hout, -, -, hword, hnewPage, hr⟩
  · rw [hr]
    exact hfail.failed_contract ho
  · obtain ⟨hapart, hsame⟩ := hout.source h ho hpage
    apply hr.contract h ho hpage hout hnewPage
      (ptrAccepted_iff.mpr (Or.inr hword))
    intro i hi
    rw [reallocContent_copies hapart hi]
    exact hsame i hi

inductive ReallocWay (check : Bool) (st : BlockHeap) (o : HeapObject)
    (page : BlockPage) (newsize : ℕ) (zero : Bool) (next : ℕ)
    (commit : Bool) : Reallocation → Prop
  | keep (hfits : ReallocFits (usableSize b st.mem page o.ptr) newsize) :
      ReallocWay check st o page newsize zero next commit
        (reallocKeep st o newsize)
  | extend (hextends : ReallocExtends page
        (usableSize b st.mem page o.ptr) newsize next commit) :
      ReallocWay check st o page newsize zero next commit
        ⟨some { o with asked := newsize },
          reallocExtend b st o page newsize zero, [], true⟩
  | copy (hfits : ¬ReallocFits (usableSize b st.mem page o.ptr) newsize)
      (hextends : ¬ReallocExtends page (usableSize b st.mem page o.ptr)
        newsize next commit) :
      ReallocWay check st o page newsize zero next commit
        (reallocCopy layer check st (some o) (usableSize b st.mem page o.ptr)
          newsize zero)

theorem heapReallocZero_way (newsize next : ℕ) (zero commit : Bool)
    (hpage : st.pages o.page = some page)
    (haccepted : ptrAccepted check o.ptr = true) :
    ∃ r, heapReallocZero layer check st (some o) newsize zero next commit =
        some r ∧
      ReallocWay layer check st o page newsize zero next commit r := by
  have hvalidate : validatePtrPage check st o = some page := by
    unfold validatePtrPage
    rw [if_pos haccepted, hpage]
  unfold heapReallocZero
  dsimp only
  rw [hvalidate]
  dsimp only
  by_cases hfits :
      ReallocFits (pageUsableSize b st.mem o.ptr (some page)) newsize
  · rw [if_pos hfits]
    exact ⟨_, rfl, .keep hfits⟩
  · rw [if_neg hfits]
    by_cases hlarger : pageUsableSize b st.mem o.ptr (some page) < newsize ∧
        newsize ≤ largeObjSizeMax
    · rw [if_pos hlarger]
      by_cases hextends : ReallocExtends page
          (pageUsableSize b st.mem o.ptr (some page)) newsize next commit
      · rw [if_pos hextends]
        exact ⟨_, rfl, .extend hextends⟩
      · rw [if_neg hextends]
        exact ⟨_, rfl, .copy hfits hextends⟩
    · rw [if_neg hlarger]
      exact ⟨_, rfl, .copy hfits fun hextends =>
        hlarger ⟨hextends.1, hextends.2.1⟩⟩

theorem heapReallocZero_refused {next : ℕ} {zero commit : Bool}
    (hrefused : ptrAccepted check o.ptr = false) :
    heapReallocZero layer check st (some o) newsize zero next commit =
      if 0 < newsize ∧ newsize ≤ largeObjSizeMax then none
      else some (reallocCopy layer check st (some o) 0 newsize zero) := by
  have hvalidate : validatePtrPage check st o = none := by
    unfold validatePtrPage
    rw [if_neg (by rw [hrefused]; exact Bool.false_ne_true)]
  have hfits :
      ¬ReallocFits (pageUsableSize b st.mem o.ptr none) newsize := by
    rintro ⟨hle, hpos, -⟩
    exact absurd hpos (not_lt.mpr hle)
  unfold heapReallocZero
  dsimp only
  rw [hvalidate, if_neg hfits]
  rfl

theorem heapReallocZero_contract (newsize next : ℕ) (zero commit : Bool)
    (h : HeapOk b st) (ho : o ∈ st.live)
    (haccepted : ptrAccepted check o.ptr = true) :
    ∃ r, heapReallocZero layer check st (some o) newsize zero next commit =
        some r ∧
      (r.extended = false →
        ReallocContract b check st o newsize false r) := by
  obtain ⟨page, hpage⟩ := h.exists_page ho
  obtain ⟨r, hrun, hway⟩ := heapReallocZero_way layer newsize next zero
    commit hpage haccepted
  refine ⟨r, hrun, ?_⟩
  intro hext
  cases hway with
  | keep hfits =>
      exact reallocKeep_contract h ho hpage hfits.1 haccepted
  | extend hextends => exact nomatch hext
  | copy hfits hextends => exact reallocCopy_contract layer h ho hpage haccepted

/-- With `pa_heap_reallocf` the object is freed when the allocation fails. -/
theorem ReallocContract.freeOnFailure {r : Reallocation} (h : HeapOk b st)
    (hr : ReallocContract b check st o newsize false r)
    (hnone : r.result = none) (haccepted : ptrAccepted check o.ptr = true) :
    ReallocContract b check st o newsize true
      ⟨none, (freeObject layer check r.heap o).1,
        r.freed ++ (freeObject layer check r.heap o).2, r.extended⟩ := by
  have hfailure := hr.failure hnone
  obtain ⟨hmem, hobject⟩ := hfailure.kept rfl
  obtain ⟨hok, hlive, hfreed, hkept⟩ :=
    freeObject_keeps layer hr.ok hmem haccepted
  refine ⟨hok, ?_, fun _ hsome => (nomatch hsome), ?_⟩
  · intro o' ho' hother
    obtain ⟨hmem', hobject'⟩ := hr.others o' ho' hother
    obtain ⟨p, u, hold⟩ := h.live o' ho'
    refine ⟨?_, hobject'.trans hold (hkept o' hmem' hother)⟩
    show o' ∈ (freeObject layer check r.heap o).1.live
    rw [hlive]
    exact (List.mem_erase_of_ne hother).mpr hmem'
  · intro _
    refine ⟨?_, fun hfrees => (nomatch hfrees), ?_⟩
    · show r.freed ++ (freeObject layer check r.heap o).2 = [o]
      rw [hfreed, hfailure.freed]
      rfl
    · intro _ hold
      have hold' : o ∈ (freeObject layer check r.heap o).1.live := hold
      rw [hlive] at hold'
      exact hr.ok.not_mem_erase hold'

theorem heapReallocf_contract {next : ℕ} {commit : Bool} (h : HeapOk b st)
    (ho : o ∈ st.live) (haccepted : ptrAccepted check o.ptr = true) :
    ∃ r, heapReallocf layer check st (some o) newsize next commit = some r ∧
      (r.extended = false →
        ReallocContract b check st o newsize true r) := by
  obtain ⟨r, hrun, hr⟩ := heapReallocZero_contract layer newsize next
    false commit h ho haccepted
  unfold heapReallocf
  rw [hrun]
  dsimp only
  cases hresult : r.result with
  | none =>
      exact ⟨_, rfl, fun hext =>
        (hr hext).freeOnFailure layer h hresult haccepted⟩
  | some new =>
      refine ⟨r, rfl, fun hext => ?_⟩
      have hcontract := hr hext
      refine ⟨hcontract.ok, hcontract.others, hcontract.success, ?_⟩
      intro hnone
      rw [hresult] at hnone
      exact nomatch hnone

theorem reallocCopy_refused (size newsize : ℕ) (zero : Bool)
    (h : HeapOk b st)
    (hrefused : ptrAccepted check o.ptr = false) :
    let r := reallocCopy layer check st (some o) size newsize zero
    r.freed = [] ∧ r.extended = false ∧
      ∀ new, r.result = some new → new.ptr ≠ o.ptr := by
  obtain ⟨hout, hblock⟩ := heapMallocZero_outcome layer newsize false h
  unfold reallocCopy
  split
  · exact ⟨rfl, rfl, fun _ hsome => nomatch hsome⟩
  · next new st₁ hrun =>
      rw [hrun] at hout hblock
      unfold replaceObject
      dsimp only
      rw [freeObject_refused layer hrefused]
      refine ⟨rfl, rfl, ?_⟩
      intro new' hnew'
      obtain rfl := Option.some.inj hnew'
      obtain ⟨page, u, hnew⟩ := hout.ok.live new hout.mem
      have hptr : new.ptr = new.block := hblock new rfl
      have hnewAccepted : ptrAccepted check new.ptr = true := by
        rw [ptrAccepted_iff, hptr]
        exact Or.inr (hnew.toIsBlock.word hout.ok.layout)
      intro heq
      rw [heq, hrefused] at hnewAccepted
      exact nomatch hnewAccepted

/-- An address that `pa_free` refuses is not freed. -/
theorem heapReallocf_refused {next : ℕ} {commit : Bool} (h : HeapOk b st)
    (hrefused : ptrAccepted check o.ptr = false) {r : Reallocation}
    (hrun : heapReallocf layer check st (some o) newsize next commit =
      some r) :
    r.extended = false ∧ ¬ReallocContract b check st o newsize true r := by
  obtain ⟨hfreed, hext, hptr⟩ := reallocCopy_refused layer 0 newsize false h hrefused
  unfold heapReallocf at hrun
  rw [heapReallocZero_refused layer hrefused] at hrun
  by_cases hsize : 0 < newsize ∧ newsize ≤ largeObjSizeMax
  · rw [if_pos hsize] at hrun
    exact nomatch hrun
  · rw [if_neg hsize] at hrun
    dsimp only at hrun
    generalize reallocCopy layer check st (some o) 0 newsize false = copied
      at hrun hfreed hext hptr
    cases hresult : copied.result with
    | none =>
        rw [hresult] at hrun
        dsimp only at hrun
        rw [freeObject_refused layer hrefused] at hrun
        obtain rfl := Option.some.inj hrun
        refine ⟨hext, ?_⟩
        intro hcontract
        have hfail : copied.freed ++ [] = [o] :=
          (hcontract.failure rfl).freed
        rw [hfreed] at hfail
        exact nomatch hfail
    | some new =>
        rw [hresult] at hrun
        obtain rfl := Option.some.inj hrun
        refine ⟨hext, ?_⟩
        intro hcontract
        have hsuccess := (hcontract.success new hresult).freed
        rw [hfreed, if_neg (hptr new hresult)] at hsuccess
        exact nomatch hsuccess

structure ReallocMeets (check : Bool) (st : BlockHeap) (o : HeapObject)
    (newsize : ℕ) (zero : Bool) (next : ℕ) (commit : Bool) : Prop where
  realloc : ∃ r, heapReallocZero layer check st (some o) newsize zero next
      commit = some r ∧
    (r.extended = false → ReallocContract b check st o newsize false r)
  reallocf : ∃ r, heapReallocf layer check st (some o) newsize next commit =
      some r ∧
    (r.extended = false → ReallocContract b check st o newsize true r)
  overflow : ∀ count size, count < MachineWord.wordSize →
    size < MachineWord.wordSize → MachineWord.wordSize ≤ count * size →
      heapReallocn layer check st (some o) count size zero next commit =
        some ⟨none, st, [], false⟩

end Contract

/-! ## An address between two words -/

section Misaligned

/-- The result of `pa_malloc_aligned_at(64, 16, offset)` is live. -/
theorem alignedResult_live {offset : ℕ} {o : HeapObject}
    (hresult : (alignedResult offset).1 = some o) :
    o ∈ (alignedResult offset).2.live := by
  have hok : HeapOk debugBuild alignedHeap :=
    (@alignedHeap_run true).heapOk
  obtain ⟨hout, -⟩ := heapMallocZeroAlignedAt_outcome
    (firstFitLayer debugBuild) true 64 16 offset false hok
  have hmem : (heapMallocZeroAlignedAt (firstFitLayer debugBuild) true
      alignedHeap 64 16 offset false).1 = some o := hresult
  rw [hmem] at hout
  exact hout.mem

end Misaligned

end Palloc
