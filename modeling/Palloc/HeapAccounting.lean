import Palloc.MachineWord
import Mathlib.Algebra.BigOperators.Group.List.Basic
import Mathlib.Logic.Function.Basic
import Mathlib.Logic.Relation

/-!
# The byte count of a heap

`heap->used_bytes` grows when a block is given out and shrinks when its owner
frees it.  A block that another thread frees stays counted until its heap
collects it.  From the heap's delayed list it goes through
`pa_free_block_local`, which adjusts the counter; from the `xthread_free` list
of its page it goes through `_pa_page_thread_free_collect`, which does not.
Pages change their heap without taking their bytes along.
-/

namespace Palloc

open MachineWord

structure CountedBlock where
  page : ℕ
  block : ℕ
  deriving Repr, DecidableEq

/-- The heap of a page, and `pa_page_usable_block_size`. -/
structure CountedPage where
  heap : Option ℕ
  usable : ℕ
  deriving Repr, DecidableEq

/-- The pages, the counters of the heaps that exist, the blocks that the
program holds, the `xthread_free` lists of the pages and the
`thread_delayed_free` lists of the heaps. -/
structure HeapAccounts where
  pages : ℕ → Option CountedPage
  usedBytes : ℕ → Option ℕ
  live : List CountedBlock
  threadFree : List CountedBlock
  delayed : List (ℕ × CountedBlock)

namespace HeapAccounts

def start : HeapAccounts := ⟨fun _ => none, fun _ => none, [], [], []⟩

/-! ## The operations on the counter -/

def count (st : HeapAccounts) (heap : ℕ) (f : ℕ → ℕ) : HeapAccounts :=
  { st with
    usedBytes :=
      Function.update st.usedBytes heap ((st.usedBytes heap).map f) }

/-- `_pa_page_finish_alloc`. -/
def finishAlloc (st : HeapAccounts) (heap usable : ℕ) (b : CountedBlock) :
    HeapAccounts :=
  { st.count heap fun used => (used + usable) % wordSize with
    live := b :: st.live }

/-- `pa_free_block_local`, for a block that is on no list any more. -/
def freeBlockLocal (st : HeapAccounts) (b : CountedBlock) : HeapAccounts :=
  match st.pages b.page with
  | some ⟨some heap, usable⟩ =>
      st.count heap fun used => if usable ≤ used then used - usable else 0
  | _ => st

/-- `_pa_page_thread_free_collect`. -/
def pageThreadFreeCollect (st : HeapAccounts) (id : ℕ) : HeapAccounts :=
  { st with threadFree := st.threadFree.filter fun b => b.page ≠ id }

/-- `_pa_free_delayed_block`. -/
def freeDelayedBlock (st : HeapAccounts) (b : CountedBlock) : HeapAccounts :=
  (st.pageThreadFreeCollect b.page).freeBlockLocal b

/-- `pa_page_set_heap`, and the other ways in which the record of a page
changes. -/
def setPage (st : HeapAccounts) (id : ℕ) (page : Option CountedPage) :
    HeapAccounts :=
  { st with pages := Function.update st.pages id page }

@[simp] theorem setPage_pages (st : HeapAccounts) (id : ℕ)
    (page : Option CountedPage) :
    (st.setPage id page).pages = Function.update st.pages id page := rfl

def IsOf (st : HeapAccounts) (heap : ℕ) (b : CountedBlock) : Prop :=
  ∃ page, st.pages b.page = some page ∧ page.heap = some heap

instance (st : HeapAccounts) (heap : ℕ) (b : CountedBlock) :
    Decidable (st.IsOf heap b) :=
  match h : st.pages b.page with
  | none => isFalse (by rintro ⟨page, hpage, -⟩; rw [h] at hpage; cases hpage)
  | some page =>
      decidable_of_iff (page.heap = some heap)
        ⟨fun hheap => ⟨page, h, hheap⟩, by
          rintro ⟨page', hpage, hheap⟩
          rw [h] at hpage
          cases hpage
          exact hheap⟩

/-- A heap is freed with the pages that are its own: they have no heap any
more. -/
def heapAbandon (st : HeapAccounts) (heap : ℕ) : HeapAccounts :=
  { st with
    usedBytes := Function.update st.usedBytes heap none
    pages := fun id =>
      (st.pages id).map fun page =>
        if page.heap = some heap then { page with heap := none } else page }

/-- `_pa_heap_destroy_pages` and `pa_heap_free`: the pages are freed with the
blocks on them. -/
def heapDestroy (st : HeapAccounts) (heap : ℕ) : HeapAccounts :=
  { pages := fun id =>
      (st.pages id).filter fun page => page.heap ≠ some heap
    usedBytes := Function.update st.usedBytes heap none
    live := st.live.filter fun b => ¬st.IsOf heap b
    threadFree := st.threadFree.filter fun b => ¬st.IsOf heap b
    delayed := st.delayed.filter fun d => ¬st.IsOf heap d.2 }

/-- The blocks in use: `page->used` counts those of a page. -/
def inUse (st : HeapAccounts) : List CountedBlock :=
  st.live ++ st.delayed.map Prod.snd ++ st.threadFree

/-! ## The sums -/

/-- The bytes of a block, when its page is one of the heap. -/
def charge (pages : ℕ → Option CountedPage) (heap : ℕ) (b : CountedBlock) :
    ℕ :=
  match pages b.page with
  | some page => if page.heap = some heap then page.usable else 0
  | none => 0

def charges (pages : ℕ → Option CountedPage) (heap : ℕ)
    (blocks : List CountedBlock) : ℕ :=
  (blocks.map (charge pages heap)).sum

/-- The usable bytes of the blocks that the program holds of a heap. -/
def liveBytes (st : HeapAccounts) (heap : ℕ) : ℕ :=
  charges st.pages heap st.live

end HeapAccounts

/-! ## Runs -/

inductive AccountOp where
  | heapNew (heap : ℕ)
  | pageFresh (id heap usable : ℕ)
  | malloc (b : CountedBlock)
  | freeLocal (b : CountedBlock)
  | freeMt (b : CountedBlock)
  | freeDelayedMt (b : CountedBlock)
  | threadFreeCollect (id : ℕ)
  | delayedFree (heap : ℕ) (b : CountedBlock)
  | tryExtendSpan (id usable : ℕ)
  | pageAppend (id heap : ℕ)
  | pageAbandon (id : ℕ)
  | pageReclaim (id heap : ℕ)
  | pageFree (id : ℕ)
  | heapAbandon (heap : ℕ)
  | heapDestroy (heap : ℕ)
  | heapFree (heap : ℕ)

open HeapAccounts

inductive AccountStep : HeapAccounts → AccountOp → HeapAccounts → Prop
  | heapNew {st : HeapAccounts} (heap : ℕ) (hnew : st.usedBytes heap = none) :
      AccountStep st (.heapNew heap)
        { st with usedBytes := Function.update st.usedBytes heap (some 0) }
  | pageFresh {st : HeapAccounts} (id heap usable : ℕ)
      (hid : st.pages id = none) (hheap : st.usedBytes heap ≠ none) :
      AccountStep st (.pageFresh id heap usable)
        (st.setPage id (some ⟨some heap, usable⟩))
  /-- The blocks of a heap lie apart in the address space. -/
  | malloc {st : HeapAccounts} (b : CountedBlock) (heap usable : ℕ)
      (hpage : st.pages b.page = some ⟨some heap, usable⟩)
      (hfits : charges st.pages heap st.inUse + usable < wordSize) :
      AccountStep st (.malloc b) (st.finishAlloc heap usable b)
  | freeLocal {st : HeapAccounts} (b : CountedBlock) (hlive : b ∈ st.live) :
      AccountStep st (.freeLocal b)
        ({ st with live := st.live.erase b }.freeBlockLocal b)
  /-- Another thread frees a block onto its page. -/
  | freeMt {st : HeapAccounts} (b : CountedBlock) (hlive : b ∈ st.live) :
      AccountStep st (.freeMt b)
        { st with
          live := st.live.erase b
          threadFree := b :: st.threadFree }
  /-- The page asks for delayed frees: it goes to the heap. -/
  | freeDelayedMt {st : HeapAccounts} (b : CountedBlock) (heap usable : ℕ)
      (hlive : b ∈ st.live)
      (hpage : st.pages b.page = some ⟨some heap, usable⟩) :
      AccountStep st (.freeDelayedMt b)
        { st with
          live := st.live.erase b
          delayed := (heap, b) :: st.delayed }
  | threadFreeCollect {st : HeapAccounts} (id : ℕ) :
      AccountStep st (.threadFreeCollect id) (st.pageThreadFreeCollect id)
  | delayedFree {st : HeapAccounts} (heap : ℕ) (b : CountedBlock)
      (hdelayed : (heap, b) ∈ st.delayed) :
      AccountStep st (.delayedFree heap b)
        ({ st with delayed := st.delayed.erase (heap, b) }.freeDelayedBlock b)
  /-- `_pa_segment_try_extend_span` sets the block size of the page of a block
  that is reallocated. -/
  | tryExtendSpan {st : HeapAccounts} (b : CountedBlock) (page : CountedPage)
      (usable : ℕ) (hlive : b ∈ st.live)
      (hpage : st.pages b.page = some page) (hlt : page.usable < usable) :
      AccountStep st (.tryExtendSpan b.page usable)
        (st.setPage b.page (some { page with usable := usable }))
  /-- `_pa_page_queue_append` gives a page to the heap that absorbs its
  heap. -/
  | pageAppend {st : HeapAccounts} (id heap fromHeap usable : ℕ)
      (hpage : st.pages id = some ⟨some fromHeap, usable⟩)
      (hheap : st.usedBytes heap ≠ none) :
      AccountStep st (.pageAppend id heap)
        (st.setPage id (some ⟨some heap, usable⟩))
  /-- `_pa_page_abandon` in a forced abandon, after which the heap goes on. -/
  | pageAbandon {st : HeapAccounts} (id heap usable : ℕ)
      (hpage : st.pages id = some ⟨some heap, usable⟩) :
      AccountStep st (.pageAbandon id) (st.setPage id (some ⟨none, usable⟩))
  /-- `pa_segment_reclaim` and `_pa_page_reclaim`. -/
  | pageReclaim {st : HeapAccounts} (id heap usable : ℕ)
      (hpage : st.pages id = some ⟨none, usable⟩)
      (hheap : st.usedBytes heap ≠ none) :
      AccountStep st (.pageReclaim id heap)
        (st.setPage id (some ⟨some heap, usable⟩))
  | pageFree {st : HeapAccounts} (id : ℕ)
      (hfree : ∀ b ∈ st.inUse, b.page ≠ id) :
      AccountStep st (.pageFree id) (st.setPage id none)
  /-- `_pa_heap_collect_abandon`, after the delayed frees, and
  `pa_heap_free`. -/
  | heapAbandon {st : HeapAccounts} (heap : ℕ)
      (hdelayed : ∀ d ∈ st.delayed, d.1 ≠ heap) :
      AccountStep st (.heapAbandon heap) (st.heapAbandon heap)
  | heapDestroy {st : HeapAccounts} (heap : ℕ) :
      AccountStep st (.heapDestroy heap) (st.heapDestroy heap)
  /-- `pa_heap_free` of a heap that was absorbed. -/
  | heapFree {st : HeapAccounts} (heap : ℕ)
      (hpages : ∀ id page, st.pages id = some page → page.heap ≠ some heap)
      (hdelayed : ∀ d ∈ st.delayed, d.1 ≠ heap) :
      AccountStep st (.heapFree heap)
        { st with usedBytes := Function.update st.usedBytes heap none }

/-- What a step needs for the counter to stay exact: nothing is collected from
an `xthread_free` list, no page with blocks changes its heap or its block
size. -/
def AccountOp.Exact (st : HeapAccounts) : AccountOp → Prop
  | .threadFreeCollect id =>
      (∀ b ∈ st.threadFree, b.page ≠ id) ∨
        ∀ page, st.pages id = some page → page.heap = none
  | .delayedFree _ b =>
      (∀ other ∈ st.threadFree, other.page ≠ b.page) ∨
        ∀ page, st.pages b.page = some page → page.heap = none
  | .tryExtendSpan id _ =>
      ∀ page, st.pages id = some page → page.heap = none
  | .pageAppend id _ | .pageAbandon id | .pageReclaim id _ =>
      ∀ b ∈ st.inUse, b.page ≠ id
  | _ => True

def AccountRun (st : HeapAccounts) : Prop :=
  Relation.ReflTransGen
    (fun st st' => ∃ op : AccountOp, AccountStep st op st' ∧ op.Exact st)
    start st

/-- All cross-thread frees of the pages of a heap have been collected. -/
def HeapAccounts.Collected (st : HeapAccounts) (heap : ℕ) : Prop :=
  (∀ b ∈ st.threadFree, ¬st.IsOf heap b) ∧
    ∀ d ∈ st.delayed, ¬st.IsOf heap d.2

/-! ## The invariant -/

structure ExactAccounts (st : HeapAccounts) : Prop where
  alive : ∀ id page heap, st.pages id = some page → page.heap = some heap →
    st.usedBytes heap ≠ none
  paged : ∀ b ∈ st.inUse, st.pages b.page ≠ none
  exact : ∀ heap used, st.usedBytes heap = some used →
    used = charges st.pages heap st.inUse

section Sums

variable {pages pages' : ℕ → Option CountedPage} {heap id usable : ℕ}
variable {blocks blocks' : List CountedBlock} {b : CountedBlock}

theorem charges_append :
    charges pages heap (blocks ++ blocks') =
      charges pages heap blocks + charges pages heap blocks' := by
  simp [charges]

theorem charges_cons :
    charges pages heap (b :: blocks) =
      charge pages heap b + charges pages heap blocks := by
  simp [charges]

theorem charges_perm (hperm : blocks.Perm blocks') :
    charges pages heap blocks = charges pages heap blocks' :=
  (hperm.map _).sum_eq

theorem charges_erase (hmem : b ∈ blocks) :
    charges pages heap blocks =
      charge pages heap b + charges pages heap (blocks.erase b) := by
  rw [charges_perm (List.perm_cons_erase hmem), charges_cons]

theorem charges_congr
    (h : ∀ b ∈ blocks, charge pages heap b = charge pages' heap b) :
    charges pages heap blocks = charges pages' heap blocks := by
  unfold charges
  rw [List.map_congr_left h]

theorem charges_eq_zero (h : ∀ b ∈ blocks, charge pages heap b = 0) :
    charges pages heap blocks = 0 := by
  unfold charges
  apply List.sum_eq_zero
  intro n hn
  obtain ⟨b, hb, rfl⟩ := List.mem_map.mp hn
  exact h b hb

theorem charge_of (hpage : pages b.page = some ⟨some heap, usable⟩) :
    charge pages heap b = usable := by
  simp [charge, hpage]

theorem charge_eq_zero
    (h : ∀ page, pages b.page = some page → page.heap ≠ some heap) :
    charge pages heap b = 0 := by
  unfold charge
  cases hpage : pages b.page with
  | none => rfl
  | some page => exact if_neg (h page hpage)

theorem charges_filter {keep : CountedBlock → Prop} [DecidablePred keep]
    (h : ∀ b ∈ blocks, ¬keep b → charge pages heap b = 0) :
    charges pages heap (blocks.filter keep) = charges pages heap blocks := by
  induction blocks with
  | nil => rfl
  | cons b blocks ih =>
      have hrest := ih fun other hmem =>
        h other (List.mem_cons_of_mem b hmem)
      by_cases hkeep : keep b
      · rw [List.filter_cons_of_pos (by simpa using hkeep), charges_cons,
          charges_cons, hrest]
      · rw [List.filter_cons_of_neg (by simpa using hkeep), charges_cons,
          h b List.mem_cons_self hkeep, hrest, Nat.zero_add]

theorem charge_update (hne : b.page ≠ id) {page : Option CountedPage} :
    charge (Function.update pages id page) heap b = charge pages heap b := by
  unfold charge
  rw [Function.update_of_ne hne]

end Sums

namespace HeapAccounts

variable {st : HeapAccounts} {heap : ℕ} {b : CountedBlock}

theorem mem_inUse :
    b ∈ st.inUse ↔
      b ∈ st.live ∨ (∃ d ∈ st.delayed, d.2 = b) ∨ b ∈ st.threadFree := by
  simp only [inUse, List.mem_append, List.mem_map, or_assoc]

theorem charges_inUse (pages : ℕ → Option CountedPage) :
    charges pages heap st.inUse =
      charges pages heap st.live +
        charges pages heap (st.delayed.map Prod.snd) +
          charges pages heap st.threadFree := by
  unfold inUse
  rw [charges_append, charges_append]

theorem not_isOf (h : ¬st.IsOf heap b) : charge st.pages heap b = 0 :=
  charge_eq_zero fun page hpage hheap => h ⟨page, hpage, hheap⟩

theorem Collected.charges (h : st.Collected heap) :
    charges st.pages heap st.inUse = st.liveBytes heap := by
  have hthread : HeapAccounts.charges st.pages heap st.threadFree = 0 :=
    charges_eq_zero fun b hb => not_isOf (h.1 b hb)
  have hdelayed :
      HeapAccounts.charges st.pages heap (st.delayed.map Prod.snd) = 0 := by
    apply charges_eq_zero
    intro b hb
    obtain ⟨d, hd, rfl⟩ := List.mem_map.mp hb
    exact not_isOf (h.2 d hd)
  rw [charges_inUse, hthread, hdelayed]
  rfl

end HeapAccounts

/-! ## Steps -/

namespace ExactAccounts

variable {st st' : HeapAccounts} {heap id usable : ℕ} {b : CountedBlock}

theorem start : ExactAccounts HeapAccounts.start where
  alive _ _ _ h := by cases h
  paged _ h := by cases h
  exact _ _ h := by cases h

theorem congr_inUse (h : ExactAccounts st) (hpages : st'.pages = st.pages)
    (hused : st'.usedBytes = st.usedBytes)
    (hperm : st.inUse.Perm st'.inUse) : ExactAccounts st' where
  alive := by
    rw [hpages, hused]
    exact h.alive
  paged b hb := by
    rw [hpages]
    exact h.paged b (hperm.mem_iff.mpr hb)
  exact heap used hheap := by
    rw [hused] at hheap
    rw [hpages, ← charges_perm hperm]
    exact h.exact heap used hheap

theorem setPage (h : ExactAccounts st) (hblocks : ∀ b ∈ st.inUse, b.page ≠ id)
    {page : Option CountedPage}
    (hheap : ∀ record heap, page = some record → record.heap = some heap →
      st.usedBytes heap ≠ none) : ExactAccounts (st.setPage id page) where
  alive other record heap hpage hof := by
    by_cases hid : other = id
    · subst hid
      have hrecord : page = some record := by
        simpa using hpage
      exact hheap record heap hrecord hof
    · have hold : st.pages other = some record := by
        simpa [Function.update_of_ne hid] using hpage
      exact h.alive other record heap hold hof
  paged b hb := by
    have hold := h.paged b hb
    rwa [setPage_pages, Function.update_of_ne (hblocks b hb)]
  exact heap used hused := by
    refine (h.exact heap used hused).trans (charges_congr fun b hb => ?_)
    exact (charge_update (hblocks b hb)).symm

theorem resize (h : ExactAccounts st) (hpage : st.pages id = some ⟨none, usable⟩)
    (usable' : ℕ) :
    ExactAccounts (st.setPage id (some ⟨none, usable'⟩)) where
  alive other record heap hrecord hof := by
    by_cases hid : other = id
    · subst hid
      have heq : some ⟨none, usable'⟩ = some record := by
        simpa using hrecord
      cases heq
      cases hof
    · have hold : st.pages other = some record := by
        simpa [Function.update_of_ne hid] using hrecord
      exact h.alive other record heap hold hof
  paged b hb := by
    by_cases hid : b.page = id
    · rw [setPage_pages, hid, Function.update_self]
      exact Option.some_ne_none _
    · rw [setPage_pages, Function.update_of_ne hid]
      exact h.paged b hb
  exact heap used hused := by
    refine (h.exact heap used hused).trans (charges_congr fun b hb => ?_)
    by_cases hid : b.page = id
    · simp [charge, hid, hpage]
    · exact (charge_update hid).symm

structure But (st : HeapAccounts) (b : CountedBlock) : Prop where
  alive : ∀ id page heap, st.pages id = some page → page.heap = some heap →
    st.usedBytes heap ≠ none
  paged : ∀ b ∈ st.inUse, st.pages b.page ≠ none
  exact : ∀ heap used, st.usedBytes heap = some used →
    used = charge st.pages heap b + charges st.pages heap st.inUse

theorem leave (h : ExactAccounts st) (hpages : st'.pages = st.pages)
    (hused : st'.usedBytes = st.usedBytes)
    (hperm : st.inUse.Perm (b :: st'.inUse)) : But st' b where
  alive := by
    rw [hpages, hused]
    exact h.alive
  paged other hother := by
    rw [hpages]
    exact h.paged other (hperm.mem_iff.mpr (List.mem_cons_of_mem b hother))
  exact heap used hheap := by
    rw [hused] at hheap
    rw [hpages, ← charges_cons, ← charges_perm hperm]
    exact h.exact heap used hheap

theorem But.free (h : But st b) : ExactAccounts (st.freeBlockLocal b) := by
  unfold HeapAccounts.freeBlockLocal
  have hskip (hzero : ∀ heap, charge st.pages heap b = 0) :
      ExactAccounts st := by
    refine ⟨h.alive, h.paged, fun heap used hused => ?_⟩
    rw [h.exact heap used hused, hzero heap, Nat.zero_add]
  cases hpage : st.pages b.page with
  | none => exact hskip fun heap => by simp [charge, hpage]
  | some page =>
      obtain ⟨owner, usable⟩ := page
      cases owner with
      | none => exact hskip fun heap => by simp [charge, hpage]
      | some owner =>
          dsimp only
          refine ⟨?_, h.paged, ?_⟩
          · intro id page heap hid hof
            have halive := h.alive id page heap hid hof
            unfold HeapAccounts.count
            by_cases heq : heap = owner
            · subst heq
              dsimp only
              rw [Function.update_self, Ne, Option.map_eq_none_iff]
              exact halive
            · dsimp only
              rw [Function.update_of_ne heq]
              exact halive
          · intro heap used hused
            unfold HeapAccounts.count at hused
            dsimp only at hused
            by_cases heq : heap = owner
            · subst heq
              rw [Function.update_self] at hused
              obtain ⟨before, hbefore, rfl⟩ := Option.map_eq_some_iff.mp hused
              have hsum := h.exact heap before hbefore
              rw [charge_of hpage] at hsum
              rw [if_pos (by omega)]
              show before - usable = charges st.pages heap st.inUse
              omega
            · rw [Function.update_of_ne heq] at hused
              have hsum := h.exact heap used hused
              have hother : charge st.pages heap b = 0 := by
                apply charge_eq_zero
                intro page hfound hof
                rw [hpage] at hfound
                cases hfound
                exact heq (Option.some.inj hof).symm
              rw [hother, Nat.zero_add] at hsum
              exact hsum

theorem malloc (h : ExactAccounts st)
    (hpage : st.pages b.page = some ⟨some heap, usable⟩)
    (hfits : charges st.pages heap st.inUse + usable < wordSize) :
    ExactAccounts (st.finishAlloc heap usable b) := by
  refine ⟨?_, ?_, ?_⟩
  · intro id page other hid hof
    have halive := h.alive id page other hid hof
    unfold HeapAccounts.finishAlloc HeapAccounts.count
    dsimp only
    by_cases heq : other = heap
    · subst heq
      rw [Function.update_self, Ne, Option.map_eq_none_iff]
      exact halive
    · rw [Function.update_of_ne heq]
      exact halive
  · intro other hother
    rcases List.mem_cons.mp hother with rfl | hold
    · show st.pages other.page ≠ none
      rw [hpage]
      exact Option.some_ne_none _
    · exact h.paged other hold
  · intro other used hused
    have hcons : charges st.pages other (st.finishAlloc heap usable b).inUse =
        charge st.pages other b + charges st.pages other st.inUse :=
      charges_cons
    refine Eq.trans ?_ hcons.symm
    unfold HeapAccounts.finishAlloc HeapAccounts.count at hused
    dsimp only at hused
    by_cases heq : other = heap
    · subst heq
      rw [Function.update_self] at hused
      obtain ⟨before, hbefore, rfl⟩ := Option.map_eq_some_iff.mp hused
      have hsum := h.exact other before hbefore
      rw [charge_of hpage, ← hsum, Nat.add_comm usable]
      exact Nat.mod_eq_of_lt (by omega)
    · rw [Function.update_of_ne heq] at hused
      have hother : charge st.pages other b = 0 := by
        apply charge_eq_zero
        intro page hfound hof
        rw [hpage] at hfound
        cases hfound
        exact heq (Option.some.inj hof).symm
      rw [hother, Nat.zero_add]
      exact h.exact other used hused

/-- The blocks on the list of a page without a heap, or none at all, are
collected. -/
theorem collect (h : ExactAccounts st)
    (hzero : ∀ b ∈ st.threadFree, b.page = id → ∀ heap,
      charge st.pages heap b = 0) :
    ExactAccounts (st.pageThreadFreeCollect id) := by
  refine ⟨h.alive, ?_, ?_⟩
  · intro b hb
    apply h.paged b
    rw [HeapAccounts.mem_inUse] at hb ⊢
    exact hb.imp_right (Or.imp_right List.mem_of_mem_filter)
  · intro heap used hused
    rw [h.exact heap used hused]
    have hfilter := @charges_filter st.pages heap st.threadFree
      (fun b => b.page ≠ id) _
      (fun b hb hid => hzero b hb (not_not.mp hid) heap)
    rw [HeapAccounts.charges_inUse, HeapAccounts.charges_inUse]
    exact congrArg _ hfilter.symm

theorem heapFree (h : ExactAccounts st)
    (hpages : ∀ id page, st.pages id = some page → page.heap ≠ some heap) :
    ExactAccounts
      { st with usedBytes := Function.update st.usedBytes heap none } := by
  refine ⟨?_, h.paged, ?_⟩
  · intro id page other hid hof
    have hne : other ≠ heap := fun heq => hpages id page hid (heq ▸ hof)
    dsimp only
    rw [Function.update_of_ne hne]
    exact h.alive id page other hid hof
  · intro other used hused
    dsimp only at hused
    by_cases heq : other = heap
    · subst heq
      rw [Function.update_self] at hused
      cases hused
    · rw [Function.update_of_ne heq] at hused
      exact h.exact other used hused

theorem heapAbandon (h : ExactAccounts st) (heap : ℕ) :
    ExactAccounts (st.heapAbandon heap) := by
  refine ⟨?_, ?_, ?_⟩
  · intro id page other hid hof
    obtain ⟨old, hold, rfl⟩ := Option.map_eq_some_iff.mp hid
    split at hof
    · cases hof
    · rename_i hnot
      have hne : other ≠ heap := fun heq => hnot (heq ▸ hof)
      show Function.update st.usedBytes heap none other ≠ none
      rw [Function.update_of_ne hne]
      exact h.alive id old other hold hof
  · intro b hb
    show Option.map _ (st.pages b.page) ≠ none
    rw [Ne, Option.map_eq_none_iff]
    exact h.paged b hb
  · intro other used hused
    have hused : Function.update st.usedBytes heap none other = some used :=
      hused
    by_cases heq : other = heap
    · subst heq
      rw [Function.update_self] at hused
      cases hused
    · rw [Function.update_of_ne heq] at hused
      refine (h.exact other used hused).trans (charges_congr fun b _ => ?_)
      unfold charge HeapAccounts.heapAbandon
      dsimp only
      cases hpage : st.pages b.page with
      | none => rfl
      | some page =>
          dsimp only [Option.map_some]
          by_cases hof : page.heap = some heap
          · have hother : page.heap ≠ some other := by
              rw [hof]
              exact fun hsame => heq (Option.some.inj hsame).symm
            rw [if_pos hof, if_neg hother, if_neg (by simp)]
          · rw [if_neg hof]

theorem heapDestroy (h : ExactAccounts st) (heap : ℕ) :
    ExactAccounts (st.heapDestroy heap) := by
  have hkept {b : CountedBlock} (hb : b ∈ (st.heapDestroy heap).inUse) :
      b ∈ st.inUse ∧ ¬st.IsOf heap b := by
    rcases HeapAccounts.mem_inUse.mp hb with hb | ⟨d, hd, rfl⟩ | hb
    · obtain ⟨hb, hnot⟩ := List.mem_filter.mp hb
      exact ⟨HeapAccounts.mem_inUse.mpr (Or.inl hb), by simpa using hnot⟩
    · obtain ⟨hd, hnot⟩ := List.mem_filter.mp hd
      exact ⟨HeapAccounts.mem_inUse.mpr (Or.inr (Or.inl ⟨d, hd, rfl⟩)),
        by simpa using hnot⟩
    · obtain ⟨hb, hnot⟩ := List.mem_filter.mp hb
      exact ⟨HeapAccounts.mem_inUse.mpr (Or.inr (Or.inr hb)),
        by simpa using hnot⟩
  refine ⟨?_, ?_, ?_⟩
  · intro id page other hid hof
    obtain ⟨hold, hnot⟩ := Option.filter_eq_some_iff.mp hid
    have hne : other ≠ heap := by
      rintro rfl
      exact absurd hof (by simpa using hnot)
    show Function.update st.usedBytes heap none other ≠ none
    rw [Function.update_of_ne hne]
    exact h.alive id page other hold hof
  · intro b hb
    obtain ⟨hin, hnot⟩ := hkept hb
    obtain ⟨page, hpage⟩ := Option.ne_none_iff_exists'.mp (h.paged b hin)
    have hof : page.heap ≠ some heap := fun hof => hnot ⟨page, hpage, hof⟩
    show Option.filter _ (st.pages b.page) ≠ none
    rw [hpage, Option.filter_some, if_pos (by simpa using hof)]
    exact Option.some_ne_none _
  · intro other used hused
    have hused : Function.update st.usedBytes heap none other = some used :=
      hused
    by_cases heq : other = heap
    · subst heq
      rw [Function.update_self] at hused
      cases hused
    · rw [Function.update_of_ne heq] at hused
      have hpages : charges (st.heapDestroy heap).pages other
          (st.heapDestroy heap).inUse =
            charges st.pages other (st.heapDestroy heap).inUse := by
        refine charges_congr fun b hb => ?_
        obtain ⟨hin, hnot⟩ := hkept hb
        obtain ⟨page, hpage⟩ := Option.ne_none_iff_exists'.mp (h.paged b hin)
        have hof : page.heap ≠ some heap := fun hof => hnot ⟨page, hpage, hof⟩
        unfold charge HeapAccounts.heapDestroy
        dsimp only
        rw [hpage, Option.filter_some, if_pos (by simpa using hof)]
      have hzero : ∀ b : CountedBlock, ¬¬st.IsOf heap b →
          charge st.pages other b = 0 := by
        intro b hb
        obtain ⟨page, hpage, hof⟩ := not_not.mp hb
        apply charge_eq_zero
        intro page' hpage' hother
        rw [hpage] at hpage'
        cases hpage'
        rw [hof] at hother
        exact heq (Option.some.inj hother).symm
      have hmap : (st.delayed.filter fun d => ¬st.IsOf heap d.2).map Prod.snd =
          (st.delayed.map Prod.snd).filter fun b => ¬st.IsOf heap b := by
        rw [List.filter_map]
        rfl
      rw [hpages, h.exact other used hused, HeapAccounts.charges_inUse,
        HeapAccounts.charges_inUse]
      unfold HeapAccounts.heapDestroy
      dsimp only
      rw [hmap, charges_filter fun b _ => hzero b,
        charges_filter fun b _ => hzero b, charges_filter fun b _ => hzero b]

end ExactAccounts

theorem charge_collected {st : HeapAccounts} {id : ℕ}
    (h : (∀ b ∈ st.threadFree, b.page ≠ id) ∨
      ∀ page, st.pages id = some page → page.heap = none) :
    ∀ b ∈ st.threadFree, b.page = id → ∀ heap,
      charge st.pages heap b = 0 := by
  intro b hb hid heap
  rcases h with hnone | hheap
  · exact absurd hid (hnone b hb)
  · apply charge_eq_zero
    intro page hpage hof
    rw [hheap page (hid ▸ hpage)] at hof
    cases hof

theorem ExactAccounts.step {st st' : HeapAccounts} {op : AccountOp}
    (h : ExactAccounts st) (hstep : AccountStep st op st')
    (hexact : op.Exact st) : ExactAccounts st' := by
  cases hstep with
  | heapNew heap hnew =>
      refine ⟨?_, h.paged, ?_⟩
      · intro id page other hid hof
        have halive := h.alive id page other hid hof
        dsimp only
        have hne : other ≠ heap := fun heq => halive (heq ▸ hnew)
        rw [Function.update_of_ne hne]
        exact halive
      · intro other used hused
        dsimp only at hused
        by_cases heq : other = heap
        · subst heq
          rw [Function.update_self] at hused
          cases hused
          refine (charges_eq_zero fun b _ => charge_eq_zero ?_).symm
          intro page hpage hof
          exact h.alive b.page page other hpage hof hnew
        · rw [Function.update_of_ne heq] at hused
          exact h.exact other used hused
  | pageFresh id heap usable hid hheap =>
      apply h.setPage
      · intro b hb heq
        exact h.paged b hb (heq ▸ hid)
      · intro record other hrecord hof
        cases hrecord
        cases hof
        exact hheap
  | malloc b heap usable hpage hfits => exact h.malloc hpage hfits
  | freeLocal b hlive =>
      apply ExactAccounts.But.free
      refine h.leave rfl rfl ?_
      exact ((List.perm_cons_erase hlive).append_right _).append_right _
  | freeMt b hlive =>
      refine h.congr_inUse rfl rfl ?_
      have hmoved := ((List.perm_cons_erase hlive).append_right
        (st.delayed.map Prod.snd)).append_right st.threadFree
      exact hmoved.trans List.perm_middle.symm
  | freeDelayedMt b heap usable hlive hpage =>
      refine h.congr_inUse rfl rfl ?_
      have hmoved := (List.perm_cons_erase hlive).append_right
        (st.delayed.map Prod.snd)
      exact (hmoved.trans List.perm_middle.symm).append_right _
  | threadFreeCollect id => exact h.collect (charge_collected hexact)
  | delayedFree heap b hdelayed =>
      apply ExactAccounts.But.free
      refine (h.collect (charge_collected hexact)).leave rfl rfl ?_
      have hleaves := (List.perm_cons_erase hdelayed).map Prod.snd
      have hmoved := (hleaves.append_left st.live).trans List.perm_middle
      exact hmoved.append_right _
  | tryExtendSpan b page usable hlive hpage hlt =>
      obtain ⟨owner, old⟩ := page
      obtain rfl : owner = none := hexact _ hpage
      exact h.resize hpage usable
  | pageAppend id heap fromHeap usable hpage hheap =>
      apply h.setPage hexact
      intro record other hrecord hof
      cases hrecord
      cases hof
      exact hheap
  | pageAbandon id heap usable hpage =>
      apply h.setPage hexact
      intro record other hrecord hof
      cases hrecord
      cases hof
  | pageReclaim id heap usable hpage hheap =>
      apply h.setPage hexact
      intro record other hrecord hof
      cases hrecord
      cases hof
      exact hheap
  | pageFree id hfree =>
      apply h.setPage hfree
      intro record other hrecord
      cases hrecord
  | heapAbandon heap hdelayed => exact h.heapAbandon heap
  | heapDestroy heap => exact h.heapDestroy heap
  | heapFree heap hpages hdelayed => exact h.heapFree hpages

/-! ## The counter in a run -/

theorem AccountRun.exact {st : HeapAccounts} (hrun : AccountRun st) :
    ExactAccounts st := by
  induction hrun with
  | refl => exact ExactAccounts.start
  | tail _ hstep ih =>
      obtain ⟨op, hstep, hexact⟩ := hstep
      exact ih.step hstep hexact

/-- In a run that collects nothing from an `xthread_free` list, extends no
block in place and lets no page with blocks change its heap, the counter of a
heap is the size of its live blocks whenever all frees are collected, and no
free takes more from the counter than it holds. -/
theorem heap_bytes_exact {st : HeapAccounts} (hrun : AccountRun st) :
    (∀ heap used, st.usedBytes heap = some used → st.Collected heap →
      used = st.liveBytes heap) ∧
    ∀ b heap used usable, b ∈ st.inUse →
      st.pages b.page = some ⟨some heap, usable⟩ →
      st.usedBytes heap = some used → usable ≤ used := by
  have hexact := hrun.exact
  constructor
  · intro heap used hused hcollected
    rw [hexact.exact heap used hused, hcollected.charges]
  · intro b heap used usable hb hpage hused
    rw [hexact.exact heap used hused, charges_erase hb, charge_of hpage]
    exact Nat.le_add_right _ _

/-- A page of blocks of 16 bytes with one block in use. -/
def oneBlock : HeapAccounts :=
  (({ start with
      usedBytes := Function.update start.usedBytes 1 (some 0) }.setPage 7
    (some ⟨some 1, 16⟩)).finishAlloc 1 16 ⟨7, 64⟩)

/-- A block is given out. -/
theorem heap_bytes_exact_oneBlock : 16 = oneBlock.liveBytes 1 := by
  have hrun : AccountRun oneBlock :=
    ((Relation.ReflTransGen.single
      ⟨.heapNew 1, .heapNew 1 rfl, trivial⟩).tail
        ⟨.pageFresh 7 1 16, .pageFresh 7 1 16 rfl (by decide), trivial⟩).tail
          ⟨.malloc ⟨7, 64⟩, .malloc ⟨7, 64⟩ 1 16 rfl (by decide), trivial⟩
  exact (heap_bytes_exact hrun).1 1 16 rfl
    ⟨fun _ h => (List.not_mem_nil h).elim,
      fun _ h => (List.not_mem_nil h).elim⟩

/-- Another thread frees the block onto its page, and the owner collects it:
the counter stays. -/
theorem heap_bytes_leaked :
    ∃ st, Relation.ReflTransGen
        (fun st st' => ∃ op, AccountStep st op st') start st ∧
      st.Collected 1 ∧ st.usedBytes 1 = some 16 ∧ st.liveBytes 1 = 0 := by
  refine ⟨{ oneBlock with live := [], threadFree := [] }, ?_, ?_, rfl, rfl⟩
  · exact ((((Relation.ReflTransGen.single ⟨_, .heapNew 1 rfl⟩).tail
      ⟨_, .pageFresh 7 1 16 rfl (by decide)⟩).tail
        ⟨_, .malloc ⟨7, 64⟩ 1 16 rfl (by decide)⟩).tail
          ⟨_, .freeMt ⟨7, 64⟩ List.mem_cons_self⟩).tail
            ⟨_, .threadFreeCollect 7⟩
  · exact ⟨fun _ h => (List.not_mem_nil h).elim,
      fun _ h => (List.not_mem_nil h).elim⟩

end Palloc
