import Palloc.PageQueue
import Mathlib.Algebra.BigOperators.Group.Finset.Basic
import Mathlib.Algebra.Order.BigOperators.Group.Finset

/-!
# What the page queues agree on

The law has two index sets.  The heaps in `alive` are initialised, and all of
the law is about them.  The queues in `live` take part in the linked lists; a
heap that is being absorbed still has some of these, but its counter and its
direct pages no longer matter.

Every operation is a removal or an insertion of a page, or puts a whole queue
behind another one.
-/

namespace Palloc

open LinkedQueue

namespace PageQueues

/-- The direct pages of a heap are the first pages of its queues. -/
def DirectOk (st : PageQueues) (heap : ℕ) : Prop :=
  ∀ i ≤ smallWsizeMax, st.pagesFreeDirect heap i =
    directOf (st.pages (heap, bin (i * intptrSize))).first

def liveEnds (st : PageQueues) (live : ℕ × ℕ → Bool) (queue : ℕ × ℕ) :
    Ends ℕ :=
  if live queue then st.pages queue else Ends.empty

end PageQueues

def queuedPages (lists : ℕ × ℕ → List ℕ) (heap : ℕ) : ℕ :=
  ∑ b ∈ Finset.range (binFull + 1), (lists (heap, b)).length

structure QueueLaw (st : PageQueues) (alive : Finset ℕ)
    (live : ℕ × ℕ → Bool) (lists : ℕ × ℕ → List ℕ) : Prop where
  live_of_alive : ∀ queue : ℕ × ℕ, queue.1 ∈ alive → live queue = true
  family : IsFamily st.links (st.liveEnds live) lists
  served : ∀ queue, lists queue ≠ [] → ServedBin queue.2
  xheap : ∀ queue, ∀ page ∈ lists queue, st.xheap page = queue.1
  inFull : ∀ queue, ∀ page ∈ lists queue,
    (st.inFull page = true ↔ queue.2 = binFull)
  linked : ∀ page, st.inFull page = true → ∃ queue, page ∈ lists queue
  count : ∀ heap ∈ alive, st.pageCount heap = queuedPages lists heap
  direct : ∀ heap ∈ alive, st.DirectOk heap

/-! ## Direct pages -/

section FirstUpdate

variable (heap : ℕ) (queue : ℕ × ℕ) (st : PageQueues)

@[simp] theorem queueFirstUpdate_links :
    (st.queueFirstUpdate heap queue).links = st.links := by
  unfold PageQueues.queueFirstUpdate
  split
  · rfl
  · dsimp only
    split <;> rfl

@[simp] theorem queueFirstUpdate_inFull :
    (st.queueFirstUpdate heap queue).inFull = st.inFull := by
  unfold PageQueues.queueFirstUpdate
  split
  · rfl
  · dsimp only
    split <;> rfl

@[simp] theorem queueFirstUpdate_xheap :
    (st.queueFirstUpdate heap queue).xheap = st.xheap := by
  unfold PageQueues.queueFirstUpdate
  split
  · rfl
  · dsimp only
    split <;> rfl

@[simp] theorem queueFirstUpdate_pages :
    (st.queueFirstUpdate heap queue).pages = st.pages := by
  unfold PageQueues.queueFirstUpdate
  split
  · rfl
  · dsimp only
    split <;> rfl

@[simp] theorem queueFirstUpdate_pageCount :
    (st.queueFirstUpdate heap queue).pageCount = st.pageCount := by
  unfold PageQueues.queueFirstUpdate
  split
  · rfl
  · dsimp only
    split <;> rfl

variable {heap queue st}

theorem queueFirstUpdate_other {other : ℕ} (hne : other ≠ heap) :
    (st.queueFirstUpdate heap queue).pagesFreeDirect other =
      st.pagesFreeDirect other := by
  unfold PageQueues.queueFirstUpdate
  split
  · rfl
  · dsimp only
    split
    · rfl
    · exact Function.update_of_ne hne _ _

theorem DirectOk.queueFirstUpdate {b : ℕ} {st' : PageQueues}
    (h : st.DirectOk heap) (hb : ServedBin b)
    (hdirect : st'.pagesFreeDirect heap = st.pagesFreeDirect heap)
    (hpages : ∀ c, c ≠ b → st'.pages (heap, c) = st.pages (heap, c)) :
    (st'.queueFirstUpdate heap (heap, b)).DirectOk heap := by
  intro i hi
  rw [queueFirstUpdate_pages]
  unfold PageQueues.queueFirstUpdate
  split
  · rename_i hlarge
    have hbin : bin (i * intptrSize) ≠ b := bin_small_ne hb hlarge hi
    rw [hdirect, hpages _ hbin]
    exact h i hi
  rename_i hsmall
  have hrange := directRange_exact hb (not_lt.mp hsmall)
  have hmem := hrange.mem_iff i (Nat.lt_succ_of_le hi)
  dsimp only
  split
  · rename_i hset
    by_cases hbin : bin (i * intptrSize) = b
    · -- all entries of the queue were the same before
      have hsame : st.pagesFreeDirect heap i =
          st.pagesFreeDirect heap (directRange b).2 := by
        rw [h i hi, h _ hrange.last_le, hbin, hrange.last_bin]
      rw [hdirect] at hset ⊢
      rw [hsame, hset, hbin]
    · rw [hdirect, hpages _ hbin]
      exact h i hi
  · dsimp only
    rw [Function.update_self]
    by_cases hbin : bin (i * intptrSize) = b
    · rw [if_pos (hmem.mpr hbin), hbin]
    · rw [if_neg fun hin => hbin (hmem.mp hin), hdirect, hpages _ hbin]
      exact h i hi

theorem DirectOk.congr {st' : PageQueues} (h : st.DirectOk heap)
    (hdirect : st'.pagesFreeDirect heap = st.pagesFreeDirect heap)
    (hfirst : ∀ b, (st'.pages (heap, b)).first = (st.pages (heap, b)).first) :
    st'.DirectOk heap := by
  intro i hi
  rw [hdirect, hfirst]
  exact h i hi

end FirstUpdate

/-! ## Counting pages -/

theorem queuedPages_congr {lists lists' : ℕ × ℕ → List ℕ} {heap : ℕ}
    (heq : ∀ b, (lists' (heap, b)).length = (lists (heap, b)).length) :
    queuedPages lists' heap = queuedPages lists heap :=
  Finset.sum_congr rfl fun b _ => heq b

theorem queuedPages_update (lists : ℕ × ℕ → List ℕ) (heap : ℕ) {b : ℕ}
    (hb : b < binFull + 1) (l : List ℕ) :
    queuedPages (Function.update lists (heap, b) l) heap +
        (lists (heap, b)).length =
      queuedPages lists heap + l.length := by
  have hmem : b ∈ Finset.range (binFull + 1) := Finset.mem_range.mpr hb
  have hrest : ∑ c ∈ (Finset.range (binFull + 1)).erase b,
      (Function.update lists (heap, b) l (heap, c)).length =
      ∑ c ∈ (Finset.range (binFull + 1)).erase b,
        (lists (heap, c)).length := by
    apply Finset.sum_congr rfl
    intro c hc
    have hne : (heap, c) ≠ (heap, b) := by
      intro heq
      exact Finset.ne_of_mem_erase hc (Prod.mk.inj heq).2
    rw [Function.update_of_ne hne]
  unfold queuedPages
  rw [← Finset.sum_erase_add _ _ hmem, hrest,
    ← Finset.sum_erase_add (f := fun c => (lists (heap, c)).length) _ hmem,
    Function.update_self]
  omega

theorem queuedPages_update_other (lists : ℕ × ℕ → List ℕ)
    {heap : ℕ} {queue : ℕ × ℕ} (hne : heap ≠ queue.1) (l : List ℕ) :
    queuedPages (Function.update lists queue l) heap =
      queuedPages lists heap := by
  apply queuedPages_congr
  intro b
  rw [Function.update_of_ne]
  intro heq
  exact hne (congrArg Prod.fst heq)

/-! ## One queue changes -/

namespace QueueLaw

variable {st st' : PageQueues} {alive : Finset ℕ} {live : ℕ × ℕ → Bool}
  {lists : ℕ × ℕ → List ℕ} {heap b page : ℕ}

theorem liveEnds_eq (h : QueueLaw st alive live lists) (hheap : heap ∈ alive)
    (b : ℕ) : st.liveEnds live (heap, b) = st.pages (heap, b) :=
  if_pos (h.live_of_alive _ hheap)

theorem isQueue (h : QueueLaw st alive live lists) (hheap : heap ∈ alive)
    (b : ℕ) : IsQueue st.links (st.pages (heap, b)) (lists (heap, b)) := by
  have hqueue := h.family.queue (heap, b)
  rw [h.liveEnds_eq hheap] at hqueue
  exact hqueue

theorem liveEnds_update (hlive : live (heap, b) = true)
    (hpages : ∀ queue, queue ≠ (heap, b) →
      st'.pages queue = st.pages queue) :
    st'.liveEnds live = Function.update (st.liveEnds live) (heap, b)
      (st'.pages (heap, b)) := by
  funext queue
  by_cases hqueue : queue = (heap, b)
  · subst hqueue
    rw [Function.update_self]
    exact if_pos hlive
  · rw [Function.update_of_ne hqueue]
    unfold PageQueues.liveEnds
    rw [hpages queue hqueue]

/-- A change of one queue, with `page` the only page that comes or goes. -/
theorem changeQueue (h : QueueLaw st alive live lists) (hheap : heap ∈ alive)
    {l : List ℕ} (hb : ServedBin b)
    (hfamily : IsFamily st'.links (Function.update (st.liveEnds live) (heap, b)
      (st'.pages (heap, b))) (Function.update lists (heap, b) l))
    (hpages : ∀ queue, queue ≠ (heap, b) → st'.pages queue = st.pages queue)
    (hmem : ∀ other ∈ l, other = page ∨ other ∈ lists (heap, b))
    (hkeep : ∀ other ∈ lists (heap, b), other = page ∨ other ∈ l)
    (hout : ∀ queue, queue ≠ (heap, b) → page ∉ lists queue)
    (hxheap : ∀ other, other ≠ page → st'.xheap other = st.xheap other)
    (hinFull : ∀ other, other ≠ page → st'.inFull other = st.inFull other)
    (hpage : page ∈ l → st'.xheap page = heap ∧
      (st'.inFull page = true ↔ b = binFull))
    (hpageOut : page ∉ l → st'.inFull page = false)
    (hcount : st'.pageCount heap + (lists (heap, b)).length =
      st.pageCount heap + l.length)
    (hcountOther : ∀ other, other ≠ heap →
      st'.pageCount other = st.pageCount other)
    (hdirect : st'.DirectOk heap)
    (hdirectOther : ∀ other, other ≠ heap →
      st'.pagesFreeDirect other = st.pagesFreeDirect other) :
    QueueLaw st' alive live (Function.update lists (heap, b) l) := by
  constructor
  · exact h.live_of_alive
  · rw [liveEnds_update (h.live_of_alive _ hheap) hpages]
    exact hfamily
  · intro queue hne
    by_cases hqueue : queue = (heap, b)
    · rw [hqueue]
      exact hb
    · rw [Function.update_of_ne hqueue] at hne
      exact h.served queue hne
  · intro queue other hother
    by_cases hqueue : queue = (heap, b)
    · subst hqueue
      rw [Function.update_self] at hother
      by_cases hsame : other = page
      · subst hsame
        exact (hpage hother).1
      · rw [hxheap other hsame]
        rcases hmem other hother with heq | hold
        · exact absurd heq hsame
        · exact h.xheap _ other hold
    · rw [Function.update_of_ne hqueue] at hother
      have hne : other ≠ page := by
        rintro rfl
        exact hout queue hqueue hother
      rw [hxheap other hne]
      exact h.xheap queue other hother
  · intro queue other hother
    by_cases hqueue : queue = (heap, b)
    · subst hqueue
      rw [Function.update_self] at hother
      by_cases hsame : other = page
      · subst hsame
        exact (hpage hother).2
      · rw [hinFull other hsame]
        rcases hmem other hother with heq | hold
        · exact absurd heq hsame
        · exact h.inFull _ other hold
    · rw [Function.update_of_ne hqueue] at hother
      have hne : other ≠ page := by
        rintro rfl
        exact hout queue hqueue hother
      rw [hinFull other hne]
      exact h.inFull queue other hother
  · intro other hother
    by_cases hsame : other = page
    · subst hsame
      refine ⟨(heap, b), ?_⟩
      rw [Function.update_self]
      by_contra hnot
      rw [hpageOut hnot] at hother
      exact Bool.false_ne_true hother
    · rw [hinFull other hsame] at hother
      obtain ⟨queue, hold⟩ := h.linked other hother
      refine ⟨queue, ?_⟩
      by_cases hqueue : queue = (heap, b)
      · subst hqueue
        rw [Function.update_self]
        exact (hkeep other hold).resolve_left hsame
      · rw [Function.update_of_ne hqueue]
        exact hold
  · intro other hother
    by_cases hsame : other = heap
    · subst hsame
      have hsum := queuedPages_update lists other hb.cases.1 l
      have hold := h.count other hother
      omega
    · rw [hcountOther other hsame, queuedPages_update_other _ hsame]
      exact h.count other hother
  · intro other hother
    by_cases hsame : other = heap
    · rw [hsame]
      exact hdirect
    · apply DirectOk.congr (h.direct other hother)
        (hdirectOther other hsame)
      intro c
      rw [hpages]
      intro heq
      exact hsame (congrArg Prod.fst heq)

end QueueLaw

end Palloc
