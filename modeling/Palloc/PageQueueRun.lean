import Palloc.PageQueueSteps

/-!
# Runs of the page queue operations

A heap is initialised until it is absorbed by another heap or reset.  The
pages of an absorbed heap move queue by queue, so while the loop runs the
first queues of that heap no longer take part and the others still do.
-/

namespace Palloc

open LinkedQueue

/-! ## Absorbing a heap -/

/-- The loop over a queue visits the pages of its list. -/
theorem adoptPages_eq (heap : ℕ) {l : List ℕ} {links : Links ℕ}
    {before : Option ℕ} (hlinked : Linked links before l none) (fuel : ℕ)
    (st : PageQueues) (hlinks : st.links = links) :
    st.adoptPages heap fuel l.head? =
      if l.length ≤ fuel then
        some (l.length, { st with
          xheap := fun page => if page ∈ l then heap else st.xheap page })
      else none := by
  induction l generalizing before fuel st with
  | nil => simp [PageQueues.adoptPages]
  | cons page rest ih =>
      cases fuel with
      | zero => simp [PageQueues.adoptPages]
      | succ fuel =>
          have hnext : st.links.next page = rest.head? := by
            rw [hlinks, hlinked.2.1, Option.or_none]
          have hrest := ih hlinked.2.2 fuel
            { st with xheap := Function.update st.xheap page heap } hlinks
          have hxheap : (fun other => if other ∈ rest then heap else
              Function.update st.xheap page heap other) =
              fun other => if other ∈ page :: rest then heap else
                st.xheap other := by
            funext other
            by_cases hother : other = page
            · simp [hother]
            · simp [hother]
          rw [List.head?_cons, PageQueues.adoptPages, hnext, hrest]
          simp only [hxheap, List.length_cons, Nat.add_le_add_iff_right]
          split <;> rfl

section Absorb

variable {st st' : PageQueues} {alive : Finset ℕ} {live : ℕ × ℕ → Bool}
  {lists : ℕ × ℕ → List ℕ} {heap fromHeap : ℕ}

/-- The queues that take part when `k` queues of `fromHeap` have moved. -/
def absorbLive (alive : Finset ℕ) (fromHeap k : ℕ) (queue : ℕ × ℕ) : Bool :=
  queue.1 ∈ alive ∨ (queue.1 = fromHeap ∧ k ≤ queue.2)

/-- The lists when the pages of the `k`th queue have moved. -/
def absorbLists (lists : ℕ × ℕ → List ℕ) (heap fromHeap k : ℕ) :
    ℕ × ℕ → List ℕ :=
  Function.update (Function.update lists (fromHeap, k) []) (heap, k)
    (lists (heap, k) ++ lists (fromHeap, k))

theorem absorbLive_self (alive : Finset ℕ) (fromHeap k : ℕ) :
    absorbLive alive fromHeap k (fromHeap, k) = true := by
  simp [absorbLive]

theorem absorbLive_succ {k : ℕ} {queue : ℕ × ℕ}
    (hne : queue ≠ (fromHeap, k)) :
    absorbLive alive fromHeap (k + 1) queue =
      absorbLive alive fromHeap k queue := by
  unfold absorbLive
  rw [decide_eq_decide]
  have hbin : queue.1 = fromHeap → queue.2 ≠ k := by
    intro hheap heq
    exact hne (Prod.ext hheap heq)
  constructor
  · rintro (hmem | ⟨hheap, hle⟩)
    · exact Or.inl hmem
    · exact Or.inr ⟨hheap, by omega⟩
  · rintro (hmem | ⟨hheap, hle⟩)
    · exact Or.inl hmem
    · have hlt := hbin hheap
      exact Or.inr ⟨hheap, by omega⟩

theorem absorbLive_succ_self {k : ℕ} (hfrom : fromHeap ∉ alive) :
    absorbLive alive fromHeap (k + 1) (fromHeap, k) = false := by
  simp [absorbLive, hfrom]

theorem absorbLists_mem {k page : ℕ} {queue : ℕ × ℕ}
    (hne : queue ≠ (heap, k))
    (hpage : page ∈ absorbLists lists heap fromHeap k queue) :
    queue ≠ (fromHeap, k) ∧ page ∈ lists queue := by
  unfold absorbLists at hpage
  rw [Function.update_of_ne hne] at hpage
  by_cases hqueue : queue = (fromHeap, k)
  · rw [hqueue, Function.update_self] at hpage
    exact absurd hpage List.not_mem_nil
  · rw [Function.update_of_ne hqueue] at hpage
    exact ⟨hqueue, hpage⟩

theorem absorbLists_bin {k page : ℕ} {queue : ℕ × ℕ}
    (hpage : page ∈ absorbLists lists heap fromHeap k queue) :
    ∃ other, page ∈ lists (other, queue.2) := by
  by_cases hqueue : queue = (heap, k)
  · subst hqueue
    unfold absorbLists at hpage
    rw [Function.update_self] at hpage
    rcases List.mem_append.mp hpage with hmem | hmem
    · exact ⟨heap, hmem⟩
    · exact ⟨fromHeap, hmem⟩
  · exact ⟨queue.1, (absorbLists_mem hqueue hpage).2⟩

namespace QueueLaw

theorem isQueue_of_live (h : QueueLaw st alive live lists) {queue : ℕ × ℕ}
    (hlive : live queue = true) :
    IsQueue st.links (st.pages queue) (lists queue) := by
  have hqueue := h.family.queue queue
  unfold PageQueues.liveEnds at hqueue
  rw [if_pos hlive] at hqueue
  exact hqueue

/-- The pages of one queue move to the same queue of another heap. -/
theorem moveQueue {k : ℕ}
    (h : QueueLaw st alive (absorbLive alive fromHeap k) lists)
    (hheap : heap ∈ alive) (hfrom : fromHeap ∉ alive)
    (hk : k < binFull + 1)
    (hfamily : IsFamily st'.links
      (Function.update (Function.update
        (st.liveEnds (absorbLive alive fromHeap k)) (fromHeap, k) Ends.empty)
        (heap, k) (st'.pages (heap, k)))
      (absorbLists lists heap fromHeap k))
    (hpages : ∀ queue, queue ≠ (heap, k) → st'.pages queue = st.pages queue)
    (hxheap : ∀ page, st'.xheap page =
      if page ∈ lists (fromHeap, k) then heap else st.xheap page)
    (hinFull : st'.inFull = st.inFull)
    (hcount : st'.pageCount heap =
      st.pageCount heap + (lists (fromHeap, k)).length)
    (hcountOther : ∀ other ∈ alive, other ≠ heap →
      st'.pageCount other = st.pageCount other)
    (hdirect : st'.DirectOk heap)
    (hdirectOther : ∀ other, other ≠ heap →
      st'.pagesFreeDirect other = st.pagesFreeDirect other) :
    QueueLaw st' alive (absorbLive alive fromHeap (k + 1))
      (absorbLists lists heap fromHeap k) := by
  have hne : (heap, k) ≠ (fromHeap, k) := by
    intro heq
    exact hfrom ((Prod.mk.inj heq).1 ▸ hheap)
  have hmoved : ∀ page ∈ absorbLists lists heap fromHeap k (heap, k),
      page ∈ lists (heap, k) ∨ page ∈ lists (fromHeap, k) := by
    intro page hpage
    unfold absorbLists at hpage
    rw [Function.update_self] at hpage
    exact List.mem_append.mp hpage
  constructor
  · intro queue hqueue
    simp [absorbLive, hqueue]
  · have hends : st'.liveEnds (absorbLive alive fromHeap (k + 1)) =
        Function.update (Function.update
          (st.liveEnds (absorbLive alive fromHeap k)) (fromHeap, k)
          Ends.empty) (heap, k) (st'.pages (heap, k)) := by
      funext queue
      by_cases hqueue : queue = (heap, k)
      · rw [hqueue, Function.update_self]
        exact if_pos (by simp [absorbLive, hheap])
      rw [Function.update_of_ne hqueue]
      by_cases hfromQueue : queue = (fromHeap, k)
      · rw [hfromQueue, Function.update_self]
        unfold PageQueues.liveEnds
        rw [absorbLive_succ_self hfrom]
        rfl
      · rw [Function.update_of_ne hfromQueue]
        unfold PageQueues.liveEnds
        rw [absorbLive_succ hfromQueue, hpages queue hqueue]
    rw [hends]
    exact hfamily
  · intro queue hlist
    obtain ⟨page, hpage⟩ := List.exists_mem_of_ne_nil _ hlist
    by_cases hqueue : queue = (heap, k)
    · subst hqueue
      rcases hmoved page hpage with hold | hnew
      · exact h.served _ (List.ne_nil_of_mem hold)
      · exact h.served (fromHeap, k) (List.ne_nil_of_mem hnew)
    · have hold := (absorbLists_mem hqueue hpage).2
      exact h.served _ (List.ne_nil_of_mem hold)
  · intro queue page hpage
    rw [hxheap]
    by_cases hqueue : queue = (heap, k)
    · subst hqueue
      split
      · rfl
      · rename_i hnot
        rcases hmoved page hpage with hold | hnew
        · exact h.xheap _ page hold
        · exact absurd hnew hnot
    · obtain ⟨hfromQueue, hold⟩ := absorbLists_mem hqueue hpage
      rw [if_neg]
      · exact h.xheap _ page hold
      · intro hmem
        exact hfromQueue (h.family.disjoint _ _ page hold hmem)
  · intro queue page hpage
    rw [hinFull]
    by_cases hqueue : queue = (heap, k)
    · subst hqueue
      rcases hmoved page hpage with hold | hnew
      · exact h.inFull _ page hold
      · exact h.inFull (fromHeap, k) page hnew
    · exact h.inFull _ page (absorbLists_mem hqueue hpage).2
  · intro page hpage
    rw [hinFull] at hpage
    obtain ⟨queue, hold⟩ := h.linked page hpage
    by_cases hqueue : queue = (heap, k) ∨ queue = (fromHeap, k)
    · refine ⟨(heap, k), ?_⟩
      unfold absorbLists
      rw [Function.update_self, List.mem_append]
      rcases hqueue with rfl | rfl
      · exact Or.inl hold
      · exact Or.inr hold
    · rw [not_or] at hqueue
      refine ⟨queue, ?_⟩
      unfold absorbLists
      rw [Function.update_of_ne hqueue.1, Function.update_of_ne hqueue.2]
      exact hold
  · intro other hother
    have hfromOther : other ≠ fromHeap := by
      rintro rfl
      exact hfrom hother
    by_cases hsame : other = heap
    · subst hsame
      have hsum := queuedPages_update
        (Function.update lists (fromHeap, k) []) other hk
        (lists (other, k) ++ lists (fromHeap, k))
      have hother' := @queuedPages_update_other lists other (fromHeap, k)
        hfromOther []
      rw [Function.update_of_ne hne, List.length_append, hother'] at hsum
      have hold := h.count other hother
      unfold absorbLists
      omega
    · rw [hcountOther other hother hsame, h.count other hother]
      unfold absorbLists
      rw [queuedPages_update_other _ hsame,
        queuedPages_update_other _ hfromOther]
  · intro other hother
    by_cases hsame : other = heap
    · rw [hsame]
      exact hdirect
    · apply DirectOk.congr (h.direct other hother)
        (hdirectOther other hsame)
      intro c
      rw [hpages]
      intro heq
      exact hsame (congrArg Prod.fst heq)

/-- One turn of the loop of `pa_heap_absorb`. -/
theorem absorbStep {k fuel : ℕ}
    (h : QueueLaw st alive (absorbLive alive fromHeap k) lists)
    (hheap : heap ∈ alive) (hfrom : fromHeap ∉ alive)
    (hk : k < binFull + 1)
    (hfuel : (lists (fromHeap, k)).length ≤ fuel) :
    ∃ result,
      st.pageQueueAppend fuel heap (heap, k) (fromHeap, k) = some result ∧
      ∀ n, QueueLaw
        { result.2 with
          pageCount := Function.update (Function.update result.2.pageCount
            heap (result.2.pageCount heap + result.1)) fromHeap n }
        alive (absorbLive alive fromHeap (k + 1))
        (absorbLists lists heap fromHeap k) := by
  have hne : heap ≠ fromHeap := by
    rintro rfl
    exact hfrom hheap
  have hneQueue : (heap, k) ≠ (fromHeap, k) := fun heq =>
    hne (Prod.mk.inj heq).1
  have hqueue := h.isQueue hheap k
  have hfromQueue := h.isQueue_of_live (absorbLive_self alive fromHeap k)
  have hheapEnds := h.liveEnds_eq hheap k
  have hfromEnds : st.liveEnds (absorbLive alive fromHeap k) (fromHeap, k) =
      st.pages (fromHeap, k) :=
    if_pos (absorbLive_self alive fromHeap k)
  have hcountOther : ∀ (st' : PageQueues) {other count n : ℕ}, other ∈ alive →
      other ≠ heap → Function.update (Function.update st'.pageCount heap count)
        fromHeap n other = st'.pageCount other := by
    intro st' other count n hother hsame
    rw [Function.update_of_ne, Function.update_of_ne hsame]
    rintro rfl
    exact hfrom hother
  have hadopt := adoptPages_eq heap hfromQueue.linked fuel st rfl
  rw [← hfromQueue.first, if_pos hfuel] at hadopt
  by_cases hempty : lists (fromHeap, k) = []
  · have hfirst : (st.pages (fromHeap, k)).first = none := by
      rw [hfromQueue.first, hempty]
      rfl
    have hends : st.pages (fromHeap, k) = Ends.empty := by
      rw [hempty] at hfromQueue
      exact Ends.ext hfromQueue.first hfromQueue.last
    have hsame : absorbLists lists heap fromHeap k = lists := by
      unfold absorbLists
      rw [hempty, List.append_nil, ← hempty, Function.update_eq_self,
        Function.update_eq_self]
    refine ⟨(0, st), if_pos hfirst, ?_⟩
    intro n
    apply h.moveQueue hheap hfrom hk
    · rw [hsame, ← hends, ← hfromEnds, Function.update_eq_self]
      dsimp only
      rw [← hheapEnds, Function.update_eq_self]
      exact h.family
    · exact fun _ _ => rfl
    · intro page
      rw [hempty, if_neg List.not_mem_nil]
    · rfl
    · rw [hempty]
      dsimp only
      rw [Function.update_of_ne hne, Function.update_self]
      rfl
    · intro other hother hsame
      exact hcountOther st hother hsame
    · exact h.direct heap hheap
    · exact fun _ _ => rfl
  · have hfirst : (st.pages (fromHeap, k)).first ≠ none := by
      rw [hfromQueue.first]
      intro heq
      exact hempty (List.head?_eq_none_iff.mp heq)
    unfold PageQueues.pageQueueAppend
    rw [if_neg hfirst, hadopt]
    dsimp only [Option.map_some]
    by_cases hlast : (st.pages (heap, k)).last = none
    · -- take over afresh
      rw [if_pos hlast]
      refine ⟨_, rfl, ?_⟩
      intro n
      have hheapEmpty : lists (heap, k) = [] := by
        apply List.getLast?_eq_none_iff.mp
        rw [← hqueue.last]
        exact hlast
      have hfamily := h.family.takeOver (heap, k) (fromHeap, k)
      rw [hfromEnds] at hfamily
      apply h.moveQueue hheap hfrom hk
      · unfold absorbLists
        rw [hheapEmpty, List.nil_append]
        simpa using hfamily
      · intro queue hqueue
        simp [Function.update_of_ne hqueue]
      · intro page
        simp
      · simp
      · simp [Function.update_of_ne hne]
      · intro other hother hsame
        simpa using hcountOther st hother hsame
      · apply DirectOk.directAfter True (h.direct heap hheap)
          (h.served _ hempty)
        · dsimp only
          rw [queueFirstUpdate_pages]
          apply congrFun (queueFirstUpdate_direct trivial _ _ _ _) heap
          rfl
        · intro c hc
          simp [hc]
        · exact fun hfalse => absurd trivial hfalse
      · intro other hsame
        exact queueFirstUpdate_other hsame
    · rw [if_neg hlast]
      refine ⟨_, rfl, ?_⟩
      intro n
      have hheapList : lists (heap, k) ≠ [] := by
        intro heq
        apply hlast
        rw [hqueue.last, heq]
        rfl
      have hfamily := h.family.append hneQueue hheapList hempty
      rw [hfromEnds, hheapEnds] at hfamily
      apply h.moveQueue hheap hfrom hk
      · unfold absorbLists
        simpa using hfamily
      · intro queue hqueue
        simp [Function.update_of_ne hqueue]
      · intro page
        rfl
      · rfl
      · simp [Function.update_of_ne hne]
      · intro other hother hsame
        simpa using hcountOther st hother hsame
      · apply DirectOk.directAfter False (h.direct heap hheap)
          (h.served _ hempty)
        · rfl
        · intro c hc
          simp [hc]
        · intro _
          simp
      · exact fun _ _ => rfl

theorem pageQueueAppend_none {k fuel : ℕ} {queue : ℕ × ℕ}
    (h : QueueLaw st alive (absorbLive alive fromHeap k) lists)
    (hfuel : fuel < (lists (fromHeap, k)).length) :
    st.pageQueueAppend fuel heap queue (fromHeap, k) = none := by
  have hfromQueue := h.isQueue_of_live (absorbLive_self alive fromHeap k)
  have hadopt := adoptPages_eq heap hfromQueue.linked fuel st rfl
  rw [← hfromQueue.first, if_neg (not_le.mpr hfuel)] at hadopt
  have hfirst : (st.pages (fromHeap, k)).first ≠ none := by
    rw [hfromQueue.first]
    intro heq
    rw [List.head?_eq_none_iff.mp heq] at hfuel
    exact Nat.not_lt_zero _ hfuel
  unfold PageQueues.pageQueueAppend
  rw [if_neg hfirst, hadopt]
  rfl

/-- The law holds for the absorbing heap in every turn of the loop. -/
theorem absorbQueues {k fuel : ℕ}
    (h : QueueLaw st alive (absorbLive alive fromHeap 0) lists)
    (hheap : heap ∈ alive) (hfrom : fromHeap ∉ alive)
    (hk : k ≤ binFull + 1)
    (hst' : st.absorbQueues fuel heap fromHeap k = some st') :
    ∃ lists', QueueLaw st' alive (absorbLive alive fromHeap k) lists' ∧
      (∀ c, k ≤ c → lists' (fromHeap, c) = lists (fromHeap, c)) ∧
      ∀ queue, ∀ page ∈ lists' queue,
        ∃ other, page ∈ lists (other, queue.2) := by
  have hne : fromHeap ≠ heap := by
    rintro rfl
    exact hfrom hheap
  induction k generalizing st' with
  | zero =>
      rw [PageQueues.absorbQueues, Option.some.injEq] at hst'
      subst hst'
      exact ⟨lists, h, fun _ _ => rfl, fun queue _ hpage => ⟨queue.1, hpage⟩⟩
  | succ k ih =>
      rw [PageQueues.absorbQueues, Option.bind_eq_some_iff] at hst'
      obtain ⟨st₁, hst₁, hstep⟩ := hst'
      obtain ⟨lists₁, hlaw, hsame, hbin⟩ := ih (by omega) hst₁
      have hfuel : (lists₁ (fromHeap, k)).length ≤ fuel := by
        by_contra hlt
        rw [hlaw.pageQueueAppend_none (not_le.mp hlt)] at hstep
        simp at hstep
      obtain ⟨result, hresult, hafter⟩ :=
        hlaw.absorbStep hheap hfrom (by omega) hfuel
      rw [hresult, Option.map_some, Option.some.injEq] at hstep
      subst hstep
      refine ⟨_, hafter _, ?_, ?_⟩
      · intro c hc
        unfold absorbLists
        have hneHeap : (fromHeap, c) ≠ (heap, k) := fun heq =>
          hne (Prod.mk.inj heq).1
        have hneFrom : (fromHeap, c) ≠ (fromHeap, k) := fun heq => by
          have hck := (Prod.mk.inj heq).2
          omega
        rw [Function.update_of_ne hneHeap, Function.update_of_ne hneFrom]
        exact hsame c (by omega)
      · intro queue page hpage
        obtain ⟨other, hmem⟩ := absorbLists_bin hpage
        exact hbin (other, queue.2) page hmem

/-- The loop returns. -/
theorem absorbQueues_returns {fuel : ℕ}
    (h : QueueLaw st alive (absorbLive alive fromHeap 0) lists)
    (hheap : heap ∈ alive) (hfrom : fromHeap ∉ alive)
    (hfuel : ∀ c, (lists (fromHeap, c)).length ≤ fuel) {k : ℕ}
    (hk : k ≤ binFull + 1) :
    ∃ st', st.absorbQueues fuel heap fromHeap k = some st' := by
  induction k with
  | zero => exact ⟨st, rfl⟩
  | succ k ih =>
      obtain ⟨st₁, hst₁⟩ := ih (by omega)
      obtain ⟨lists₁, hlaw, hsame, -⟩ :=
        h.absorbQueues hheap hfrom (by omega) hst₁
      have hlength : (lists₁ (fromHeap, k)).length ≤ fuel := by
        rw [hsame k le_rfl]
        exact hfuel k
      obtain ⟨result, hresult, -⟩ :=
        hlaw.absorbStep hheap hfrom (by omega) hlength
      rw [PageQueues.absorbQueues, hst₁, Option.bind_some, hresult]
      exact ⟨_, rfl⟩

end QueueLaw

end Absorb

/-! ## Runs -/

def PageQueues.InQueue (st : PageQueues) (queue : ℕ × ℕ) (page : ℕ) : Prop :=
  ∃ l, IsQueue st.links (st.pages queue) l ∧ page ∈ l

/-- A page is linked into a queue of an initialised heap. -/
def PageQueues.Queued (st : PageQueues) (alive : Finset ℕ) (page : ℕ) : Prop :=
  ∃ queue : ℕ × ℕ, queue.1 ∈ alive ∧ st.InQueue queue page

/-- What the rest of the allocator leaves alone: the queue fields of the
initialised heaps and of the pages in their queues.  Other pages are allocated,
cleared and freed; none of these has its full flag set. -/
structure SameQueues (alive : Finset ℕ) (st st' : PageQueues) : Prop where
  pages : ∀ queue : ℕ × ℕ, queue.1 ∈ alive → st'.pages queue = st.pages queue
  direct : ∀ heap ∈ alive,
    st'.pagesFreeDirect heap = st.pagesFreeDirect heap
  count : ∀ heap ∈ alive, st'.pageCount heap = st.pageCount heap
  next : ∀ page, st.Queued alive page →
    st'.links.next page = st.links.next page
  prev : ∀ page, st.Queued alive page →
    st'.links.prev page = st.links.prev page
  xheap : ∀ page, st.Queued alive page → st'.xheap page = st.xheap page
  inFull : ∀ page, st.Queued alive page → st'.inFull page = st.inFull page
  cleared : ∀ page, ¬st.Queued alive page → st'.inFull page = false

/-- Runs of the queue operations on all heaps.  A heap that is absorbed or
destroyed is no longer initialised. -/
inductive QueueRun : PageQueues → Finset ℕ → Prop where
  | start {st : PageQueues} (hfull : ∀ page, st.inFull page = false) :
      QueueRun st ∅
  | init {st : PageQueues} {alive : Finset ℕ} {heap : ℕ}
      (hrun : QueueRun st alive) (hheap : heap ∉ alive) :
      QueueRun (st.initHeap heap) (insert heap alive)
  | other {st st' : PageQueues} {alive alive' : Finset ℕ}
      (hrun : QueueRun st alive) (hsub : alive' ⊆ alive)
      (hsame : SameQueues alive' st st') : QueueRun st' alive'
  | push {st : PageQueues} {alive : Finset ℕ} {heap b page : ℕ}
      (hrun : QueueRun st alive) (hheap : heap ∈ alive)
      (hb : ServedBin b) (hxheap : st.xheap page = heap)
      (hpage : ¬st.Queued alive page) :
      QueueRun (st.pageQueuePush heap (heap, b) page) alive
  | remove {st : PageQueues} {alive : Finset ℕ} {heap b page : ℕ}
      (hrun : QueueRun st alive) (hheap : heap ∈ alive)
      (hpage : st.InQueue (heap, b) page) :
      QueueRun (st.pageQueueRemove (heap, b) page) alive
  | moveToFront {st : PageQueues} {alive : Finset ℕ} {heap b page : ℕ}
      (hrun : QueueRun st alive) (hheap : heap ∈ alive)
      (hpage : st.InQueue (heap, b) page) :
      QueueRun (st.pageQueueMoveToFront heap (heap, b) page) alive
  | enqueueFrom {st : PageQueues} {alive : Finset ℕ} {heap b c page : ℕ}
      {enqueueAtEnd : Bool} (hrun : QueueRun st alive) (hheap : heap ∈ alive)
      (hb : ServedBin b) (hpage : st.InQueue (heap, c) page) :
      QueueRun
        (st.pageQueueEnqueueFromEx (heap, b) (heap, c) enqueueAtEnd page) alive
  | absorb {st st' : PageQueues} {alive : Finset ℕ} {heap fromHeap fuel : ℕ}
      (hrun : QueueRun st alive) (hheap : heap ∈ alive)
      (hfrom : fromHeap ∈ alive) (hne : heap ≠ fromHeap)
      (hst' : st.absorbQueues fuel heap fromHeap (binFull + 1) = some st') :
      QueueRun st' (alive.erase fromHeap)
  | reset {st : PageQueues} {alive : Finset ℕ} {heap : ℕ}
      (hrun : QueueRun st alive) (hheap : heap ∉ alive) :
      QueueRun (st.resetPages heap) alive

section Run

variable {st st' : PageQueues} {alive : Finset ℕ}
  {lists : ℕ × ℕ → List ℕ} {heap b page : ℕ}

/-- Between operations the queues of the initialised heaps take part. -/
def aliveQueues (alive : Finset ℕ) (queue : ℕ × ℕ) : Bool := queue.1 ∈ alive

theorem aliveQueues_eq_true {queue : ℕ × ℕ} :
    aliveQueues alive queue = true ↔ queue.1 ∈ alive :=
  decide_eq_true_iff

namespace QueueLaw

theorem lists_eq_nil {live : ℕ × ℕ → Bool}
    (h : QueueLaw st alive live lists) {queue : ℕ × ℕ}
    (hlive : live queue = false) : lists queue = [] := by
  have hfirst := (h.family.queue queue).first
  unfold PageQueues.liveEnds at hfirst
  rw [hlive] at hfirst
  exact List.head?_eq_none_iff.mp hfirst.symm

theorem inQueue_iff (h : QueueLaw st alive (aliveQueues alive) lists)
    {queue : ℕ × ℕ} (hqueue : queue.1 ∈ alive) :
    st.InQueue queue page ↔ page ∈ lists queue := by
  have hlist := h.isQueue_of_live (aliveQueues_eq_true.mpr hqueue)
  constructor
  · rintro ⟨l, hl, hmem⟩
    rw [hlist.unique hl]
    exact hmem
  · intro hmem
    exact ⟨_, hlist, hmem⟩

theorem queued_iff {alive' : Finset ℕ}
    (h : QueueLaw st alive (aliveQueues alive) lists) (hsub : alive' ⊆ alive) :
    st.Queued alive' page ↔
      ∃ queue : ℕ × ℕ, queue.1 ∈ alive' ∧ page ∈ lists queue := by
  constructor
  · rintro ⟨queue, hqueue, hmem⟩
    exact ⟨queue, hqueue, (h.inQueue_iff (hsub hqueue)).mp hmem⟩
  · rintro ⟨queue, hqueue, hmem⟩
    exact ⟨queue, hqueue, (h.inQueue_iff (hsub hqueue)).mpr hmem⟩

theorem not_mem_of_not_queued
    (h : QueueLaw st alive (aliveQueues alive) lists)
    (hpage : ¬st.Queued alive page) (queue : ℕ × ℕ) :
    page ∉ lists queue := by
  intro hmem
  by_cases hqueue : queue.1 ∈ alive
  · exact hpage ((h.queued_iff subset_rfl).mpr ⟨queue, hqueue, hmem⟩)
  · have hnil : lists queue = [] :=
      h.lists_eq_nil (decide_eq_false hqueue)
    rw [hnil] at hmem
    exact List.not_mem_nil hmem

theorem other {alive' : Finset ℕ}
    (h : QueueLaw st alive (aliveQueues alive) lists) (hsub : alive' ⊆ alive)
    (hsame : SameQueues alive' st st') :
    QueueLaw st' alive' (aliveQueues alive')
      (fun queue => if queue.1 ∈ alive' then lists queue else []) := by
  have hmem : ∀ {queue : ℕ × ℕ} {page : ℕ},
      page ∈ (if queue.1 ∈ alive' then lists queue else []) →
        queue.1 ∈ alive' ∧ page ∈ lists queue := by
    intro queue page hpage
    split at hpage
    · rename_i hqueue
      exact ⟨hqueue, hpage⟩
    · exact absurd hpage List.not_mem_nil
  have hqueued : ∀ {queue : ℕ × ℕ} {page : ℕ}, queue.1 ∈ alive' →
      page ∈ lists queue → st.Queued alive' page := by
    intro queue page hqueue hpage
    exact (h.queued_iff hsub).mpr ⟨queue, hqueue, hpage⟩
  constructor
  · intro queue hqueue
    exact aliveQueues_eq_true.mpr hqueue
  · constructor
    · intro queue
      unfold PageQueues.liveEnds
      by_cases hqueue : queue.1 ∈ alive'
      · have hlist := h.isQueue_of_live
          (aliveQueues_eq_true.mpr (hsub hqueue))
        rw [if_pos (aliveQueues_eq_true.mpr hqueue), if_pos hqueue,
          hsame.pages queue hqueue]
        apply hlist.congr
        · intro page hpage
          exact hsame.next page (hqueued hqueue hpage)
        · intro page hpage
          exact hsame.prev page (hqueued hqueue hpage)
      · have hnot : aliveQueues alive' queue ≠ true :=
          fun hlive => hqueue (aliveQueues_eq_true.mp hlive)
        rw [if_neg hnot, if_neg hqueue]
        exact IsQueue.nil _
    · intro queue queue' page hpage hpage'
      exact h.family.disjoint _ _ page (hmem hpage).2 (hmem hpage').2
  · intro queue hne
    apply h.served
    split at hne
    · exact hne
    · exact absurd rfl hne
  · intro queue page hpage
    obtain ⟨hqueue, hold⟩ := hmem hpage
    rw [hsame.xheap page (hqueued hqueue hold)]
    exact h.xheap _ page hold
  · intro queue page hpage
    obtain ⟨hqueue, hold⟩ := hmem hpage
    rw [hsame.inFull page (hqueued hqueue hold)]
    exact h.inFull _ page hold
  · intro page hpage
    by_cases hlinked : st.Queued alive' page
    · obtain ⟨queue, hqueue, hold⟩ := (h.queued_iff hsub).mp hlinked
      refine ⟨queue, ?_⟩
      rw [if_pos hqueue]
      exact hold
    · rw [hsame.cleared page hlinked] at hpage
      exact absurd hpage Bool.false_ne_true
  · intro heap hheap
    rw [hsame.count heap hheap, h.count heap (hsub hheap)]
    apply queuedPages_congr
    intro b
    rw [if_pos hheap]
  · intro heap hheap
    apply DirectOk.congr (h.direct heap (hsub hheap))
      (hsame.direct heap hheap)
    intro b
    rw [hsame.pages (heap, b) hheap]

/-- Queues without pages may leave, and heaps may stop being initialised. -/
theorem changeLive {alive' : Finset ℕ} {live live' : ℕ × ℕ → Bool}
    (h : QueueLaw st alive live lists) (hsub : alive' ⊆ alive)
    (hlive : ∀ queue : ℕ × ℕ, queue.1 ∈ alive' → live' queue = true)
    (hsame : ∀ queue, live' queue = live queue ∨
      live' queue = false ∧ lists queue = []) :
    QueueLaw st alive' live' lists where
  live_of_alive := hlive
  family := by
    refine ⟨?_, h.family.disjoint⟩
    intro queue
    have hqueue := h.family.queue queue
    unfold PageQueues.liveEnds at hqueue ⊢
    rcases hsame queue with heq | ⟨hfalse, hnil⟩
    · rw [heq]
      exact hqueue
    · rw [hfalse, hnil]
      exact IsQueue.nil _
  served := h.served
  xheap := h.xheap
  inFull := h.inFull
  linked := h.linked
  count heap hheap := h.count heap (hsub hheap)
  direct heap hheap := h.direct heap (hsub hheap)

theorem absorb_start {fromHeap : ℕ}
    (h : QueueLaw st alive (aliveQueues alive) lists)
    (hfrom : fromHeap ∈ alive) :
    QueueLaw st (alive.erase fromHeap)
      (absorbLive (alive.erase fromHeap) fromHeap 0) lists := by
  apply h.changeLive (Finset.erase_subset fromHeap alive)
  · intro queue hqueue
    exact decide_eq_true (Or.inl hqueue)
  · intro queue
    left
    by_cases hqueue : queue.1 = fromHeap
    · simp [absorbLive, aliveQueues, hqueue, hfrom]
    · simp [absorbLive, aliveQueues, hqueue]

theorem absorb {fromHeap fuel : ℕ}
    (h : QueueLaw st alive (aliveQueues alive) lists) (hheap : heap ∈ alive)
    (hfrom : fromHeap ∈ alive) (hne : heap ≠ fromHeap)
    (hst' : st.absorbQueues fuel heap fromHeap (binFull + 1) = some st') :
    ∃ lists', QueueLaw st' (alive.erase fromHeap)
      (aliveQueues (alive.erase fromHeap)) lists' ∧
      ∀ queue, ∀ page ∈ lists' queue,
        ∃ other, page ∈ lists (other, queue.2) := by
  have hheap' : heap ∈ alive.erase fromHeap :=
    Finset.mem_erase.mpr ⟨hne, hheap⟩
  have hstart := h.absorb_start hfrom
  obtain ⟨lists', hlaw, -, hbin⟩ := hstart.absorbQueues hheap'
    (Finset.notMem_erase fromHeap alive) le_rfl hst'
  refine ⟨lists', hlaw.changeLive subset_rfl
    (fun queue => aliveQueues_eq_true.mpr) ?_, hbin⟩
  intro queue
  by_cases hqueue : queue.1 = fromHeap ∧ binFull + 1 ≤ queue.2
  · -- no page has a bin of this queue
    right
    refine ⟨?_, ?_⟩
    · exact decide_eq_false (by simp [hqueue.1])
    · by_contra hlist
      have hbin := (hlaw.served queue hlist).cases.1
      omega
  · left
    unfold aliveQueues absorbLive
    apply decide_eq_decide.mpr
    constructor
    · exact Or.inl
    · intro hlive
      exact hlive.resolve_right hqueue

theorem initHeap (h : QueueLaw st alive (aliveQueues alive) lists)
    (hheap : heap ∉ alive) :
    QueueLaw (st.initHeap heap) (insert heap alive)
      (aliveQueues (insert heap alive)) lists := by
  have hnil : ∀ b, lists (heap, b) = [] := fun b =>
    h.lists_eq_nil (decide_eq_false hheap)
  have hends : (st.initHeap heap).liveEnds (aliveQueues (insert heap alive)) =
      st.liveEnds (aliveQueues alive) := by
    funext queue
    by_cases hqueue : queue.1 = heap
    · simp [PageQueues.liveEnds, aliveQueues, PageQueues.initHeap, hqueue,
        hheap]
    · simp [PageQueues.liveEnds, aliveQueues, PageQueues.initHeap, hqueue]
  constructor
  · intro queue
    exact aliveQueues_eq_true.mpr
  · rw [hends]
    exact h.family
  · exact h.served
  · exact h.xheap
  · exact h.inFull
  · exact h.linked
  · intro other hother
    by_cases hsame : other = heap
    · subst hsame
      have hzero : queuedPages lists other = 0 :=
        Finset.sum_eq_zero fun b _ => by rw [hnil b, List.length_nil]
      rw [hzero]
      exact Function.update_self other 0 st.pageCount
    · rw [← h.count other (Finset.mem_of_mem_insert_of_ne hother hsame)]
      exact Function.update_of_ne hsame 0 st.pageCount
  · intro other hother
    by_cases hsame : other = heap
    · intro i _
      simp [PageQueues.initHeap, hsame, Ends.empty, directOf]
    · apply DirectOk.congr
        (h.direct other (Finset.mem_of_mem_insert_of_ne hother hsame))
      · exact Function.update_of_ne hsame _ _
      · intro b
        exact congrArg Ends.first (if_neg hsame)

end QueueLaw

theorem resetPages_same (h : QueueLaw st alive (aliveQueues alive) lists)
    (hheap : heap ∉ alive) : SameQueues alive st (st.resetPages heap) where
  pages queue hqueue := by
    apply if_neg
    rintro rfl
    exact hheap hqueue
  direct other hother := by
    apply Function.update_of_ne
    rintro rfl
    exact hheap hother
  count other hother := by
    apply Function.update_of_ne
    rintro rfl
    exact hheap hother
  next _ _ := rfl
  prev _ _ := rfl
  xheap _ _ := rfl
  inFull _ _ := rfl
  cleared page hpage := by
    rw [← Bool.not_eq_true]
    intro hfull
    obtain ⟨queue, hmem⟩ := h.linked page hfull
    exact h.not_mem_of_not_queued hpage queue hmem

theorem queueLaw_start (hfull : ∀ page, st.inFull page = false) :
    QueueLaw st ∅ (aliveQueues ∅) fun _ => [] := by
  constructor
  · intro queue hqueue
    exact absurd hqueue (Finset.notMem_empty _)
  · exact ⟨fun queue => IsQueue.nil _,
      fun _ _ page hpage => absurd hpage List.not_mem_nil⟩
  · exact fun _ hlist => absurd rfl hlist
  · exact fun _ page hpage => absurd hpage List.not_mem_nil
  · exact fun _ page hpage => absurd hpage List.not_mem_nil
  · intro page hpage
    rw [hfull] at hpage
    exact absurd hpage Bool.false_ne_true
  · exact fun heap hheap => absurd hheap (Finset.notMem_empty _)
  · exact fun heap hheap => absurd hheap (Finset.notMem_empty _)

theorem queueRun_law (hrun : QueueRun st alive) :
    ∃ lists, QueueLaw st alive (aliveQueues alive) lists := by
  induction hrun with
  | start hfull => exact ⟨_, queueLaw_start hfull⟩
  | init _ hheap ih =>
      obtain ⟨lists, hlaw⟩ := ih
      exact ⟨_, hlaw.initHeap hheap⟩
  | other _ hsub hsame ih =>
      obtain ⟨lists, hlaw⟩ := ih
      exact ⟨_, hlaw.other hsub hsame⟩
  | push _ hheap hb hxheap hpage ih =>
      obtain ⟨lists, hlaw⟩ := ih
      exact ⟨_, hlaw.push hheap hb hxheap
        (hlaw.not_mem_of_not_queued hpage)⟩
  | remove _ hheap hpage ih =>
      obtain ⟨lists, hlaw⟩ := ih
      exact ⟨_, hlaw.remove hheap ((hlaw.inQueue_iff hheap).mp hpage)⟩
  | moveToFront _ hheap hpage ih =>
      obtain ⟨lists, hlaw⟩ := ih
      exact ⟨_, hlaw.moveToFront hheap ((hlaw.inQueue_iff hheap).mp hpage)⟩
  | enqueueFrom _ hheap hb hpage ih =>
      obtain ⟨lists, hlaw⟩ := ih
      exact ⟨_, hlaw.enqueueFromEx hheap hb
        ((hlaw.inQueue_iff hheap).mp hpage) _⟩
  | absorb _ hheap hfrom hne hst' ih =>
      obtain ⟨lists, hlaw⟩ := ih
      obtain ⟨lists', hlaw', -⟩ := hlaw.absorb hheap hfrom hne hst'
      exact ⟨lists', hlaw'⟩
  | reset _ hheap ih =>
      obtain ⟨lists, hlaw⟩ := ih
      exact ⟨_, hlaw.other subset_rfl (resetPages_same hlaw hheap)⟩

structure QueuesAgree (st : PageQueues) (alive : Finset ℕ)
    (lists : ℕ × ℕ → List ℕ) : Prop where
  isQueue : ∀ heap ∈ alive, ∀ b,
    IsQueue st.links (st.pages (heap, b)) (lists (heap, b))
  disjoint : ∀ queue queue' page, page ∈ lists queue →
    page ∈ lists queue' → queue = queue'
  count : ∀ heap ∈ alive, st.pageCount heap = queuedPages lists heap
  inFull : ∀ page, st.inFull page = true ↔
    ∃ heap ∈ alive, page ∈ lists (heap, binFull)
  direct : ∀ heap ∈ alive, st.DirectOk heap

theorem page_queues_agree (hrun : QueueRun st alive) :
    ∃ lists, QueuesAgree st alive lists := by
  obtain ⟨lists, hlaw⟩ := queueRun_law hrun
  have halive : ∀ {queue page}, page ∈ lists queue → queue.1 ∈ alive := by
    intro queue page hpage
    by_contra hqueue
    have hnil : lists queue = [] :=
      hlaw.lists_eq_nil (decide_eq_false hqueue)
    rw [hnil] at hpage
    exact List.not_mem_nil hpage
  refine ⟨lists, fun heap hheap b => hlaw.isQueue hheap b,
    hlaw.family.disjoint, hlaw.count, ?_, hlaw.direct⟩
  intro page
  constructor
  · intro hfull
    obtain ⟨⟨heap, b⟩, hpage⟩ := hlaw.linked page hfull
    have hb : b = binFull := (hlaw.inFull _ page hpage).mp hfull
    rw [hb] at hpage
    exact ⟨heap, halive hpage, hpage⟩
  · rintro ⟨heap, -, hpage⟩
    exact (hlaw.inFull _ page hpage).mpr rfl

theorem absorb_returns {fromHeap : ℕ} (hrun : QueueRun st alive)
    (hheap : heap ∈ alive) (hfrom : fromHeap ∈ alive)
    (hne : heap ≠ fromHeap) :
    ∃ fuel st', st.absorbQueues fuel heap fromHeap (binFull + 1) =
      some st' := by
  obtain ⟨lists, hlaw⟩ := queueRun_law hrun
  refine ⟨queuedPages lists fromHeap,
    (hlaw.absorb_start hfrom).absorbQueues_returns
      (Finset.mem_erase.mpr ⟨hne, hheap⟩) (Finset.notMem_erase _ _) ?_ le_rfl⟩
  intro c
  by_cases hlist : lists (fromHeap, c) = []
  · rw [hlist]
    exact Nat.zero_le _
  · have hc := (hlaw.served _ hlist).cases.1
    exact Finset.single_le_sum (f := fun c => (lists (fromHeap, c)).length)
      (fun c _ => Nat.zero_le _) (Finset.mem_range.mpr hc)

end Run

def noQueues : PageQueues where
  links := ⟨fun _ => none, fun _ => none⟩
  inFull _ := false
  xheap _ := 0
  pages _ := Ends.empty
  pagesFreeDirect _ _ := .null
  pageCount _ := 0

theorem page_queues_agree_toFull :
    ∃ lists, QueuesAgree
      (((noQueues.initHeap 0).pageQueuePush 0 (0, 1) 7
        ).pageQueueEnqueueFromEx (0, binFull) (0, 1) true 7) {0} lists := by
  have hfresh : ¬(noQueues.initHeap 0).Queued (insert 0 ∅) 7 := by
    rintro ⟨queue, -, l, hl, hmem⟩
    have hfirst := hl.first
    rw [show ((noQueues.initHeap 0).pages queue).first = none by
      simp [PageQueues.initHeap, noQueues, Ends.empty]] at hfirst
    rw [List.head?_eq_none_iff.mp hfirst.symm] at hmem
    exact List.not_mem_nil hmem
  have hpushed : ((noQueues.initHeap 0).pageQueuePush 0 (0, 1) 7).InQueue
      (0, 1) 7 :=
    ⟨[7], ⟨List.nodup_singleton 7, ⟨rfl, rfl, trivial⟩, rfl, rfl⟩,
      List.mem_singleton_self 7⟩
  apply page_queues_agree
  apply QueueRun.enqueueFrom (b := binFull) _ (Finset.mem_singleton_self 0)
    (Or.inl rfl) hpushed
  exact QueueRun.push (.init (.start fun _ => rfl) (Finset.notMem_empty 0))
    (Finset.mem_insert_self 0 ∅) (Or.inr ⟨1, by decide⟩) rfl hfresh

end Palloc
