import Palloc.PageQueueInvariant

/-!
# Removals and insertions in the page queues

An insertion from another queue does not clear the fields of its page first.
It leaves what a removal and a following insertion leave, since the insertion
writes all of these fields.
-/

namespace Palloc

open LinkedQueue

section Steps

variable {st : PageQueues} {alive : Finset ℕ} {live : ℕ × ℕ → Bool}
  {lists : ℕ × ℕ → List ℕ} {heap b page : ℕ}

/-! ## Direct pages after a change of one queue -/

/-- The direct pages after a change of a queue, with an update if `c`. -/
def directAfter (st : PageQueues) (heap : ℕ) (queue : ℕ × ℕ)
    (pages : ℕ × ℕ → Ends ℕ) (c : Prop) [Decidable c] :
    ℕ → ℕ → DirectPage :=
  if c then
    ({ st with pages := pages } : PageQueues).queueFirstUpdate heap queue
      |>.pagesFreeDirect
  else st.pagesFreeDirect

theorem queueFirstUpdate_direct {c : Prop} [Decidable c] (hc : c)
    (st' : PageQueues) (heap : ℕ) (queue : ℕ × ℕ)
    (hdirect : st'.pagesFreeDirect = st.pagesFreeDirect) :
    (st'.queueFirstUpdate heap queue).pagesFreeDirect =
      directAfter st heap queue st'.pages c := by
  unfold directAfter PageQueues.queueFirstUpdate
  rw [if_pos hc, hdirect]
  dsimp only
  split
  · exact hdirect
  · split
    · exact hdirect
    · rfl

theorem directAfter_other (st : PageQueues) {heap other : ℕ}
    (queue : ℕ × ℕ) (pages : ℕ × ℕ → Ends ℕ) (c : Prop) [Decidable c]
    (hne : other ≠ heap) :
    directAfter st heap queue pages c other = st.pagesFreeDirect other := by
  unfold directAfter
  split
  · exact queueFirstUpdate_other hne
  · rfl

theorem DirectOk.directAfter {st' : PageQueues} (c : Prop) [Decidable c]
    (h : st.DirectOk heap) (hb : ServedBin b)
    (hdirect : st'.pagesFreeDirect heap =
      directAfter st heap (heap, b) st'.pages c heap)
    (hpages : ∀ c, c ≠ b → st'.pages (heap, c) = st.pages (heap, c))
    (hfirst : ¬c → (st'.pages (heap, b)).first = (st.pages (heap, b)).first) :
    st'.DirectOk heap := by
  unfold Palloc.directAfter at hdirect
  split at hdirect
  · have hupdate : (({ st with pages := st'.pages } : PageQueues
        ).queueFirstUpdate heap (heap, b)).DirectOk heap :=
      DirectOk.queueFirstUpdate h hb rfl hpages
    apply DirectOk.congr hupdate hdirect
    intro other
    rw [queueFirstUpdate_pages]
  · rename_i hc
    apply DirectOk.congr h hdirect
    intro other
    by_cases hother : other = b
    · rw [hother]
      exact hfirst hc
    · rw [hpages other hother]

theorem update_pages_of_ne (pages : ℕ × ℕ → Ends ℕ) (ends : Ends ℕ) (c : ℕ)
    (hne : c ≠ b) :
    Function.update pages (heap, b) ends (heap, c) = pages (heap, c) := by
  apply Function.update_of_ne
  intro heq
  exact hne (Prod.mk.inj heq).2

/-! ## Removal -/

section Remove

variable (st) (queue : ℕ × ℕ) (page : ℕ)

@[simp] theorem pageQueueRemove_links :
    (st.pageQueueRemove queue page).links = deleteLinks st.links page := by
  unfold PageQueues.pageQueueRemove
  dsimp only
  split <;> simp

@[simp] theorem pageQueueRemove_pages :
    (st.pageQueueRemove queue page).pages = Function.update st.pages queue
      (deleteEnds st.links (st.pages queue) page) := by
  unfold PageQueues.pageQueueRemove
  dsimp only
  split <;> simp

@[simp] theorem pageQueueRemove_xheap :
    (st.pageQueueRemove queue page).xheap = st.xheap := by
  unfold PageQueues.pageQueueRemove
  dsimp only
  split <;> simp

@[simp] theorem pageQueueRemove_inFull :
    (st.pageQueueRemove queue page).inFull =
      Function.update st.inFull page false := by
  unfold PageQueues.pageQueueRemove
  dsimp only
  split <;> simp

@[simp] theorem pageQueueRemove_pageCount :
    (st.pageQueueRemove queue page).pageCount =
      Function.update st.pageCount (st.xheap page)
        (st.pageCount (st.xheap page) - 1) := by
  unfold PageQueues.pageQueueRemove
  dsimp only
  split <;> simp

theorem pageQueueRemove_direct :
    (st.pageQueueRemove queue page).pagesFreeDirect =
      directAfter st (st.xheap page) queue
        (st.pageQueueRemove queue page).pages
        ((st.pages queue).first = some page) := by
  rw [pageQueueRemove_pages]
  unfold PageQueues.pageQueueRemove
  dsimp only
  split
  · rename_i hfirst
    exact queueFirstUpdate_direct hfirst _ _ _ rfl
  · rename_i hfirst
    exact (if_neg hfirst).symm

end Remove

namespace QueueLaw

theorem not_mem_erase (h : QueueLaw st alive live lists)
    (hpage : page ∈ lists (heap, b)) (queue : ℕ × ℕ) :
    page ∉ Function.update lists (heap, b) ((lists (heap, b)).erase page)
      queue := by
  by_cases hqueue : queue = (heap, b)
  · rw [hqueue, Function.update_self]
    exact (h.family.queue (heap, b)).nodup.not_mem_erase
  · rw [Function.update_of_ne hqueue]
    intro hmem
    exact hqueue (h.family.disjoint _ _ page hmem hpage)

theorem pageCount_pos (h : QueueLaw st alive live lists)
    (hheap : heap ∈ alive) (hpage : page ∈ lists (heap, b)) :
    0 < st.pageCount heap := by
  have hb : ServedBin b := h.served _ (List.ne_nil_of_mem hpage)
  have hlength : 0 < (lists (heap, b)).length := List.length_pos_of_mem hpage
  have hle : (lists (heap, b)).length ≤ st.pageCount heap := by
    rw [h.count heap hheap]
    exact Finset.single_le_sum (f := fun c => (lists (heap, c)).length)
      (fun c _ => Nat.zero_le _) (Finset.mem_range.mpr hb.cases.1)
  exact lt_of_lt_of_le hlength hle

theorem remove (h : QueueLaw st alive live lists) (hheap : heap ∈ alive)
    (hpage : page ∈ lists (heap, b)) :
    QueueLaw (st.pageQueueRemove (heap, b) page) alive live
      (Function.update lists (heap, b) ((lists (heap, b)).erase page)) := by
  have hxheap : st.xheap page = heap := h.xheap _ page hpage
  have hb : ServedBin b := h.served _ (List.ne_nil_of_mem hpage)
  have hnotMem := h.not_mem_erase hpage (heap, b)
  rw [Function.update_self] at hnotMem
  have hlength : 0 < (lists (heap, b)).length := List.length_pos_of_mem hpage
  have hpos : 0 < st.pageCount heap := h.pageCount_pos hheap hpage
  apply h.changeQueue hheap hb
  · rw [pageQueueRemove_links, pageQueueRemove_pages, Function.update_self,
      ← h.liveEnds_eq hheap]
    exact h.family.delete hpage
  · intro queue hne
    rw [pageQueueRemove_pages, Function.update_of_ne hne]
  · intro other hother
    exact Or.inr (List.mem_of_mem_erase hother)
  · intro other hother
    by_cases hsame : other = page
    · exact Or.inl hsame
    · exact Or.inr ((List.mem_erase_of_ne hsame).mpr hother)
  · intro queue hne hmem
    exact hne (h.family.disjoint _ _ page hmem hpage)
  · intro other _
    rw [pageQueueRemove_xheap]
  · intro other hne
    rw [pageQueueRemove_inFull, Function.update_of_ne hne]
  · intro hmem
    exact absurd hmem hnotMem
  · intro _
    rw [pageQueueRemove_inFull, Function.update_self]
  · rw [pageQueueRemove_pageCount, hxheap, Function.update_self,
      List.length_erase_of_mem hpage]
    omega
  · intro other hne
    rw [pageQueueRemove_pageCount, hxheap, Function.update_of_ne hne]
  · have hdirect := pageQueueRemove_direct st (heap, b) page
    rw [hxheap] at hdirect
    apply DirectOk.directAfter ((st.pages (heap, b)).first = some page)
      (h.direct heap hheap) hb (congrFun hdirect heap)
    · intro c hne
      rw [pageQueueRemove_pages, update_pages_of_ne _ _ _ hne]
    · intro hfirst
      rw [pageQueueRemove_pages, Function.update_self]
      exact if_neg hfirst
  · intro other hne
    rw [pageQueueRemove_direct, hxheap, directAfter_other _ _ _ _ hne]

end QueueLaw

/-! ## Insertion -/

theorem pageQueueIsFull_iff {b : ℕ} (hb : ServedBin b) :
    pageQueueIsFull b = true ↔ b = binFull := by
  have hall : ∀ b < binFull + 1,
      (pageQueueIsFull b = true ↔ b = binFull) := by
    decide +kernel
  exact hall b hb.cases.1

namespace QueueLaw

theorem insertPage {st' : PageQueues} {l : List ℕ} {ends : Ends ℕ}
    (c : Prop) [Decidable c]
    (h : QueueLaw st alive live lists) (hheap : heap ∈ alive)
    (hb : ServedBin b) (hxheapPage : st.xheap page = heap)
    (hout : ∀ queue, page ∉ lists queue)
    (hfamily : IsFamily st'.links
      (Function.update (st.liveEnds live) (heap, b) ends)
      (Function.update lists (heap, b) l))
    (hpages : st'.pages = Function.update st.pages (heap, b) ends)
    (hmem : ∀ other, other ∈ l ↔ other = page ∨ other ∈ lists (heap, b))
    (hlength : l.length = (lists (heap, b)).length + 1)
    (hxheap : st'.xheap = st.xheap)
    (hinFull : ∀ other, st'.inFull other =
      if other = page then pageQueueIsFull b else st.inFull other)
    (hcount : st'.pageCount =
      Function.update st.pageCount heap (st.pageCount heap + 1))
    (hdirect : st'.pagesFreeDirect =
      directAfter st heap (heap, b) st'.pages c)
    (hfirst : ¬c → ends.first = (st.pages (heap, b)).first) :
    QueueLaw st' alive live (Function.update lists (heap, b) l) := by
  have hpage : page ∈ l := (hmem page).mpr (Or.inl rfl)
  apply h.changeQueue hheap hb _ _ (fun other => (hmem other).mp)
  · intro other hother
    exact Or.inr ((hmem other).mpr (Or.inr hother))
  · intro queue _
    exact hout queue
  · intro other _
    rw [hxheap]
  · intro other hne
    rw [hinFull, if_neg hne]
  · intro _
    rw [hxheap, hinFull, if_pos rfl]
    exact ⟨hxheapPage, pageQueueIsFull_iff hb⟩
  · exact fun hnot => absurd hpage hnot
  · rw [hcount, Function.update_self, hlength]
    omega
  · intro other hne
    rw [hcount, Function.update_of_ne hne]
  · apply DirectOk.directAfter c (h.direct heap hheap) hb
      (congrFun hdirect heap)
    · intro other hne
      rw [hpages, update_pages_of_ne _ _ _ hne]
    · intro hc
      rw [hpages, Function.update_self]
      exact hfirst hc
  · intro other hne
    rw [hdirect, directAfter_other _ _ _ _ hne]
  · rw [hpages, Function.update_self]
    exact hfamily
  · intro queue hne
    rw [hpages, Function.update_of_ne hne]

theorem push (h : QueueLaw st alive live lists) (hheap : heap ∈ alive)
    (hb : ServedBin b) (hxheap : st.xheap page = heap)
    (hout : ∀ queue, page ∉ lists queue) :
    QueueLaw (st.pageQueuePush heap (heap, b) page) alive live
      (Function.update lists (heap, b) (page :: lists (heap, b))) := by
  have hfamily := h.family.push (heap, b) hout
  rw [h.liveEnds_eq hheap] at hfamily
  have hlinks : (st.pageQueuePush heap (heap, b) page).links =
      pushLinks st.links (st.pages (heap, b)) page := by
    simp [PageQueues.pageQueuePush]
  have hpages : (st.pageQueuePush heap (heap, b) page).pages =
      Function.update st.pages (heap, b)
        (pushEnds (st.pages (heap, b)) page) := by
    simp [PageQueues.pageQueuePush]
  apply h.insertPage True hheap hb hxheap hout _ hpages
  · exact fun other => List.mem_cons
  · exact List.length_cons
  · simp [PageQueues.pageQueuePush]
  · intro other
    simp [PageQueues.pageQueuePush, Function.update_apply]
  · simp [PageQueues.pageQueuePush]
  · rw [hpages]
    exact queueFirstUpdate_direct trivial _ _ _ rfl
  · exact fun hfalse => absurd trivial hfalse
  · rw [hlinks]
    exact hfamily

theorem moveToFront (h : QueueLaw st alive live lists)
    (hheap : heap ∈ alive) (hpage : page ∈ lists (heap, b)) :
    QueueLaw (st.pageQueueMoveToFront heap (heap, b) page) alive live
      (Function.update lists (heap, b)
        (page :: (lists (heap, b)).erase page)) := by
  unfold PageQueues.pageQueueMoveToFront
  split
  · next hfirst =>
      rw [(h.isQueue hheap b).first] at hfirst
      have hfront : page :: (lists (heap, b)).erase page =
          lists (heap, b) := by
        cases hlist : lists (heap, b) with
        | nil =>
            rw [hlist] at hfirst
            exact nomatch hfirst
        | cons front rest =>
            rw [hlist] at hfirst
            obtain rfl : front = page := Option.some.inj hfirst
            rw [List.erase_cons_head]
      rw [hfront, Function.update_eq_self]
      exact h
  · have hb : ServedBin b := h.served _ (List.ne_nil_of_mem hpage)
    have hremove := h.remove hheap hpage
    have hpush := hremove.push hheap hb
      (by
        rw [pageQueueRemove_xheap]
        exact h.xheap _ page hpage)
      (h.not_mem_erase hpage)
    rw [Function.update_self, Function.update_idem] at hpush
    exact hpush

end QueueLaw

/-! ## Insertion from another queue -/

structure LeftQueue (links : Links ℕ) (page : ℕ) (st mid : PageQueues) :
    Prop where
  bypassed : st.links = bypassLinks links page
  deleted : mid.links = deleteLinks links page
  pages : st.pages = mid.pages
  direct : st.pagesFreeDirect = mid.pagesFreeDirect
  xheap : st.xheap = mid.xheap
  inFull : ∀ other, other ≠ page → st.inFull other = mid.inFull other
  count : st.pageCount = Function.update mid.pageCount (mid.xheap page)
    (mid.pageCount (mid.xheap page) + 1)

def PageQueues.leaveQueue (queue : ℕ × ℕ) (page : ℕ) (st : PageQueues) :
    PageQueues :=
  let st' :=
    { st with
      links := bypassLinks st.links page
      pages := Function.update st.pages queue
        (deleteEnds st.links (st.pages queue) page) }
  if (st.pages queue).first = some page then
    st'.queueFirstUpdate (st.xheap page) queue
  else st'

section LeaveQueue

variable (st) (queue : ℕ × ℕ) (page : ℕ)

@[simp] theorem leaveQueue_links :
    (st.leaveQueue queue page).links = bypassLinks st.links page := by
  unfold PageQueues.leaveQueue
  dsimp only
  split <;> simp

@[simp] theorem leaveQueue_pages :
    (st.leaveQueue queue page).pages = Function.update st.pages queue
      (deleteEnds st.links (st.pages queue) page) := by
  unfold PageQueues.leaveQueue
  dsimp only
  split <;> simp

@[simp] theorem leaveQueue_xheap :
    (st.leaveQueue queue page).xheap = st.xheap := by
  unfold PageQueues.leaveQueue
  dsimp only
  split <;> simp

@[simp] theorem leaveQueue_inFull :
    (st.leaveQueue queue page).inFull = st.inFull := by
  unfold PageQueues.leaveQueue
  dsimp only
  split <;> simp

@[simp] theorem leaveQueue_pageCount :
    (st.leaveQueue queue page).pageCount = st.pageCount := by
  unfold PageQueues.leaveQueue
  dsimp only
  split <;> simp

theorem leaveQueue_direct :
    (st.leaveQueue queue page).pagesFreeDirect =
      directAfter st (st.xheap page) queue (st.leaveQueue queue page).pages
        ((st.pages queue).first = some page) := by
  rw [leaveQueue_pages]
  unfold PageQueues.leaveQueue
  dsimp only
  split
  · rename_i hfirst
    exact queueFirstUpdate_direct hfirst _ _ _ rfl
  · rename_i hfirst
    exact (if_neg hfirst).symm

end LeaveQueue

namespace QueueLaw

theorem leftQueue_insert {links links' : Links ℕ} {mid : PageQueues}
    {ends : Ends ℕ} {l : List ℕ} (c : Prop) [Decidable c]
    (h : QueueLaw mid alive live lists) (hleft : LeftQueue links page st mid)
    (hheap : heap ∈ alive) (hb : ServedBin b)
    (hxheap : mid.xheap page = heap) (hout : ∀ queue, page ∉ lists queue)
    (hfamily : IsFamily links'
      (Function.update (mid.liveEnds live) (heap, b) ends)
      (Function.update lists (heap, b) l))
    (hmem : ∀ other, other ∈ l ↔ other = page ∨ other ∈ lists (heap, b))
    (hlength : l.length = (lists (heap, b)).length + 1)
    (hfirst : ¬c → ends.first = (mid.pages (heap, b)).first)
    {st' st'' : PageQueues}
    (hst' : st' = { st with
      links := links'
      pages := Function.update st.pages (heap, b) ends })
    (hst'' : st'' =
      if c then st'.queueFirstUpdate heap (heap, b) else st') :
    QueueLaw { st'' with
      inFull := Function.update st''.inFull page (pageQueueIsFull b) }
      alive live (Function.update lists (heap, b) l) := by
  have hfields : st''.links = st'.links ∧ st''.pages = st'.pages ∧
      st''.xheap = st'.xheap ∧ st''.inFull = st'.inFull ∧
      st''.pageCount = st'.pageCount := by
    rw [hst'']
    split <;> simp
  obtain ⟨hlinks, hpages, hheaps, hinFull, hcount⟩ := hfields
  subst hst'
  have hleftCount := hleft.count
  rw [hxheap] at hleftCount
  apply h.insertPage c hheap hb hxheap hout _ _ hmem hlength
  · exact hheaps.trans hleft.xheap
  · intro other
    dsimp only
    rw [hinFull, Function.update_apply]
    split
    · rfl
    · rename_i hne
      exact hleft.inFull other hne
  · exact hcount.trans hleftCount
  · dsimp only
    rw [hpages, hst'']
    split
    · rename_i hc
      exact queueFirstUpdate_direct hc _ _ _ hleft.direct
    · rename_i hc
      exact hleft.direct.trans (if_neg hc).symm
  · exact hfirst
  · dsimp only
    rw [hlinks]
    exact hfamily
  · dsimp only
    rw [hpages]
    exact congrArg (Function.update · (heap, b) ends) hleft.pages

/-- Where `pa_page_queue_enqueue_from_ex` puts a page. -/
def enqueueList (enqueueAtEnd : Bool) (page : ℕ) (l : List ℕ) : List ℕ :=
  if enqueueAtEnd then l ++ [page] else l.take 1 ++ page :: l.drop 1

theorem enqueueInto {links : Links ℕ} {mid : PageQueues}
    (h : QueueLaw mid alive live lists) (hleft : LeftQueue links page st mid)
    (hheap : heap ∈ alive) (hb : ServedBin b)
    (hxheap : mid.xheap page = heap) (hout : ∀ queue, page ∉ lists queue)
    (enqueueAtEnd : Bool) :
    QueueLaw
      { st.enqueueInto heap (heap, b) enqueueAtEnd page with
        inFull := Function.update
          (st.enqueueInto heap (heap, b) enqueueAtEnd page).inFull page
          (pageQueueIsFull b) } alive live
      (Function.update lists (heap, b)
        (enqueueList enqueueAtEnd page (lists (heap, b)))) := by
  have hqueue := h.isQueue hheap b
  have hends : st.pages (heap, b) = mid.pages (heap, b) :=
    congrFun hleft.pages _
  cases enqueueAtEnd with
  | true =>
      have hfamily := h.family.pushBack (heap, b) hout
      rw [h.liveEnds_eq hheap, hleft.deleted, ← pushBackLinks_bypass,
        ← hleft.bypassed, ← hends] at hfamily
      refine h.leftQueue_insert ((st.pages (heap, b)).last = none) hleft
        hheap hb hxheap hout hfamily ?_ ?_ ?_ rfl rfl
      · intro other
        rw [List.mem_append, List.mem_singleton]
        exact or_comm
      · exact List.length_append
      · intro hlast
        rw [← hends]
        exact if_pos (Option.isSome_iff_ne_none.mpr hlast)
  | false =>
      cases hlist : lists (heap, b) with
      | nil =>
          have hfirst : (st.pages (heap, b)).first = none := by
            rw [hends, hqueue.first, hlist]
            rfl
          have hfamily := h.family.push (heap, b) hout
          rw [h.liveEnds_eq hheap, ← hends, hleft.deleted,
            ← pushLinks_bypass _ _ hfirst, ← hleft.bypassed] at hfamily
          rw [hlist] at hfamily
          refine h.leftQueue_insert True hleft hheap hb hxheap hout hfamily
            ?_ ?_ ?_ rfl ?_
          · intro other
            rw [hlist]
            exact List.mem_cons
          · rw [hlist]
            rfl
          · exact fun hfalse => absurd trivial hfalse
          · rw [if_pos trivial]
            simp [PageQueues.enqueueInto, hfirst]
      | cons front rest =>
          have hfirst : (st.pages (heap, b)).first = some front := by
            rw [hends, hqueue.first, hlist]
            rfl
          have hne : front ≠ page := by
            rintro rfl
            apply hout (heap, b)
            rw [hlist]
            exact List.mem_cons_self
          have hfamily := h.family.insertSecond hlist hout
          have hnext : mid.links.next front = st.links.next front := by
            rw [hleft.deleted, hleft.bypassed, deleteLinks_next,
              if_neg hne.symm]
            simp [bypassLinks, Links.next_setNext]
          have hsecond : insertSecondEnds mid.links (mid.pages (heap, b)) front
              page = insertSecondEnds st.links (st.pages (heap, b)) front
                page := by
            rw [hends]
            unfold insertSecondEnds
            rw [hnext]
          rw [h.liveEnds_eq hheap, hsecond, hleft.deleted,
            ← insertSecondLinks_bypass _ hne, ← hleft.bypassed] at hfamily
          refine h.leftQueue_insert False hleft hheap hb hxheap hout hfamily
            ?_ ?_ ?_ rfl ?_
          · intro other
            rw [hlist]
            simp only [List.mem_cons]
            exact or_left_comm
          · rw [hlist]
            rfl
          · intro _
            rw [← hends]
            rfl
          · rw [if_neg not_false]
            simp [PageQueues.enqueueInto, hfirst]

theorem enqueueFromEx {c : ℕ} (h : QueueLaw st alive live lists)
    (hheap : heap ∈ alive) (hb : ServedBin b)
    (hpage : page ∈ lists (heap, c)) (enqueueAtEnd : Bool) :
    QueueLaw
      (st.pageQueueEnqueueFromEx (heap, b) (heap, c) enqueueAtEnd page)
      alive live
      (let left := Function.update lists (heap, c)
        ((lists (heap, c)).erase page)
      Function.update left (heap, b)
        (enqueueList enqueueAtEnd page (left (heap, b)))) := by
  have hxheap : st.xheap page = heap := h.xheap _ page hpage
  have hpos : 0 < st.pageCount heap := h.pageCount_pos hheap hpage
  have hremove := h.remove hheap hpage
  have hleft : LeftQueue st.links page
      (st.leaveQueue (heap, c) page) (st.pageQueueRemove (heap, c) page) := by
    constructor
    · simp
    · simp
    · simp
    · rw [leaveQueue_direct, pageQueueRemove_direct]
      simp
    · simp
    · intro other hne
      simp [Function.update_of_ne hne]
    · simp only [leaveQueue_pageCount, pageQueueRemove_pageCount,
        pageQueueRemove_xheap, Function.update_self, Function.update_idem,
        hxheap, Nat.sub_add_cancel hpos, Function.update_eq_self]
  have henqueue := hremove.enqueueInto hleft hheap hb
    (by rw [pageQueueRemove_xheap]; exact hxheap) (h.not_mem_erase hpage)
    enqueueAtEnd
  dsimp only
  rw [← hxheap] at henqueue ⊢
  exact henqueue

end QueueLaw

end Steps

end Palloc
