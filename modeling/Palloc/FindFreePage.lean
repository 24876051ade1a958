import Palloc.PagePartition
import Palloc.PageQueueRun

/-!
# Finding a page with a free block

`pa_page_queue_find_free_ex` walks one queue of a heap, collects the freed
blocks of each page, moves full pages to the full queue and remembers the best
candidate so far.  Without a candidate it frees retired pages and asks the
segment layer for a fresh page, which may put reclaimed pages into the queues
of the heap or give up segments with their pages.

The state records what happens to the queues as a list of events.
-/

namespace Palloc

open LinkedQueue LinkedChain

/-! ## State -/

/-- What happens to the pages in the queues of a thread; `reclaimed` and
`abandoned` are up to the segment layer. -/
inductive QueueEvent where
  | toFull (page : ℕ) (fields : PageFields)
  | freed (page : ℕ)
  | fresh (page : ℕ)
  | reclaimed (page : ℕ)
  | abandoned (page : ℕ)

/-- The queues with the block lists of the pages.  The full flag and the heap
of a page are those of the queues, not of its fields. -/
structure FindState where
  queues : PageQueues
  fields : ℕ → PageFields
  /-- `page_retired_min` and `page_retired_max` of the heaps. -/
  retired : ℕ → ℕ × ℕ
  events : List QueueEvent

/-- What the segment layer does: `_pa_segment_page_free` of a page that left
its queue, and the page that `_pa_segment_page_alloc` and `pa_page_init` make
for a queue. -/
structure SegmentLayer where
  pageFree : FindState → ℕ → FindState
  freshPage : FindState → ℕ × ℕ → Option ℕ × FindState

namespace FindState

def setFields (st : FindState) (page : ℕ) (fields : PageFields) : FindState :=
  { st with fields := Function.update st.fields page fields }

def record (st : FindState) (e : QueueEvent) : FindState :=
  { st with events := st.events ++ [e] }

/-- `pa_page_to_full`. -/
def pageToFull (st : FindState) (queue : ℕ × ℕ) (page : ℕ) :
    Option FindState :=
  if st.queues.inFull page then some st
  else
    let heap := st.queues.xheap page
    let st :=
      { st.record (.toFull page (st.fields page)) with
        queues := st.queues.pageQueueEnqueueFromEx (heap, binFull) queue true
          page }
    match pageFreeCollect (st.fields page) false with
    | none => none
    | some fields => some (st.setFields page fields)

end FindState

/-! ## Retired pages -/

section Retired

variable (layer : SegmentLayer)

/-- `_pa_page_free`. -/
def pageFree (st : FindState) (queue : ℕ × ℕ) (page : ℕ) : FindState :=
  let st := st.setFields page { st.fields page with hasAligned := false }
  let st :=
    { st.record (.freed page) with
      queues := st.queues.pageQueueRemove queue page }
  layer.pageFree st page

/-- One round of `_pa_heap_collect_retired`, with the new bounds. -/
def collectRetiredBin (heap : ℕ) (force : Bool)
    (acc : FindState × ℕ × ℕ) (bin : ℕ) : FindState × ℕ × ℕ :=
  let st := acc.1
  match (st.queues.pages (heap, bin)).first with
  | none => acc
  | some page =>
      let fields := st.fields page
      if fields.retireExpire = 0 then acc
      else if fields.used = 0 then
        let expire := fields.retireExpire - 1
        let st := st.setFields page { fields with retireExpire := expire }
        if force = true ∨ expire = 0 then
          (pageFree layer st (heap, bin) page, acc.2)
        else
          (st, if bin < acc.2.1 then bin else acc.2.1,
            if acc.2.2 < bin then bin else acc.2.2)
      else (st.setFields page { fields with retireExpire := 0 }, acc.2)

/-- `_pa_heap_collect_retired`. -/
def heapCollectRetired (heap : ℕ) (force : Bool) (st : FindState) :
    FindState :=
  let range := st.retired heap
  let acc := (List.range' range.1 (range.2 + 1 - range.1)).foldl
    (collectRetiredBin layer heap force) (st, binFull, 0)
  { acc.1 with retired := Function.update acc.1.retired heap acc.2 }

end Retired

/-! ## The search -/

def maxCandidateSearch : ℕ := 4

/-- `pa_page_is_expandable`. -/
def pageIsExpandable (page : PageFields) : Bool :=
  page.capacity < page.reserved

/-- `pa_page_is_mostly_used`. -/
def pageIsMostlyUsed (page : PageFields) : Bool :=
  page.reserved - page.used ≤ page.reserved / 8

/-- The page at hand is a better candidate than the one so far. -/
def betterCandidate (fields candidate : PageFields) : Bool :=
  candidate.used ≤ fields.used && !pageIsMostlyUsed fields &&
    !pageIsExpandable fields

def bestCandidate (st : FindState) (page : ℕ) : Option ℕ → ℕ
  | none => page
  | some best =>
      if betterCandidate (st.fields page) (st.fields best) then page else best

/-- The loop over the pages of a queue: the page that it stops at and the
candidate.  `none` when the fuel runs out, or that of a collection. -/
def searchPages (queue : ℕ × ℕ) : (fuel : ℕ) → (page candidate : Option ℕ) →
    (candidateCount : ℕ) → FindState →
      Option (Option ℕ × Option ℕ × FindState)
  | _, none, candidate, _, st => some (none, candidate, st)
  | 0, some _, _, _, _ => none
  | fuel + 1, some page, candidate, candidateCount, st =>
      let next := st.queues.links.next page
      let candidateCount := candidateCount + 1
      match pageFreeCollect (st.fields page) false with
      | none => none
      | some fields =>
          let st := st.setFields page fields
          let immediateAvailable := fields.free.isSome
          if !immediateAvailable && !pageIsExpandable fields then
            match st.pageToFull queue page with
            | none => none
            | some st => searchPages queue fuel next candidate candidateCount st
          else
            let best := bestCandidate st page candidate
            let candidateCount :=
              if candidate.isNone then 0 else candidateCount
            if immediateAvailable || maxCandidateSearch < candidateCount then
              some (some page, some best, st)
            else searchPages queue fuel next (some best) candidateCount st

section Find

variable (cfg : Config) (layer : SegmentLayer)

/-- What follows the loop; `again` is the second try.  An extension never
fails, and `random` is the number that it takes from the heap. -/
def findFreeBody (random : BitVec 64)
    (again : FindState → Option (Option ℕ × FindState))
    (heap b : ℕ) (st : FindState) : Option (Option ℕ × FindState) :=
  match searchPages (heap, b) (st.queues.pageCount heap)
      (st.queues.pages (heap, b)).first none 0 st with
  | none => none
  | some (page, candidate, st) =>
      match candidate.or page with
      | some page =>
          let extended :=
            if (st.fields page).free.isSome then some (st.fields page)
            else pageExtendFree cfg random (st.fields page)
          match extended with
          | none => none
          | some fields =>
              let st := st.setFields page { fields with retireExpire := 0 }
              some (some page,
                { st with
                  queues := st.queues.pageQueueMoveToFront heap (heap, b)
                    page })
      | none =>
          let st := heapCollectRetired layer heap false st
          match layer.freshPage st (heap, b) with
          | (none, st) => again st
          | (some page, st) =>
              some (some page,
                { st.record (.fresh page) with
                  queues := st.queues.pageQueuePush heap (heap, b) page })

/-- `pa_page_queue_find_free_ex`. -/
def pageQueueFindFreeEx (random : Bool → BitVec 64) (heap b : ℕ) :
    (firstTry : Bool) → FindState → Option (Option ℕ × FindState)
  | false => findFreeBody cfg layer (random false)
      (fun st => some (none, st)) heap b
  | true => findFreeBody cfg layer (random true)
      (findFreeBody cfg layer (random false) (fun st => some (none, st))
        heap b) heap b

end Find

/-! ## What the search keeps -/

structure FindOk (live : ℕ → List Addr) (alive : Finset ℕ) (st : FindState)
    (lists : ℕ × ℕ → List ℕ) : Prop where
  law : QueueLaw st.queues alive (aliveQueues alive) lists
  partition : ∀ queue, ∀ page ∈ lists queue, ∃ free localFree thread,
    PagePartition (st.fields page) (live page) free localFree thread

def queuedSet (lists : ℕ × ℕ → List ℕ) : Set ℕ :=
  {page | ∃ queue, page ∈ lists queue}

def QueueEvent.apply : QueueEvent → Set ℕ → Set ℕ
  | .toFull _ _, pages => pages
  | .freed page, pages => pages \ {page}
  | .abandoned page, pages => pages \ {page}
  | .fresh page, pages => insert page pages
  | .reclaimed page, pages => insert page pages

/-- The pages in the queues after all events of a log. -/
def queuedAfter (log : List QueueEvent) (pages : Set ℕ) : Set ℕ :=
  log.foldl (fun pages e => e.apply pages) pages

/-- What may happen to the queues: a page moves to the full queue without a
free block, with all blocks carved, and a page is freed without a block in
use. -/
def QueueEvent.Ok (live : ℕ → List Addr) : QueueEvent → Prop
  | .toFull _ fields => fields.free = none ∧
      fields.capacity = fields.reserved
  | .freed page => live page = []
  | .fresh _ | .reclaimed _ | .abandoned _ => True

def QueueEvent.BySegment : QueueEvent → Prop
  | .reclaimed _ | .abandoned _ => True
  | _ => False

structure FindChange (live : ℕ → List Addr) (alive : Finset ℕ)
    (st st' : FindState) (lists lists' : ℕ × ℕ → List ℕ)
    (log : List QueueEvent) : Prop where
  ok : FindOk live alive st' lists'
  events : st'.events = st.events ++ log
  log_ok : ∀ e ∈ log, e.Ok live
  queued : queuedSet lists' = queuedAfter log (queuedSet lists)

structure SegmentLayer.Sound (layer : SegmentLayer) (live : ℕ → List Addr)
    (alive : Finset ℕ) : Prop where
  pageFree : ∀ st lists page, FindOk live alive st lists →
    (∀ queue, page ∉ lists queue) →
    FindOk live alive (layer.pageFree st page) lists ∧
      (layer.pageFree st page).events = st.events
  freshPage : ∀ st lists heap b, FindOk live alive st lists →
    heap ∈ alive → ∃ lists' log,
      FindChange live alive st (layer.freshPage st (heap, b)).2 lists lists'
        log ∧
      (∀ e ∈ log, e.BySegment) ∧
      ∀ page, (layer.freshPage st (heap, b)).1 = some page →
        (∀ queue, page ∉ lists' queue) ∧
        (layer.freshPage st (heap, b)).2.queues.xheap page = heap ∧
        ((layer.freshPage st (heap, b)).2.fields page).free ≠ none ∧
        ∃ free localFree thread, PagePartition
          ((layer.freshPage st (heap, b)).2.fields page) (live page) free
          localFree thread

structure FoundPage (live : ℕ → List Addr) (alive : Finset ℕ)
    (queue : ℕ × ℕ) (st st' : FindState) (result : Option ℕ)
    (lists lists' : ℕ × ℕ → List ℕ) (log : List QueueEvent) : Prop
    extends FindChange live alive st st' lists lists' log where
  found : ∀ page, result = some page → (st'.fields page).free ≠ none ∧
    (lists' queue).head? = some page ∧
      (st'.queues.pages queue).first = some page

variable {cfg : Config} {layer : SegmentLayer} {live : ℕ → List Addr}
variable {alive : Finset ℕ} {st st' st'' : FindState}
variable {lists lists' lists'' : ℕ × ℕ → List ℕ}
variable {log log' : List QueueEvent} {heap b page : ℕ} {fields : PageFields}

theorem queuedAfter_append (log log' : List QueueEvent) (pages : Set ℕ) :
    queuedAfter (log ++ log') pages =
      queuedAfter log' (queuedAfter log pages) :=
  List.foldl_append

theorem queuedSet_erase {queues : PageQueues} {alive : Finset ℕ}
    {live : ℕ × ℕ → Bool} (h : QueueLaw queues alive live lists)
    (hpage : page ∈ lists (heap, b)) :
    queuedSet (Function.update lists (heap, b)
      ((lists (heap, b)).erase page)) = queuedSet lists \ {page} := by
  ext other
  constructor
  · rintro ⟨queue, hother⟩
    have hne : other ≠ page := by
      rintro rfl
      exact h.not_mem_erase hpage queue hother
    refine ⟨?_, hne⟩
    by_cases hqueue : queue = (heap, b)
    · rw [hqueue, Function.update_self] at hother
      exact ⟨_, List.mem_of_mem_erase hother⟩
    · rw [Function.update_of_ne hqueue] at hother
      exact ⟨queue, hother⟩
  · rintro ⟨⟨queue, hother⟩, hne⟩
    refine ⟨queue, ?_⟩
    by_cases hqueue : queue = (heap, b)
    · rw [hqueue, Function.update_self]
      rw [hqueue] at hother
      exact (List.mem_erase_of_ne hne).mpr hother
    · rw [Function.update_of_ne hqueue]
      exact hother

theorem queuedSet_insert {queue : ℕ × ℕ} {l : List ℕ}
    (hl : ∀ other, other ∈ l ↔ other = page ∨ other ∈ lists queue) :
    queuedSet (Function.update lists queue l) =
      insert page (queuedSet lists) := by
  ext other
  constructor
  · rintro ⟨queue', hother⟩
    by_cases hqueue : queue' = queue
    · rw [hqueue, Function.update_self, hl] at hother
      rcases hother with rfl | hother
      · exact Or.inl rfl
      · exact Or.inr ⟨queue, hother⟩
    · rw [Function.update_of_ne hqueue] at hother
      exact Or.inr ⟨queue', hother⟩
  · rintro (rfl | ⟨queue', hother⟩)
    · refine ⟨queue, ?_⟩
      rw [Function.update_self, hl]
      exact Or.inl rfl
    · refine ⟨queue', ?_⟩
      by_cases hqueue : queue' = queue
      · rw [hqueue, Function.update_self, hl]
        rw [hqueue] at hother
        exact Or.inr hother
      · rw [Function.update_of_ne hqueue]
        exact hother

namespace FindChange

theorem refl (h : FindOk live alive st lists) :
    FindChange live alive st st lists lists [] :=
  ⟨h, (List.append_nil _).symm, fun _ he => (nomatch he), rfl⟩

theorem trans (h : FindChange live alive st st' lists lists' log)
    (h' : FindChange live alive st' st'' lists' lists'' log') :
    FindChange live alive st st'' lists lists'' (log ++ log') := by
  refine ⟨h'.ok, ?_, ?_, ?_⟩
  · rw [h'.events, h.events, List.append_assoc]
  · intro e he
    rcases List.mem_append.mp he with hfirst | hsecond
    · exact h.log_ok e hfirst
    · exact h'.log_ok e hsecond
  · rw [h'.queued, h.queued, queuedAfter_append]

end FindChange

namespace FindOk

theorem setFields (h : FindOk live alive st lists)
    (hfields : ∃ free localFree thread,
      PagePartition fields (live page) free localFree thread) :
    FindChange live alive st (st.setFields page fields) lists lists [] := by
  refine ⟨⟨h.law, ?_⟩, (List.append_nil _).symm,
    fun _ he => (nomatch he), rfl⟩
  intro queue other hother
  show ∃ free localFree thread, PagePartition
    (Function.update st.fields page fields other) (live other) free localFree
      thread
  by_cases heq : other = page
  · subst heq
    rw [Function.update_self]
    exact hfields
  · rw [Function.update_of_ne heq]
    exact h.partition queue other hother

theorem setFlags (h : FindOk live alive st lists) {queue : ℕ × ℕ}
    (hpage : page ∈ lists queue) (hasAligned : Bool) (expire : ℕ) :
    FindChange live alive st (st.setFields page
      { st.fields page with
        hasAligned := hasAligned, retireExpire := expire }) lists lists
      [] := by
  obtain ⟨free, localFree, thread, hpart⟩ := h.partition queue page hpage
  apply h.setFields
  exact ⟨free, localFree, thread, hpart.free_chain, hpart.local_chain,
    hpart.thread_chain, hpart.blocks, hpart.used_eq, hpart.capacity_le,
    hpart.reserved_lt, hpart.blockSize_pos⟩

/-- Collecting the freed blocks of a queued page returns. -/
theorem collect (h : FindOk live alive st lists) {queue : ℕ × ℕ}
    (hpage : page ∈ lists queue) :
    ∃ fields free localFree,
      pageFreeCollect (st.fields page) false = some fields ∧
      PagePartition fields (live page) free localFree [] ∧
      FindChange live alive st (st.setFields page fields) lists lists [] := by
  obtain ⟨free, localFree, thread, hpart⟩ := h.partition queue page hpage
  obtain ⟨fields, free', localFree', hcollect, hpart', -⟩ :=
    hpart.freeCollect false
  exact ⟨fields, free', localFree', hcollect, hpart',
    h.setFields ⟨_, _, _, hpart'⟩⟩

/-- The queues change, with the events of the change. -/
theorem setQueues {queues : PageQueues} (h : FindOk live alive st lists)
    (hlaw : QueueLaw queues alive (aliveQueues alive) lists')
    (hevents : ∀ e ∈ log, e.Ok live)
    (hqueued : queuedSet lists' = queuedAfter log (queuedSet lists))
    (hpart : ∀ page ∈ queuedSet lists', page ∈ queuedSet lists ∨
      ∃ free localFree thread, PagePartition (st.fields page) (live page)
        free localFree thread) :
    FindChange live alive st
      { st with queues := queues, events := st.events ++ log } lists lists'
      log := by
  refine ⟨⟨hlaw, ?_⟩, rfl, hevents, hqueued⟩
  intro queue page hpage
  rcases hpart page ⟨queue, hpage⟩ with ⟨old, hold⟩ | hnew
  · exact h.partition old page hold
  · exact hnew

/-- A full page leaves its queue for the queue of full pages. -/
theorem pageToFull (h : FindOk live alive st lists) (hheap : heap ∈ alive)
    (hb : b ≠ binFull) (hpage : page ∈ lists (heap, b))
    (hfree : (st.fields page).free = none)
    (hcapacity : (st.fields page).capacity = (st.fields page).reserved) :
    ∃ st' lists', st.pageToFull (heap, b) page = some st' ∧
      lists' (heap, b) = (lists (heap, b)).erase page ∧
      (∀ other, other ≠ page → st'.fields other = st.fields other) ∧
      FindChange live alive st st' lists lists'
        [.toFull page (st.fields page)] := by
  have hinFull : st.queues.inFull page = false := by
    cases hflag : st.queues.inFull page with
    | false => rfl
    | true => exact absurd ((h.law.inFull _ page hpage).mp hflag) hb
  have hxheap : st.queues.xheap page = heap := h.law.xheap _ page hpage
  have hlaw := h.law.enqueueFromEx hheap (Or.inl rfl : ServedBin binFull)
    hpage true
  set left := Function.update lists (heap, b) ((lists (heap, b)).erase page)
    with hleft
  set lists' := Function.update left (heap, binFull)
    (QueueLaw.enqueueList true page (left (heap, binFull))) with hlists'
  have hne : (heap, b) ≠ (heap, binFull) :=
    fun heq => hb (Prod.mk.inj heq).2
  have hqueued : queuedSet lists' = queuedSet lists := by
    have hinsert : queuedSet lists' = insert page (queuedSet left) := by
      apply queuedSet_insert
      intro other
      show other ∈ left (heap, binFull) ++ [page] ↔ _
      rw [List.mem_append, List.mem_singleton]
      exact or_comm
    rw [hinsert, hleft, queuedSet_erase h.law hpage,
      Set.insert_sdiff_singleton]
    exact Set.insert_eq_of_mem ⟨_, hpage⟩
  have hevents : ∀ e ∈ [QueueEvent.toFull page (st.fields page)],
      e.Ok live := by
    intro e he
    rw [List.mem_singleton.mp he]
    exact ⟨hfree, hcapacity⟩
  have hmoved := h.setQueues hlaw hevents hqueued
    (fun other hother => Or.inl (hqueued ▸ hother))
  have hmem : page ∈ lists' (heap, binFull) := by
    rw [hlists', Function.update_self]
    exact List.mem_append_right _ (List.mem_singleton_self page)
  obtain ⟨fields, free, localFree, hcollect, -, hchange⟩ :=
    hmoved.ok.collect hmem
  refine ⟨_, lists', ?_, ?_, ?_, hmoved.trans hchange⟩
  · unfold FindState.pageToFull
    rw [hinFull, hxheap]
    dsimp only at hcollect ⊢
    rw [if_neg Bool.false_ne_true]
    show (match pageFreeCollect (st.fields page) false with
      | none => none
      | some fields => some _) = some _
    rw [hcollect]
    rfl
  · rw [hlists', Function.update_of_ne hne, hleft, Function.update_self]
  · intro other hother
    exact Function.update_of_ne hother _ _

end FindOk

/-! ## The loop -/

/-- A page that can serve a request, after an extension if need be. -/
def Usable (fields : PageFields) : Prop :=
  fields.free ≠ none ∨ fields.capacity < fields.reserved

theorem bestCandidate_cases (st : FindState) (page : ℕ)
    (candidate : Option ℕ) : bestCandidate st page candidate = page ∨
      candidate = some (bestCandidate st page candidate) := by
  cases candidate with
  | none => exact Or.inl rfl
  | some best =>
      by_cases hbetter : betterCandidate (st.fields page) (st.fields best) =
          true
      · exact Or.inl (if_pos hbetter)
      · exact Or.inr (congrArg some (if_neg hbetter).symm)

/-- The loop keeps the pages before the one at hand, among them the candidate;
the pages from there on are `rest`. -/
theorem searchPages_spec (hheap : heap ∈ alive) (hb : b ≠ binFull)
    (fuel : ℕ) {kept rest : List ℕ} {candidate : Option ℕ} (count : ℕ)
    (h : FindOk live alive st lists)
    (hlist : lists (heap, b) = kept ++ rest) (hfuel : rest.length ≤ fuel)
    (hcandidate : ∀ best, candidate = some best →
      best ∈ kept ∧ Usable (st.fields best)) :
    ∃ page candidate' st' lists' log,
      searchPages (heap, b) fuel rest.head? candidate count st =
        some (page, candidate', st') ∧
      FindChange live alive st st' lists lists' log ∧
      (candidate' = none → page = none) ∧
      ∀ best, candidate' = some best →
        best ∈ lists' (heap, b) ∧ Usable (st'.fields best) := by
  induction rest generalizing fuel kept candidate count st lists with
  | nil =>
      refine ⟨none, candidate, st, lists, [], ?_, .refl h, fun _ => rfl, ?_⟩
      · unfold searchPages
        rfl
      · intro best hbest
        obtain ⟨hmem, husable⟩ := hcandidate best hbest
        rw [hlist]
        exact ⟨List.mem_append_left _ hmem, husable⟩
  | cons page rest ih =>
      cases fuel with
      | zero => exact absurd hfuel (by simp)
      | succ fuel =>
      have hqueue := h.law.isQueue hheap b
      have hnodup := hqueue.nodup
      rw [hlist] at hqueue hnodup
      have hnext := hqueue.next_eq
      have hpage : page ∈ lists (heap, b) := by
        rw [hlist]
        exact List.mem_append_right _ List.mem_cons_self
      have hout : page ∉ kept := fun hmem =>
        (List.disjoint_of_nodup_append hnodup) hmem List.mem_cons_self
      obtain ⟨fields, free, localFree, hcollect, hpart, hchange⟩ :=
        h.collect hpage
      have hself : (st.setFields page fields).fields page = fields :=
        Function.update_self _ _ _
      have hkeep : ∀ best, candidate = some best → best ∈ kept ∧
          Usable ((st.setFields page fields).fields best) := by
        intro best hbest
        obtain ⟨hmem, husable⟩ := hcandidate best hbest
        have hne : best ≠ page := by
          rintro rfl
          exact hout hmem
        have hother : (st.setFields page fields).fields best =
            st.fields best := Function.update_of_ne hne _ _
        rw [hother]
        exact ⟨hmem, husable⟩
      have hrest : rest.length ≤ fuel := Nat.le_of_succ_le_succ hfuel
      rw [List.head?_cons]
      unfold searchPages
      dsimp only
      rw [hcollect]
      dsimp only
      by_cases hfull : (!fields.free.isSome && !pageIsExpandable fields) =
          true
      · rw [if_pos hfull]
        have hspec : fields.free = none ∧
            fields.capacity = fields.reserved := by
          have hle := hpart.capacity_le
          simp [pageIsExpandable] at hfull
          exact ⟨hfull.1, by omega⟩
        obtain ⟨st₁, lists₁, hmove, herase, hfields, hmoved⟩ :=
          hchange.ok.pageToFull hheap hb hpage
            (by rw [hself]; exact hspec.1) (by rw [hself]; exact hspec.2)
        rw [hmove, hnext]
        dsimp only
        have hlist₁ : lists₁ (heap, b) = kept ++ rest := by
          rw [herase, hlist, List.erase_append_right _ hout,
            List.erase_cons_head]
        have hcandidate₁ : ∀ best, candidate = some best →
            best ∈ kept ∧ Usable (st₁.fields best) := by
          intro best hbest
          obtain ⟨hmem, husable⟩ := hkeep best hbest
          have hne : best ≠ page := by
            rintro rfl
            exact hout hmem
          rw [hfields best hne]
          exact ⟨hmem, husable⟩
        obtain ⟨page', candidate', st', lists', log, hrun, hlast, hnone,
          hbest⟩ := ih fuel (count + 1) hmoved.ok hlist₁ hrest hcandidate₁
        exact ⟨page', candidate', st', lists', _, hrun,
          (hchange.trans hmoved).trans hlast, hnone, hbest⟩
      · rw [if_neg hfull]
        have husable : Usable fields := by
          unfold Usable
          by_contra hnot
          obtain ⟨hfree, hcapacity⟩ := not_or.mp hnot
          apply hfull
          rw [not_not.mp hfree]
          simpa [pageIsExpandable] using hcapacity
        set best := bestCandidate (st.setFields page fields) page candidate
          with hbestDef
        have hbest : best ∈ kept ++ [page] ∧
            Usable ((st.setFields page fields).fields best) := by
          have hmine : page ∈ kept ++ [page] ∧
              Usable ((st.setFields page fields).fields page) := by
            rw [hself]
            exact ⟨List.mem_append_right _ (List.mem_singleton_self page),
              husable⟩
          rcases bestCandidate_cases (st.setFields page fields) page
            candidate with hnew | hold
          · rw [hbestDef, hnew]
            exact hmine
          · obtain ⟨hmem, hold⟩ := hkeep best hold
            exact ⟨List.mem_append_left _ hmem, hold⟩
        have hlist₁ : lists (heap, b) = (kept ++ [page]) ++ rest := by
          rw [hlist, List.append_assoc]
          rfl
        by_cases hstop : (fields.free.isSome || decide (maxCandidateSearch <
            if candidate.isNone then 0 else count + 1)) = true
        · rw [if_pos hstop]
          refine ⟨some page, some best, _, lists, [], rfl, hchange,
            fun hnone => (nomatch hnone), ?_⟩
          intro best' hbest'
          obtain rfl := Option.some.inj hbest'
          rw [hlist₁]
          exact ⟨List.mem_append_left _ hbest.1, hbest.2⟩
        · rw [if_neg hstop, hnext]
          obtain ⟨page', candidate', st', lists', log, hrun, hlast, hnone,
            hfound⟩ := ih fuel (if candidate.isNone then 0 else count + 1)
              hchange.ok hlist₁ hrest (by
                intro best' hbest'
                obtain rfl := Option.some.inj hbest'
                exact hbest)
          exact ⟨page', candidate', st', lists', _, hrun,
            hchange.trans hlast, hnone, hfound⟩

/-! ## Retired pages -/

namespace FindOk

/-- A page without a block in use leaves its queue for good. -/
theorem pageFree (hlayer : layer.Sound live alive)
    (h : FindOk live alive st lists) (hheap : heap ∈ alive)
    (hpage : page ∈ lists (heap, b)) (hlive : live page = []) :
    FindChange live alive st (pageFree layer st (heap, b) page) lists
      (Function.update lists (heap, b) ((lists (heap, b)).erase page))
      [.freed page] := by
  have hflags := h.setFlags hpage false (st.fields page).retireExpire
  have hlaw := h.law.remove hheap hpage
  have hevents : ∀ e ∈ [QueueEvent.freed page], e.Ok live := by
    intro e he
    rw [List.mem_singleton.mp he]
    exact hlive
  have hqueued := queuedSet_erase h.law hpage
  have hremoved := hflags.ok.setQueues hlaw hevents hqueued (by
    intro other hother
    rw [hqueued] at hother
    exact Or.inl hother.1)
  obtain ⟨hok, hsame⟩ := hlayer.pageFree _ _ page hremoved.ok
    (h.law.not_mem_erase hpage)
  have hchange := hflags.trans hremoved
  exact ⟨hok, hsame.trans hchange.events, hchange.log_ok, hchange.queued⟩

theorem collectRetiredBin (hlayer : layer.Sound live alive)
    {acc : FindState × ℕ × ℕ} (force : Bool) (bin : ℕ)
    (h : FindOk live alive acc.1 lists) (hheap : heap ∈ alive) :
    ∃ lists' log, FindChange live alive acc.1
      (collectRetiredBin layer heap force acc bin).1 lists lists' log := by
  unfold Palloc.collectRetiredBin
  dsimp only
  split
  · exact ⟨lists, [], .refl h⟩
  · next page hfirst =>
      have hpage : page ∈ lists (heap, bin) := by
        apply List.mem_of_head? 
        rw [← (h.law.isQueue hheap bin).first]
        exact hfirst
      obtain ⟨free, localFree, thread, hpart⟩ :=
        h.partition _ page hpage
      have hflags := fun expire =>
        h.setFlags hpage (acc.1.fields page).hasAligned expire
      split
      · exact ⟨lists, [], .refl h⟩
      · split
        · next hused =>
            have hlive : live page = [] := by
              have hcount := hpart.used_eq
              apply List.eq_nil_of_length_eq_zero
              omega
            split
            · exact ⟨_, _, (hflags _).trans
                ((hflags _).ok.pageFree hlayer hheap hpage hlive)⟩
            · exact ⟨_, _, hflags _⟩
        · exact ⟨_, _, hflags 0⟩

theorem collectRetiredBins (hlayer : layer.Sound live alive) (force : Bool)
    (bins : List ℕ) (acc : FindState × ℕ × ℕ)
    (h : FindOk live alive acc.1 lists) (hheap : heap ∈ alive) :
    ∃ lists' log, FindChange live alive acc.1
      (bins.foldl (Palloc.collectRetiredBin layer heap force) acc).1 lists
      lists' log := by
  induction bins generalizing acc lists with
  | nil => exact ⟨lists, [], .refl h⟩
  | cons bin bins ih =>
      obtain ⟨lists₁, log₁, hfirst⟩ := h.collectRetiredBin hlayer force bin
        hheap
      obtain ⟨lists₂, log₂, hrest⟩ := ih _ hfirst.ok
      exact ⟨lists₂, _, hfirst.trans hrest⟩

theorem heapCollectRetired (hlayer : layer.Sound live alive) (force : Bool)
    (h : FindOk live alive st lists) (hheap : heap ∈ alive) :
    ∃ lists' log, FindChange live alive st
      (heapCollectRetired layer heap force st) lists lists' log := by
  obtain ⟨lists', log, hchange⟩ := h.collectRetiredBins hlayer force
    (List.range' (st.retired heap).1
      ((st.retired heap).2 + 1 - (st.retired heap).1)) (st, binFull, 0) hheap
  exact ⟨lists', log, ⟨hchange.ok.law, hchange.ok.partition⟩, hchange.events,
    hchange.log_ok, hchange.queued⟩

/-! ## The page that is returned -/

/-- A fresh page becomes the first of its queue. -/
theorem pushFresh (h : FindOk live alive st lists) (hheap : heap ∈ alive)
    (hb : ServedBin b) (hout : ∀ queue, page ∉ lists queue)
    (hxheap : st.queues.xheap page = heap)
    (hfree : (st.fields page).free ≠ none)
    (hpart : ∃ free localFree thread,
      PagePartition (st.fields page) (live page) free localFree thread) :
    ∃ lists', FoundPage live alive (heap, b) st
      { st.record (.fresh page) with
        queues := st.queues.pageQueuePush heap (heap, b) page } (some page)
      lists lists' [.fresh page] := by
  have hlaw := h.law.push hheap hb hxheap hout
  set lists' := Function.update lists (heap, b) (page :: lists (heap, b))
    with hlists'
  have hhead : (lists' (heap, b)).head? = some page := by
    rw [hlists', Function.update_self]
    rfl
  have hqueued : queuedSet lists' = insert page (queuedSet lists) :=
    queuedSet_insert fun other => List.mem_cons
  have hevents : ∀ e ∈ [QueueEvent.fresh page], e.Ok live := by
    intro e he
    rw [List.mem_singleton.mp he]
    trivial
  have hchange := h.setQueues hlaw hevents hqueued (by
    intro other hother
    rw [hqueued] at hother
    rcases hother with rfl | hold
    · exact Or.inr hpart
    · exact Or.inl hold)
  refine ⟨lists', hchange, ?_⟩
  intro other hother
  obtain rfl := Option.some.inj hother
  refine ⟨hfree, hhead, ?_⟩
  exact ((hlaw.isQueue hheap b).first).trans hhead

/-- The candidate gets free blocks if it has none, and becomes the first of
its queue. -/
theorem moveCandidate (h : FindOk live alive st lists) (hheap : heap ∈ alive)
    (hpage : page ∈ lists (heap, b)) (husable : Usable (st.fields page))
    (random : BitVec 64) :
    ∃ fields lists',
      (if (st.fields page).free.isSome then some (st.fields page)
        else pageExtendFree cfg random (st.fields page)) = some fields ∧
      FoundPage live alive (heap, b) st
        { st.setFields page { fields with retireExpire := 0 } with
          queues := st.queues.pageQueueMoveToFront heap (heap, b) page }
        (some page) lists lists' [] := by
  obtain ⟨free, localFree, thread, hpart⟩ := h.partition _ page hpage
  have hextended : ∃ fields free,
      (if (st.fields page).free.isSome then some (st.fields page)
        else pageExtendFree cfg random (st.fields page)) = some fields ∧
      fields.free ≠ none ∧
      PagePartition fields (live page) free localFree thread := by
    by_cases hfree : (st.fields page).free.isSome = true
    · exact ⟨st.fields page, free, if_pos hfree,
        Option.isSome_iff_ne_none.mp hfree, hpart⟩
    · have hnone : (st.fields page).free = none :=
        Option.not_isSome_iff_eq_none.mp hfree
      have hcapacity : (st.fields page).capacity <
          (st.fields page).reserved :=
        husable.resolve_left fun hne => hne hnone
      obtain ⟨fields, l, hrun, hpart', hnonempty⟩ :=
        hpart.extendFree cfg random
      refine ⟨fields, l ++ free, (if_neg hfree).trans hrun, ?_, hpart'⟩
      intro hnil
      apply hnonempty hcapacity
      have hchain := hpart'.free_chain
      rw [hnil] at hchain
      exact hchain.eq_nil
  obtain ⟨fields, free', hrun, hfree, hpart'⟩ := hextended
  have hset := @FindOk.setFields live alive st lists page
    { fields with retireExpire := 0 } h ⟨free', localFree, thread,
      hpart'.free_chain, hpart'.local_chain, hpart'.thread_chain,
      hpart'.blocks, hpart'.used_eq, hpart'.capacity_le, hpart'.reserved_lt,
      hpart'.blockSize_pos⟩
  have hlaw := h.law.moveToFront hheap hpage
  set lists' := Function.update lists (heap, b)
    (page :: (lists (heap, b)).erase page) with hlists'
  have hhead : (lists' (heap, b)).head? = some page := by
    rw [hlists', Function.update_self]
    rfl
  have hqueued : queuedSet lists' = queuedSet lists := by
    have hinsert : queuedSet lists' = insert page (queuedSet lists) := by
      apply queuedSet_insert
      intro other
      rw [List.mem_cons]
      by_cases heq : other = page
      · simp [heq]
      · simp [heq, List.mem_erase_of_ne heq]
    rw [hinsert]
    exact Set.insert_eq_of_mem ⟨_, hpage⟩
  have hnoEvents : ∀ e ∈ ([] : List QueueEvent), e.Ok live :=
    fun _ he => (nomatch he)
  have hchange := hset.ok.setQueues hlaw hnoEvents
    (show queuedSet lists' = queuedAfter [] (queuedSet lists) from hqueued)
    (fun other hother => Or.inl (hqueued ▸ hother))
  refine ⟨fields, lists', hrun, ⟨⟨hchange.ok.law, hchange.ok.partition⟩,
    (List.append_nil _).symm, hnoEvents, hqueued⟩, ?_⟩
  intro other hother
  obtain rfl := Option.some.inj hother
  refine ⟨?_, hhead, ((hlaw.isQueue hheap b).first).trans hhead⟩
  show (Function.update st.fields page { fields with retireExpire := 0 }
    page).free ≠ none
  rw [Function.update_self]
  exact hfree

/-! ## The search -/

theorem length_le (h : FindOk live alive st lists) (hheap : heap ∈ alive)
    (hb : ServedBin b) :
    (lists (heap, b)).length ≤ st.queues.pageCount heap := by
  rw [h.law.count heap hheap]
  exact Finset.single_le_sum (f := fun c => (lists (heap, c)).length)
    (fun c _ => Nat.zero_le _) (Finset.mem_range.mpr hb.cases.1)

theorem findFreeBody (hlayer : layer.Sound live alive)
    {again : FindState → Option (Option ℕ × FindState)}
    (hagain : ∀ st lists, FindOk live alive st lists →
      ∃ result st' lists' log, again st = some (result, st') ∧
        FoundPage live alive (heap, b) st st' result lists lists' log)
    (h : FindOk live alive st lists) (hheap : heap ∈ alive)
    (hb : ServedBin b) (hfull : b ≠ binFull) (random : BitVec 64) :
    ∃ result st' lists' log,
      findFreeBody cfg layer random again heap b st = some (result, st') ∧
        FoundPage live alive (heap, b) st st' result lists lists' log := by
  have hfirst := (h.law.isQueue hheap b).first
  obtain ⟨page, candidate, st₁, lists₁, log₁, hsearch, hchange, hnone,
    hcandidate⟩ := @searchPages_spec live alive st lists heap b hheap hfull
      (st.queues.pageCount heap) [] (lists (heap, b)) none 0 h rfl
      (h.length_le hheap hb) (fun _ hbest => (nomatch hbest))
  unfold Palloc.findFreeBody
  rw [hfirst, hsearch]
  dsimp only
  cases hcase : candidate with
  | some best =>
      obtain ⟨hbest, husable⟩ := hcandidate best hcase
      obtain ⟨fields, lists₂, hrun, hfound⟩ := @moveCandidate cfg live alive
        st₁ lists₁ heap b best hchange.ok hheap hbest husable random
      rw [Option.some_or]
      dsimp only
      rw [hrun]
      exact ⟨_, _, lists₂, _, rfl, hchange.trans hfound.toFindChange,
        hfound.found⟩
  | none =>
      rw [hnone hcase]
      obtain ⟨lists₂, log₂, hretired⟩ :=
        hchange.ok.heapCollectRetired hlayer false hheap
      obtain ⟨lists₃, log₃, hlayer', hsegment, hfresh⟩ :=
        hlayer.freshPage _ _ heap b hretired.ok hheap
      have hso := (hchange.trans hretired).trans hlayer'
      rw [Option.or_none]
      dsimp only
      generalize layer.freshPage (Palloc.heapCollectRetired layer heap false
        st₁) (heap, b) = answer at hlayer' hfresh hso ⊢
      obtain ⟨result, st₃⟩ := answer
      cases result with
      | none =>
          obtain ⟨result, st₄, lists₄, log₄, hrun, hfound⟩ :=
            hagain st₃ lists₃ hlayer'.ok
          exact ⟨result, st₄, lists₄, _, hrun,
            hso.trans hfound.toFindChange, hfound.found⟩
      | some page =>
          obtain ⟨hout, hxheap, hfree, hpart⟩ := hfresh page rfl
          obtain ⟨lists₄, hfound⟩ := hlayer'.ok.pushFresh hheap hb hout
            hxheap hfree hpart
          exact ⟨_, _, lists₄, _, rfl, hso.trans hfound.toFindChange,
            hfound.found⟩

end FindOk

/-- The search returns, and a page that it returns has a free block and is
the first of its queue. -/
theorem find_free_page (cfg : Config) (random : Bool → BitVec 64)
    (firstTry : Bool) (hlayer : layer.Sound live alive)
    (h : FindOk live alive st lists) (hheap : heap ∈ alive)
    (hb : ServedBin b) (hfull : b ≠ binFull) :
    ∃ result st' lists' log,
      pageQueueFindFreeEx cfg layer random heap b firstTry st =
        some (result, st') ∧
      FoundPage live alive (heap, b) st st' result lists lists' log := by
  have hsecond : ∀ st lists, FindOk live alive st lists →
      ∃ result st' lists' log,
        findFreeBody cfg layer (random false) (fun st => some (none, st))
          heap b st = some (result, st') ∧
        FoundPage live alive (heap, b) st st' result lists lists' log := by
    intro st lists h
    apply h.findFreeBody hlayer _ hheap hb hfull
    intro st lists h
    exact ⟨none, st, lists, [], rfl, .refl h, fun _ hnone => (nomatch hnone)⟩
  cases firstTry with
  | false => exact hsecond st lists h
  | true => exact h.findFreeBody hlayer hsecond hheap hb hfull _

/-! ## Two pages in a queue -/

section TwoPages

def noSegments : SegmentLayer where
  pageFree st _ := st
  freshPage st _ := (none, st)

theorem noSegments_sound : noSegments.Sound live alive where
  pageFree _ _ _ h _ := ⟨h, rfl⟩
  freshPage _ lists _ _ h _ :=
    ⟨lists, [], .refl h, fun _ he => (nomatch he), fun _ hpage =>
      (nomatch hpage)⟩

/-- A page after `n` allocations, and its live blocks. -/
def takeBlocks : ℕ → PageFields × List Addr → Option (PageFields × List Addr)
  | 0, st => some st
  | n + 1, (page, live) =>
      match pageMallocZero {} page false with
      | some (block, page) => takeBlocks n (page, block :: live)
      | none => none

theorem takeBlocks_reachable {n : ℕ} {st st' : PageFields × List Addr}
    (h : PageReachable {} st.1 st.2) (htake : takeBlocks n st = some st') :
    PageReachable {} st'.1 st'.2 := by
  induction n generalizing st with
  | zero =>
      cases htake
      exact h
  | succ n ih =>
      obtain ⟨page, live⟩ := st
      unfold takeBlocks at htake
      cases hmalloc : pageMallocZero {} page false with
      | none =>
          rw [hmalloc] at htake
          cases htake
      | some result =>
          rw [hmalloc] at htake
          exact @ih (result.2, result.1 :: live) (.step h (.malloc hmalloc))
            htake

/-- The first page with all its eight blocks in use; four are carved at a
time. -/
def takeAll : Option (PageFields × List Addr) :=
  (takeBlocks 4 (firstPage, [])).bind fun st =>
    (pageExtendFree {} 0 st.1).bind fun page => takeBlocks 4 (page, st.2)

def fullPage : PageFields × List Addr := takeAll.getD (firstPage, [])

theorem fullPage_reachable : PageReachable {} fullPage.1 fullPage.2 := by
  have hsome : takeAll.isSome = true := by decide +kernel
  obtain ⟨full, hfull⟩ := Option.isSome_iff_exists.mp hsome
  have htake := hfull
  simp only [takeAll, Option.bind_eq_some_iff] at htake
  obtain ⟨st, hfour, page, hextend, hfour'⟩ := htake
  have hreach := @takeBlocks_reachable 4 (firstPage, []) st
    firstPage_reachable hfour
  have hextended := @takeBlocks_reachable 4 (page, st.2) full
    (.step hreach (.extendFree hextend)) hfour'
  rw [fullPage, hfull]
  exact hextended

/-- A heap with two pages for blocks of 8 KiB: page 8 is full and page 7 behind
it has free blocks. -/
def findStart : FindState where
  queues := ((noQueues.initHeap 0).pageQueuePush 0 (0, bin 8192) 7
    ).pageQueuePush 0 (0, bin 8192) 8
  fields page := if page = 8 then fullPage.1 else firstPage
  retired _ := (binFull, 0)
  events := []

def findLive (page : ℕ) : List Addr := if page = 8 then fullPage.2 else []

theorem findStart_ok : ∃ lists, FindOk findLive {0} findStart lists := by
  have hserved : ServedBin (bin 8192) := Or.inr ⟨8192, rfl⟩
  have hstart := (@queueLaw_start noQueues fun _ => rfl).initHeap
    (Finset.notMem_empty 0)
  have hone : QueueLaw ((noQueues.initHeap 0).pageQueuePush 0
      (0, bin 8192) 7) (insert 0 ∅) _ _ :=
    hstart.push (Finset.mem_insert_self 0 ∅) hserved rfl
      fun _ => List.not_mem_nil
  have htwo : QueueLaw findStart.queues (insert 0 ∅) _ _ :=
    hone.push (Finset.mem_insert_self 0 ∅) hserved rfl fun queue hmem => by
      by_cases hqueue : queue = (0, bin 8192)
      · simp [hqueue] at hmem
      · simp [hqueue] at hmem
  refine ⟨_, htwo, fun _ page _ => ?_⟩
  by_cases hpage : page = 8
  · simpa [findStart, findLive, hpage] using fullPage_reachable.partition
  · simpa [findStart, findLive, hpage] using firstPage_reachable.partition

/-- The full page leaves the queue, and the other one is found. -/
theorem find_free_page_second : ∃ lists st' lists' log,
    pageQueueFindFreeEx {} noSegments (fun _ => 0) 0 (bin 8192) true
      findStart = some (some 7, st') ∧ st'.events.length = 1 ∧
    FoundPage findLive {0} (0, bin 8192) findStart st' (some 7) lists lists'
      log := by
  obtain ⟨lists, h⟩ := findStart_ok
  obtain ⟨result, st', lists', log, hrun, hfound⟩ :=
    find_free_page {} (fun _ => 0) true noSegments_sound h
      (Finset.mem_singleton_self 0) (Or.inr ⟨8192, rfl⟩) (by decide)
  have hresult : (pageQueueFindFreeEx {} noSegments (fun _ => 0) 0 (bin 8192)
      true findStart).map (fun r => (r.1, r.2.events.length)) =
        some (some 7, 1) := by
    decide +kernel
  rw [hrun] at hresult
  obtain ⟨rfl, hevents⟩ := Prod.mk.inj (Option.some.inj hresult)
  exact ⟨lists, st', lists', log, hrun, hevents, hfound⟩

end TwoPages

end Palloc
