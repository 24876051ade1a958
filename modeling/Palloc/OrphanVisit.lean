import Palloc.OrphanLaw

/-!
# Threads that visit abandoned segments

A thread takes the mark off a segment, and visits it.  When the visit is over
the segment is marked again, or it is a segment of the visiting thread, or it
has been freed.  The loops make such visits one after the other, so they end
in a lawful state too, whatever the segments hold and whichever segments other
threads are visiting.
-/

namespace Palloc

open LinkedQueue IntervalTiling

structure ThreadHeaps (heapTid : ℕ → ℕ) (alive : Finset ℕ) (tid : ℕ)
    (hp : ReclaimHeaps) (heap : ℕ) : Prop where
  thread_ne : tid ≠ 0
  heap_alive : heap ∈ alive
  heap_thread : heapTid heap = tid
  heaps : ∀ other ∈ hp.heaps, other ∈ alive ∧ heapTid other = tid

def AfterVisit (w w' : SegmentWorld) (segment : ℕ)
    (orphans orphans' : Set ℕ) : Prop :=
  orphans' = orphans \ {segment} ∧ w'.marked = w.marked ∨
    orphans' = orphans ∧ w'.marked = Function.update w.marked segment true

/-- Between the steps of the threads the abandoned segments are the marked
ones, and those of which a visiting thread has taken the mark. -/
def SegmentWorld.Lawful (w : SegmentWorld) (visited : Set ℕ)
    (live : ℕ → ℕ → List Addr) (heapTid : ℕ → ℕ) (alive : Finset ℕ) : Prop :=
  (∀ s ∈ visited, w.marked s = false) ∧
    ∃ tiles lists qlists, OrphanLaw w ({s | w.marked s = true} ∪ visited) live
      heapTid alive tiles lists qlists

section Visit

variable {w w' : SegmentWorld} {orphans orphans' : Set ℕ}
  {live : ℕ → ℕ → List Addr} {heapTid : ℕ → ℕ} {alive : Finset ℕ}
  {tiles : ℕ → List (Tile SpanKind)} {lists : ℕ → ℕ → List SlicePtr}
  {qlists : ℕ × ℕ → List ℕ} {tid segment heap : ℕ}

theorem OrphanLaw.congrMarked
    (h : OrphanLaw w orphans live heapTid alive tiles lists qlists)
    (marked : ℕ → Bool) :
    OrphanLaw { w with marked := marked } orphans live heapTid alive tiles
      lists qlists :=
  h.congrSegments rfl rfl rfl rfl (fun _ => .refl _) (fun _ => rfl)
    (fun _ => rfl) fun _ => rfl

theorem OrphanLaw.setInfo
    (h : OrphanLaw w orphans live heapTid alive tiles lists qlists)
    {info : SegmentInfo} (hheader : SameHeader (w.st.segments segment) info)
    (hused : info.used = (w.st.segments segment).used)
    (habandoned : info.abandoned = (w.st.segments segment).abandoned)
    (hdontFree : info.dontFree = (w.st.segments segment).dontFree) :
    OrphanLaw { w with st := w.st.setSegment segment info } orphans live
      heapTid alive tiles lists qlists := by
  have hself := State.setSegment_self w.st segment info
  have hother : ∀ s, s ≠ segment →
      (w.st.setSegment segment info).segments s = w.st.segments s :=
    fun s hs => State.setSegment_ne _ _ hs
  have hsame : ∀ {α : Type} (f : SegmentInfo → α),
      f info = f (w.st.segments segment) → ∀ s,
        f ((w.st.setSegment segment info).segments s) =
          f (w.st.segments s) := by
    intro α f hf s
    by_cases hs : s = segment
    · rw [hs, hself, hf]
    · rw [hother s hs]
  exact h.congrSegments rfl rfl rfl rfl
    (fun s => ⟨hsame _ hheader.kind s, hsame _ hheader.threadId s,
      hsame _ hheader.sliceEntries s⟩)
    (hsame _ hused) (hsame _ habandoned) (hsame _ hdontFree)

/-- The body of the loop of `pa_segment_try_reclaim`. -/
theorem OrphanLaw.tryReclaimVisit
    (h : OrphanLaw w orphans live heapTid alive tiles lists qlists)
    (hsegment : segment ∈ orphans) (cfg : Config) {hp : VisitHeaps}
    (hheaps : ThreadHeaps heapTid alive tid hp.toReclaimHeaps heap)
    (neededSlices blockSize : ℕ) :
    ∃ result w' orphans' tiles' lists' qlists',
      Palloc.tryReclaimVisit cfg hp w tid heap neededSlices blockSize segment =
        some (result, w') ∧
      AfterVisit w w' segment orphans orphans' ∧
      (∀ s right, result = .stop (some s) right →
        s = segment ∧ (w'.st.segments s).threadId = tid) ∧
      OrphanLaw w' orphans' live heapTid alive tiles' lists' qlists' := by
  set info := w.st.segments segment with hinfo
  set w₁ : SegmentWorld := { w with
    st := w.st.setSegment segment
      { info with abandonedVisits := info.abandonedVisits + 1 } } with hw₁
  have h₁ : OrphanLaw w₁ orphans live heapTid alive tiles lists qlists :=
    h.setInfo ⟨rfl, rfl, rfl⟩ rfl rfl rfl
  obtain ⟨st, hasPage, tiles₂, lists₂, hcheck, h₂⟩ :=
    h₁.checkFree hsegment hheaps.thread_ne cfg neededSlices blockSize
  have hreclaim := fun blockSize =>
    h₂.reclaim hsegment hheaps.thread_ne cfg hheaps.heap_alive
      hheaps.heap_thread hheaps.heaps blockSize
  have hcheck' : segmentCheckFree cfg (w.st.setSegment segment
      { info with abandonedVisits := info.abandonedVisits + 1 }) tid segment
        neededSlices blockSize = some (st, hasPage) := hcheck
  have hworld : ({ w₁ with st := st } : SegmentWorld) =
      { w with st := st } := rfl
  rw [hworld] at h₂ hreclaim
  simp only [Palloc.tryReclaimVisit, ← hinfo, hcheck']
  split
  · obtain ⟨kept, right, w', tiles', lists', qlists', hresult, hmarked, -,
      hlaw⟩ := hreclaim 0
    rw [hresult]
    exact ⟨_, w', _, tiles', lists', qlists', rfl, .inl ⟨rfl, hmarked⟩,
      by simp, hlaw⟩
  split
  · obtain ⟨kept, right, w', tiles', lists', qlists', hresult, hmarked,
      hthread, hlaw⟩ := hreclaim blockSize
    rw [hresult]
    refine ⟨_, w', _, tiles', lists', qlists', rfl, .inl ⟨rfl, hmarked⟩, ?_,
      hlaw⟩
    intro s right' hstop
    cases kept with
    | true =>
        simp only [if_true, VisitResult.stop.injEq, Option.some.injEq]
          at hstop
        rw [← hstop.1]
        exact ⟨rfl, hthread⟩
    | false => simp at hstop
  split
  · obtain ⟨kept, right, w', tiles', lists', qlists', hresult, hmarked, -,
      hlaw⟩ := hreclaim 0
    rw [hresult]
    exact ⟨_, w', _, tiles', lists', qlists', rfl, .inl ⟨rfl, hmarked⟩,
      by simp, hlaw⟩
  · exact ⟨_, _, _, _, _, _, rfl, .inr ⟨rfl, rfl⟩, by simp,
      (h₂.tryPurge cfg segment false).congrMarked _⟩

/-- The body of the loop of `_pa_abandoned_collect`. -/
theorem OrphanLaw.collectVisit
    (h : OrphanLaw w orphans live heapTid alive tiles lists qlists)
    (hsegment : segment ∈ orphans) (cfg : Config) {hp : VisitHeaps}
    (hheaps : ThreadHeaps heapTid alive tid hp.toReclaimHeaps heap)
    (force : Bool) :
    ∃ w' orphans' tiles' lists' qlists',
      Palloc.collectVisit cfg hp force w tid heap segment = some w' ∧
      AfterVisit w w' segment orphans orphans' ∧
      OrphanLaw w' orphans' live heapTid alive tiles' lists' qlists' := by
  obtain ⟨st, hasPage, tiles₁, lists₁, hcheck, h₁⟩ :=
    h.checkFree hsegment hheaps.thread_ne cfg 0 0
  simp only [Palloc.collectVisit, hcheck]
  split
  · obtain ⟨kept, right, w', tiles', lists', qlists', hresult, hmarked, -,
      hlaw⟩ :=
      h₁.reclaim hsegment hheaps.thread_ne cfg hheaps.heap_alive
        hheaps.heap_thread hheaps.heaps 0
    rw [hresult]
    exact ⟨w', _, tiles', lists', qlists', rfl, .inl ⟨rfl, hmarked⟩, hlaw⟩
  · exact ⟨_, _, _, _, _, rfl, .inr ⟨rfl, rfl⟩,
      (h₁.tryPurge cfg segment force).congrMarked _⟩

/-- The segment that was visited is marked again or is not abandoned any
more. -/
theorem AfterVisit.lawful {visited : Set ℕ}
    (hvisited : ∀ s ∈ visited, w.marked s = false)
    (hsegment : segment ∈ visited)
    (hafter : AfterVisit w w' segment ({s | w.marked s = true} ∪ visited)
      orphans')
    (h : OrphanLaw w' orphans' live heapTid alive tiles lists qlists) :
    w'.Lawful (visited \ {segment}) live heapTid alive := by
  have hself := hvisited segment hsegment
  have horphans : {s | w'.marked s = true} ∪ visited \ {segment} =
      orphans' := by
    rcases hafter with ⟨rfl, hsame⟩ | ⟨rfl, hsame⟩
    · ext s
      by_cases hs : s = segment
      · subst hs
        simp [hsame, hself]
      · simp [hsame, hs]
    · ext s
      by_cases hs : s = segment
      · subst hs
        simp [hsame, hsegment]
      · simp [hsame, hs]
  refine ⟨?_, tiles, lists, qlists, ?_⟩
  · rintro s ⟨hs, hne⟩
    rcases hafter with ⟨-, hsame⟩ | ⟨-, hsame⟩
    · rw [hsame]
      exact hvisited s hs
    · rw [hsame, Function.update_of_ne hne]
      exact hvisited s hs
  · rw [horphans]
    exact h

end Visit

/-! ## Lawful states -/

namespace SegmentWorld.Lawful

variable {w : SegmentWorld} {visited : Set ℕ} {live : ℕ → ℕ → List Addr}
  {heapTid : ℕ → ℕ} {alive : Finset ℕ} {tid segment heap : ℕ}

/-- `_pa_arena_segment_clear_abandoned`: the thread that has taken the mark
visits the segment. -/
theorem takeMark (h : w.Lawful visited live heapTid alive)
    (hmarked : w.marked segment = true) :
    segment ∉ visited ∧ (w.clearAbandoned segment).Lawful
      (insert segment visited) live heapTid alive := by
  obtain ⟨hvisited, tiles, lists, qlists, hlaw⟩ := h
  have hnot : segment ∉ visited := by
    intro hs
    rw [hvisited segment hs] at hmarked
    cases hmarked
  have horphans : {s | (w.clearAbandoned segment).marked s = true} ∪
      insert segment visited = {s | w.marked s = true} ∪ visited := by
    ext s
    by_cases hs : s = segment
    · subst hs
      simp [hmarked]
    · simp [SegmentWorld.clearAbandoned, hs]
  refine ⟨hnot, ?_, tiles, lists, qlists, ?_⟩
  · rintro s (rfl | hs)
    · exact Function.update_self _ _ _
    · have hne : s ≠ segment := by
        rintro rfl
        exact hnot hs
      exact (Function.update_of_ne hne _ _).trans (hvisited s hs)
  · rw [horphans]
    exact hlaw.congrMarked _

theorem tryReclaimVisit (h : w.Lawful visited live heapTid alive)
    (hsegment : segment ∈ visited) (cfg : Config) {hp : VisitHeaps}
    (hheaps : ThreadHeaps heapTid alive tid hp.toReclaimHeaps heap)
    (neededSlices blockSize : ℕ) :
    ∃ result w', Palloc.tryReclaimVisit cfg hp w tid heap neededSlices
        blockSize segment = some (result, w') ∧
      (∀ s right, result = .stop (some s) right →
        s = segment ∧ (w'.st.segments s).threadId = tid) ∧
      w'.Lawful (visited \ {segment}) live heapTid alive := by
  obtain ⟨hvisited, tiles, lists, qlists, hlaw⟩ := h
  obtain ⟨result, w', orphans', tiles', lists', qlists', hresult, hafter,
    hstop, hlaw'⟩ := hlaw.tryReclaimVisit (.inr hsegment) cfg hheaps
      neededSlices blockSize
  exact ⟨result, w', hresult, hstop, hafter.lawful hvisited hsegment hlaw'⟩

theorem collectVisit (h : w.Lawful visited live heapTid alive)
    (hsegment : segment ∈ visited) (cfg : Config) {hp : VisitHeaps}
    (hheaps : ThreadHeaps heapTid alive tid hp.toReclaimHeaps heap)
    (force : Bool) :
    ∃ w', Palloc.collectVisit cfg hp force w tid heap segment = some w' ∧
      w'.Lawful (visited \ {segment}) live heapTid alive := by
  obtain ⟨hvisited, tiles, lists, qlists, hlaw⟩ := h
  obtain ⟨w', orphans', tiles', lists', qlists', hresult, hafter, hlaw'⟩ :=
    hlaw.collectVisit (.inr hsegment) cfg hheaps force
  exact ⟨w', hresult, hafter.lawful hvisited hsegment hlaw'⟩

theorem reclaim (h : w.Lawful visited live heapTid alive)
    (hsegment : segment ∈ visited) (cfg : Config) {hp : ReclaimHeaps}
    (hheaps : ThreadHeaps heapTid alive tid hp heap) (blockSize : ℕ) :
    ∃ kept right w', segmentReclaim cfg hp w tid heap segment blockSize =
        some (kept, right, w') ∧ w'.marked = w.marked ∧
      w'.Lawful (visited \ {segment}) live heapTid alive := by
  obtain ⟨hvisited, tiles, lists, qlists, hlaw⟩ := h
  obtain ⟨kept, right, w', tiles', lists', qlists', hresult, hsame, -, hlaw'⟩ :=
    hlaw.reclaim (.inr hsegment) hheaps.thread_ne cfg hheaps.heap_alive
      hheaps.heap_thread hheaps.heaps blockSize
  have hafter : AfterVisit w w' segment ({s | w.marked s = true} ∪ visited)
      (({s | w.marked s = true} ∪ visited) \ {segment}) := .inl ⟨rfl, hsame⟩
  exact ⟨kept, right, w', hresult, hsame,
    hafter.lawful hvisited hsegment hlaw'⟩

/-- A thread takes a marked segment. -/
theorem reclaimMarked (h : w.Lawful visited live heapTid alive)
    (hmarked : w.marked segment = true) (cfg : Config) {hp : ReclaimHeaps}
    (hheaps : ThreadHeaps heapTid alive tid hp heap) (blockSize : ℕ) :
    ∃ kept right w', segmentReclaim cfg hp (w.clearAbandoned segment) tid heap
        segment blockSize = some (kept, right, w') ∧
      w'.marked = Function.update w.marked segment false ∧
      w'.Lawful visited live heapTid alive := by
  obtain ⟨hnot, htaken⟩ := h.takeMark hmarked
  obtain ⟨kept, right, w', hresult, hsame, hlaw⟩ :=
    htaken.reclaim (Set.mem_insert _ _) cfg hheaps blockSize
  rw [Set.insert_sdiff_self_of_notMem hnot] at hlaw
  exact ⟨kept, right, w', hresult, hsame, hlaw⟩

theorem attemptReclaim (h : w.Lawful visited live heapTid alive)
    (cfg : Config) {hp : VisitHeaps}
    (hheaps : ThreadHeaps heapTid alive tid hp.toReclaimHeaps heap)
    (target : ℤ) (sameSubproc : Bool) (segment : ℕ) :
    ∃ result w', segmentAttemptReclaim cfg hp target sameSubproc w tid heap
        segment = some (result, w') ∧
      w'.Lawful visited live heapTid alive := by
  have hstay : ∃ result w', some (false, w) = some (result, w') ∧
      SegmentWorld.Lawful w' visited live heapTid alive := ⟨false, w, rfl, h⟩
  unfold segmentAttemptReclaim
  dsimp only
  split
  · exact hstay
  split
  · exact hstay
  split
  · exact hstay
  split
  · exact hstay
  split
  · exact hstay
  split
  · next hmarked =>
      obtain ⟨kept, right, w', hresult, -, hlaw⟩ :=
        h.reclaimMarked hmarked cfg hheaps 0
      rw [hresult]
      exact ⟨kept, w', rfl, hlaw⟩
  · exact hstay

/-- The loop of `pa_segment_try_reclaim` ends. -/
theorem segmentTryReclaim (h : w.Lawful visited live heapTid alive)
    (cfg : Config) {hp : VisitHeaps}
    (hheaps : ThreadHeaps heapTid alive tid hp.toReclaimHeaps heap)
    (target : ℤ) (neededSlices blockSize : ℕ) (cursor : List ℕ)
    (maxTries : ℤ) :
    ∃ result reclaimed w', Palloc.segmentTryReclaim cfg hp target tid heap
        neededSlices blockSize cursor maxTries w =
          some ((result, reclaimed), w') ∧
      (∀ s, result = some s →
        s ∈ cursor ∧ (w'.st.segments s).threadId = tid) ∧
      w'.Lawful visited live heapTid alive := by
  induction cursor generalizing w maxTries with
  | nil => exact ⟨none, false, w, rfl, by simp, h⟩
  | cons segment cursor ih =>
      unfold Palloc.segmentTryReclaim
      split
      · split
        · next hmarked =>
            obtain ⟨hnot, htaken⟩ := h.takeMark hmarked
            obtain ⟨visit, w₁, hvisit, hstop, h₁⟩ := htaken.tryReclaimVisit
              (Set.mem_insert _ _) cfg hheaps neededSlices blockSize
            rw [Set.insert_sdiff_self_of_notMem hnot] at h₁
            rw [hvisit]
            cases visit with
            | stop result right =>
                refine ⟨result, right, w₁, rfl, ?_, h₁⟩
                rintro s rfl
                obtain ⟨rfl, hthread⟩ := hstop s right rfl
                exact ⟨List.mem_cons_self, hthread⟩
            | next counts =>
                obtain ⟨result, reclaimed, w', hloop, howned, hlaw⟩ := ih h₁ _
                exact ⟨result, reclaimed, w', hloop, fun s hs =>
                  ⟨List.mem_cons_of_mem _ (howned s hs).1, (howned s hs).2⟩,
                  hlaw⟩
        · obtain ⟨result, reclaimed, w', hloop, howned, hlaw⟩ := ih h _
          exact ⟨result, reclaimed, w', hloop, fun s hs =>
            ⟨List.mem_cons_of_mem _ (howned s hs).1, (howned s hs).2⟩, hlaw⟩
      · exact ⟨none, false, w, rfl, by simp, h⟩

/-- The loop of `_pa_abandoned_collect` ends. -/
theorem abandonedCollect (h : w.Lawful visited live heapTid alive)
    (cfg : Config) {hp : VisitHeaps}
    (hheaps : ThreadHeaps heapTid alive tid hp.toReclaimHeaps heap)
    (force : Bool) (cursor : List ℕ) (maxTries : ℤ) :
    ∃ w', Palloc.abandonedCollect cfg hp force tid heap cursor maxTries w =
        some w' ∧ w'.Lawful visited live heapTid alive := by
  induction cursor generalizing w maxTries with
  | nil => exact ⟨w, rfl, h⟩
  | cons segment cursor ih =>
      unfold Palloc.abandonedCollect
      split
      · split
        · next hmarked =>
            obtain ⟨hnot, htaken⟩ := h.takeMark hmarked
            obtain ⟨w₁, hvisit, h₁⟩ := htaken.collectVisit
              (Set.mem_insert _ _) cfg hheaps force
            rw [Set.insert_sdiff_self_of_notMem hnot] at h₁
            rw [hvisit]
            exact ih h₁ _
        · exact ih h _
      · exact ⟨w, rfl, h⟩

/-- The loop of `_pa_abandoned_reclaim_all` ends, and no segment that it came
to is abandoned any more. -/
theorem abandonedReclaimAll (h : w.Lawful visited live heapTid alive)
    (cfg : Config) {hp : VisitHeaps}
    (hheaps : ThreadHeaps heapTid alive tid hp.toReclaimHeaps heap)
    (cursor : List ℕ) :
    ∃ w', Palloc.abandonedReclaimAll cfg hp tid heap cursor w = some w' ∧
      (∀ s, w'.marked s = true ↔ w.marked s = true ∧ s ∉ cursor) ∧
      w'.Lawful visited live heapTid alive := by
  induction cursor generalizing w with
  | nil => exact ⟨w, rfl, by simp, h⟩
  | cons segment cursor ih =>
      unfold Palloc.abandonedReclaimAll
      split
      · next hmarked =>
          obtain ⟨kept, right, w₁, hresult, hsame, h₁⟩ :=
            h.reclaimMarked hmarked cfg hheaps 0
          rw [hresult]
          obtain ⟨w', hloop, hmarks, hlaw⟩ := ih h₁
          refine ⟨w', hloop, ?_, hlaw⟩
          intro s
          rw [hmarks, hsame, List.mem_cons]
          by_cases hs : s = segment
          · simp [hs]
          · simp [hs]
      · next hmarked =>
          obtain ⟨w', hloop, hmarks, hlaw⟩ := ih h
          refine ⟨w', hloop, ?_, hlaw⟩
          intro s
          rw [hmarks, List.mem_cons]
          by_cases hs : s = segment
          · simp [hs, hmarked]
          · simp [hs]

end SegmentWorld.Lawful

end Palloc
