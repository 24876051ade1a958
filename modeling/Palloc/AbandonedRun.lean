import Palloc.AbandonedCursor

/-!
# Runs of the registries of abandoned segments

A visit from any reachable state goes through the segments of its sub-process
and ends.  The states between its steps are reachable too, so the counters are
right at all of them.
-/

namespace Palloc

open BitFields LinkedQueue

/-! ## What a fresh cursor visits -/

section Visit

variable {st : AbandonState} {lists : ℕ → List ℕ}

theorem exists_arenaAt {arenaIdx start : ℕ} (hstart : start < st.arenaCount)
    (harena : arenaIdx < st.arenaCount) :
    ∃ k, start ≤ k ∧ k < start + st.arenaCount ∧ st.arenaAt k = arenaIdx := by
  by_cases hle : start ≤ arenaIdx
  · refine ⟨arenaIdx, hle, by omega, ?_⟩
    rw [arenaAt_eq_mod, Nat.mod_eq_of_lt harena]
  · refine ⟨arenaIdx + st.arenaCount, by omega, by omega, ?_⟩
    rw [arenaAt_eq_mod, Nat.add_mod_right, Nat.mod_eq_of_lt harena]

theorem mem_marksAhead_of_mine {subproc left start k c : ℕ}
    (hmine : st.mine subproc (st.arenaAt k, c) = true) (hlo : start ≤ k)
    (hhi : k < start + left) (hc : c < 64 * st.fields (st.arenaAt k)) :
    SegmentId.arena (st.arenaAt k) c ∈ st.marksAhead subproc left start 0 := by
  induction left generalizing start with
  | zero => omega
  | succ left ih =>
      unfold AbandonState.marksAhead
      rw [List.mem_append]
      by_cases hk : k = start
      · left
        rw [← hk]
        apply List.mem_map_of_mem
        rw [List.mem_filter, List.mem_range'_1]
        exact ⟨by omega, hmine⟩
      · right
        exact ih (by omega) (by omega)

theorem marksAhead_nodup {subproc left start bitmapIdx : ℕ}
    (hleft : left ≤ st.arenaCount) :
    (st.marksAhead subproc left start bitmapIdx).Nodup := by
  induction left generalizing start bitmapIdx with
  | zero => exact List.nodup_nil
  | succ left ih =>
      unfold AbandonState.marksAhead
      rw [List.nodup_append]
      refine ⟨?_, ih (by omega), ?_⟩
      · apply List.Nodup.map
        · intro b c heq
          exact (SegmentId.arena.inj heq).2
        · exact (List.nodup_range').filter _
      · intro segment hsegment other hother heq
        subst heq
        obtain ⟨b, -, rfl⟩ := List.mem_map.mp hsegment
        obtain ⟨k, c, hlo, hhi, -, hsame, -⟩ := mem_marksAhead hother
        have harena := (SegmentId.arena.inj hsame).1
        have hwindow : start + (left + 1) ≤ start + st.arenaCount := by omega
        exact arenaAt_ne hwindow (by omega) (by omega) harena.symm

theorem arena_mem_marksAhead_iff {subproc start i b : ℕ}
    (h : AbandonLaw st lists) (hstart : start < st.arenaCount) :
    SegmentId.arena i b ∈ st.marksAhead subproc st.arenaCount start 0 ↔
      st.mine subproc (i, b) = true := by
  constructor
  · intro hmem
    obtain ⟨k, c, -, -, -, hsame, hmine⟩ := mem_marksAhead hmem
    rw [SegmentId.arena.injEq] at hsame
    rw [hsame.1, hsame.2]
    exact hmine
  · intro hmine
    have hbit := ((Bool.and_eq_true _ _).mp hmine).1
    obtain ⟨harena, hlt⟩ := h.inRange i b hbit
    obtain ⟨k, hlo, hhi, rfl⟩ := exists_arenaAt hstart harena
    exact mem_marksAhead_of_mine hmine hlo hhi hlt

/-- What lies ahead of a cursor that has all marks and all entries to visit. -/
theorem todo_complete {cursor : AbandonedCursor} (h : AbandonLaw st lists)
    (hentries : cursor.osListCount = (lists cursor.subproc).length)
    (hleft : cursor.stop - cursor.start ≤ st.arenaCount)
    (hmarks : ∀ i b, SegmentId.arena i b ∈ st.marksAhead cursor.subproc
      (cursor.stop - cursor.start) cursor.start cursor.bitmapIdx ↔
        st.mine cursor.subproc (i, b) = true) :
    (st.todo lists cursor).Nodup ∧ ∀ segment,
      segment ∈ st.todo lists cursor ↔
        st.Abandoned segment ∧ st.subproc segment = cursor.subproc := by
  have hos : ∀ address, SegmentId.os address ∉ st.marksAhead cursor.subproc
      (cursor.stop - cursor.start) cursor.start cursor.bitmapIdx := by
    intro address hmem
    obtain ⟨k, c, -, -, -, hsame, -⟩ := mem_marksAhead hmem
    exact SegmentId.noConfusion hsame
  unfold AbandonState.todo
  rw [hentries, List.take_length]
  constructor
  · rw [List.nodup_append]
    refine ⟨marksAhead_nodup hleft, ?_, ?_⟩
    · apply (h.family.queue cursor.subproc).nodup.map
      intro address other heq
      exact SegmentId.os.inj heq
    · intro segment hsegment other hother heq
      obtain ⟨address, -, rfl⟩ := List.mem_map.mp hother
      rw [heq] at hsegment
      exact hos address hsegment
  · intro segment
    rw [List.mem_append]
    cases segment with
    | arena i b =>
        rw [hmarks]
        unfold AbandonState.mine AbandonState.Abandoned
        rw [Bool.and_eq_true, decide_eq_true_iff]
        simp
    | os address =>
        rw [abandoned_os_iff h]
        have hmap : SegmentId.os address ∈
            (lists cursor.subproc).map SegmentId.os ↔
              address ∈ lists cursor.subproc := by
          simp
        rw [hmap]
        constructor
        · intro hmem
          have hlist := hmem.resolve_left (hos address)
          have hsubproc := h.subproc _ address hlist
          rw [hsubproc]
          exact ⟨hlist, rfl⟩
        · rintro ⟨hlist, hsubproc⟩
          rw [hsubproc] at hlist
          exact Or.inr hlist

/-- A cursor that is not bound to one arena goes around all arenas, unless no
arena has a mark. -/
theorem cursorInit_window (h : AbandonLaw st lists) {heap : Option CursorHeap}
    (hheap : heap.bind CursorHeap.arenaIdx = none) (subproc : ℕ)
    (visitAll : Bool) :
    ((st.cursorInit heap subproc visitAll).stop =
        (st.cursorInit heap subproc visitAll).start + st.arenaCount ∧
      (st.cursorInit heap subproc visitAll).start < st.arenaCount) ∨
    ((st.cursorInit heap subproc visitAll).stop = 0 ∧
      ∀ i b, st.mine subproc (i, b) = false) := by
  unfold AbandonState.cursorInit
  rw [hheap]
  dsimp only
  by_cases hvisit : st.osListCount subproc < st.abandonedCount subproc ∧
      0 < st.arenaCount
  · left
    rw [if_pos hvisit, if_pos hvisit]
    refine ⟨rfl, ?_⟩
    cases heap with
    | none => exact hvisit.2
    | some heap => exact Nat.mod_lt _ hvisit.2
  · right
    rw [if_neg hvisit]
    refine ⟨rfl, ?_⟩
    intro i b
    rw [← Bool.not_eq_true]
    intro hmine
    have hbit := ((Bool.and_eq_true _ _).mp hmine).1
    have harena := (h.inRange i b hbit).1
    have hcard : 0 < (st.arenaMarks subproc).card :=
      Finset.card_pos.mpr ⟨_, (mem_arenaMarks h.inRange _).mpr hmine⟩
    have hcount := h.count subproc
    have hlistCount := h.listCount subproc
    omega

/-- A fresh cursor that is not bound to one arena has exactly the abandoned
segments of its sub-process ahead. -/
theorem cursorInit_ahead (h : AbandonLaw st lists) {heap : Option CursorHeap}
    (hheap : heap.bind CursorHeap.arenaIdx = none) (subproc : ℕ)
    (visitAll : Bool) :
    ∃ todo, VisitAhead st (st.cursorInit heap subproc visitAll) todo ∧
      todo.Nodup ∧ ∀ segment, segment ∈ todo ↔
        st.Abandoned segment ∧ st.subproc segment = subproc := by
  have hwindow := cursorInit_window h hheap subproc visitAll
  have hfields : (st.cursorInit heap subproc visitAll).subproc = subproc ∧
      (st.cursorInit heap subproc visitAll).osListCount =
        (lists subproc).length ∧
      (st.cursorInit heap subproc visitAll).bitmapIdx = 0 := by
    unfold AbandonState.cursorInit
    rw [hheap]
    exact ⟨rfl, h.listCount subproc, rfl⟩
  generalize st.cursorInit heap subproc visitAll = cursor at hwindow hfields ⊢
  obtain ⟨rfl, hentries, hbitmapIdx⟩ := hfields
  refine ⟨st.todo lists cursor, ⟨lists, h, ⟨?_, hentries.le⟩, rfl⟩,
    todo_complete h hentries ?_ ?_⟩
  · rcases hwindow with ⟨hstop, -⟩ | ⟨hstop, -⟩
    · exact hstop.le
    · rw [hstop]
      exact Nat.zero_le _
  · omega
  · intro i b
    rw [hbitmapIdx]
    rcases hwindow with ⟨hstop, hstart⟩ | ⟨hstop, hnone⟩
    · rw [hstop, Nat.add_sub_cancel_left]
      exact arena_mem_marksAhead_iff h hstart
    · rw [hstop, Nat.zero_sub, hnone]
      simp [AbandonState.marksAhead]

end Visit

/-! ## Runs -/

/-- One operation: a segment is marked or cleared, or a cursor at any stage
asks for the next one.  Between these, arenas are added and the memory of
segments that are not abandoned is reused. -/
inductive AbandonStep (st : AbandonState) : AbandonState → Prop where
  | addArena (fieldCount : Option ℕ) :
      AbandonStep st { st with
        arenaCount := st.arenaCount + 1
        fieldCount :=
          Function.update st.fieldCount st.arenaCount fieldCount }
  | other (subproc threadId : SegmentId → ℕ)
      (hsame : ∀ segment, st.Abandoned segment →
        subproc segment = st.subproc segment) :
      AbandonStep st { st with subproc := subproc, threadId := threadId }
  | mark (segment : SegmentId) (hin : st.InArenas segment)
      (hnot : ¬st.Abandoned segment) :
      AbandonStep st (st.markAbandoned segment)
  | clear (segment : SegmentId) (self : ℕ) :
      AbandonStep st (st.clearAbandoned segment self).2
  | next (cursor : AbandonedCursor) :
      AbandonStep st (st.clearAbandonedNext cursor).2.2

structure AbandonStart (st : AbandonState) : Prop where
  arenaCount : st.arenaCount = 0
  blocks : ∀ arenaIdx b, bit (st.blocksAbandoned arenaIdx) b = false
  links : ∀ address, st.links.next address = none ∧
    st.links.prev address = none
  osList : ∀ subproc, st.osList subproc = Ends.empty
  counts : ∀ subproc, st.abandonedCount subproc = 0 ∧
    st.osListCount subproc = 0

inductive AbandonRun : AbandonState → Prop where
  | start {st : AbandonState} (hstart : AbandonStart st) : AbandonRun st
  | step {st st' : AbandonState} (hrun : AbandonRun st)
      (hstep : AbandonStep st st') : AbandonRun st'

section Run

variable {st : AbandonState} {lists : ℕ → List ℕ}

theorem AbandonLaw.addArena (h : AbandonLaw st lists)
    (fieldCount : Option ℕ) :
    AbandonLaw { st with
      arenaCount := st.arenaCount + 1
      fieldCount := Function.update st.fieldCount st.arenaCount fieldCount }
      lists := by
  have hrange : ∀ i b, bit (st.blocksAbandoned i) b = true →
      i < st.arenaCount + 1 ∧
        b < 64 * (Function.update st.fieldCount st.arenaCount fieldCount i
          ).getD 0 := by
    intro i b hbit
    obtain ⟨harena, hlt⟩ := h.inRange i b hbit
    rw [Function.update_of_ne harena.ne]
    exact ⟨Nat.lt_succ_of_lt harena, hlt⟩
  refine ⟨h.family, h.subproc, h.unlinked, hrange, h.listCount, ?_⟩
  intro subproc
  rw [h.count subproc]
  congr 2
  ext place
  rw [mem_arenaMarks h.inRange, mem_arenaMarks hrange]
  exact Iff.rfl

theorem AbandonLaw.other (h : AbandonLaw st lists)
    {subproc threadId : SegmentId → ℕ}
    (hsame : ∀ segment, st.Abandoned segment →
      subproc segment = st.subproc segment) :
    AbandonLaw { st with subproc := subproc, threadId := threadId }
      lists := by
  have hlist : ∀ i, ∀ address ∈ lists i, subproc (.os address) = i := by
    intro i address hmem
    have hsubproc := h.subproc i address hmem
    rw [hsame, hsubproc]
    rw [abandoned_os_iff h, hsubproc]
    exact hmem
  refine ⟨h.family, hlist, h.unlinked, h.inRange, h.listCount, ?_⟩
  intro i
  rw [h.count i]
  congr 2
  ext place
  have hnew := @mem_arenaMarks
    { st with subproc := subproc, threadId := threadId } i h.inRange place
  rw [mem_arenaMarks h.inRange, hnew]
  unfold AbandonState.mine
  dsimp only
  cases hbit : bit (st.blocksAbandoned place.1) place.2 with
  | false => simp
  | true => simp [hsame (.arena place.1 place.2) hbit]

theorem clearAbandoned_arena_of_clear {arenaIdx b self : ℕ}
    (hbit : bit (st.blocksAbandoned arenaIdx) b = false) :
    st.clearAbandoned (.arena arenaIdx b) self = (false, st) := by
  unfold AbandonState.clearAbandoned
  dsimp only
  rw [unclaim_one, hbit, if_neg Bool.false_ne_true, unclaim_one_of_clear hbit,
    Function.update_eq_self]

theorem clearAbandoned_arena_of_set {arenaIdx b self : ℕ}
    (hbit : bit (st.blocksAbandoned arenaIdx) b = true)
    (hpos : 0 < st.abandonedCount (st.subproc (.arena arenaIdx b))) :
    MarkChange arenaIdx b false st
      (st.clearAbandoned (.arena arenaIdx b) self).2 := by
  unfold AbandonState.clearAbandoned
  dsimp only
  rw [unclaim_one, hbit, if_pos rfl]
  refine ⟨rfl, rfl, ?_, rfl, rfl, rfl, rfl, ?_⟩
  · exact bits_update_unclaim st.blocksAbandoned
  · intro other
    dsimp only
    by_cases hother : other = st.subproc (.arena arenaIdx b)
    · subst hother
      simp
      omega
    · simp [hother]

theorem AbandonLaw.clear (h : AbandonLaw st lists) (segment : SegmentId)
    (self : ℕ) :
    RegistryStep none st (st.clearAbandoned segment self).2 := by
  cases segment with
  | arena arenaIdx b =>
      cases hbit : bit (st.blocksAbandoned arenaIdx) b with
      | false =>
          rw [clearAbandoned_arena_of_clear hbit]
          exact h.refl none
      | true =>
          have hmine : st.mine (st.subproc (.arena arenaIdx b))
              (arenaIdx, b) = true := by
            simp [AbandonState.mine, hbit]
          exact h.changesMark
            (clearAbandoned_arena_of_set hbit (h.count_pos hmine)) hbit
            (h.inRange _ _ hbit) fun hvalue => nomatch hvalue
  | os address =>
      by_cases hmem : st.Abandoned (.os address)
      · rw [abandoned_os_iff h] at hmem
        exact h.osClears hmem
      · have hclear : st.clearAbandoned (.os address) self = (false, st) :=
          osClearAbandoned_of_not_mem h (not_mem_of_not_abandoned h hmem)
        rw [hclear]
        exact h.refl none

theorem AbandonLaw.start (hstart : AbandonStart st) :
    AbandonLaw st fun _ => [] := by
  constructor
  · refine ⟨?_, fun _ _ node hnode => absurd hnode List.not_mem_nil⟩
    intro subproc
    rw [hstart.osList]
    exact IsQueue.nil _
  · exact fun _ address hmem => absurd hmem List.not_mem_nil
  · exact fun address _ => hstart.links address
  · intro arenaIdx b hbit
    rw [hstart.blocks] at hbit
    exact absurd hbit Bool.false_ne_true
  · exact fun subproc => (hstart.counts subproc).2
  · intro subproc
    unfold AbandonState.arenaMarks
    rw [(hstart.counts subproc).1, hstart.arenaCount]
    rfl

theorem AbandonLaw.step {st' : AbandonState} (h : AbandonLaw st lists)
    (hstep : AbandonStep st st') : ∃ lists', AbandonLaw st' lists' := by
  cases hstep with
  | addArena fieldCount => exact ⟨lists, h.addArena fieldCount⟩
  | other subproc threadId hsame => exact ⟨lists, h.other hsame⟩
  | mark segment hin hnot => exact (h.marks hin hnot).1.law
  | clear segment self => exact (h.clear segment self).law
  | next cursor => exact h.next.law

theorem abandonRun_law (hrun : AbandonRun st) :
    ∃ lists, AbandonLaw st lists := by
  induction hrun with
  | start hstart => exact ⟨_, AbandonLaw.start hstart⟩
  | step _ hstep ih =>
      obtain ⟨lists, hlaw⟩ := ih
      exact hlaw.step hstep

theorem visitAbandoned_spec {remark : ℕ → Bool} {todo : List SegmentId}
    {cursor : AbandonedCursor} (hrun : AbandonRun st)
    (h : VisitAhead st cursor todo) {fuel : ℕ}
    (hfuel : todo.length < fuel) (i : ℕ) :
    ∃ st', st.visitAbandoned remark fuel i cursor = some (todo, st') ∧
      AbandonRun st' := by
  induction todo generalizing st cursor fuel i with
  | nil =>
      cases fuel with
      | zero => exact absurd hfuel (Nat.not_lt_zero _)
      | succ fuel =>
          obtain ⟨cursor', hnext⟩ := visit_end h
          unfold AbandonState.visitAbandoned
          rw [hnext]
          exact ⟨st, rfl, hrun⟩
  | cons segment rest ih =>
      cases fuel with
      | zero => exact absurd hfuel (Nat.not_lt_zero _)
      | succ fuel =>
          obtain ⟨cursor', st', hnext, hahead, hmarked, hin, hnot⟩ :=
            visit_next h
          have hrun' : AbandonRun st' := by
            have hstep := @AbandonStep.next st cursor
            rw [hnext] at hstep
            exact hrun.step hstep
          have hlength : rest.length < fuel := Nat.lt_of_succ_lt_succ hfuel
          unfold AbandonState.visitAbandoned
          rw [hnext]
          dsimp only
          cases hremark : remark i with
          | false =>
              obtain ⟨st'', hrest, hrun''⟩ := ih hrun' hahead hlength (i + 1)
              rw [if_neg Bool.false_ne_true, hrest]
              exact ⟨st'', rfl, hrun''⟩
          | true =>
              obtain ⟨st'', hrest, hrun''⟩ :=
                ih (hrun'.step (.mark segment hin hnot)) hmarked hlength (i + 1)
              rw [if_pos rfl, hrest]
              exact ⟨st'', rfl, hrun''⟩

/-- The counter of a sub-process agrees with its two registries. -/
def CountsAgree (st : AbandonState) : Prop :=
  ∀ subproc, ∃ l, IsQueue st.links (st.osList subproc) l ∧
    (∀ place, place ∈ st.arenaMarks subproc ↔ st.mine subproc place = true) ∧
    st.abandonedCount subproc = (st.arenaMarks subproc).card + l.length

theorem cursor_visits_each_once (hrun : AbandonRun st)
    {heap : Option CursorHeap}
    (hheap : heap.bind CursorHeap.arenaIdx = none) (subproc : ℕ)
    (remark : ℕ → Bool) :
    CountsAgree st ∧ ∃ visited : List SegmentId, visited.Nodup ∧
      (∀ segment, segment ∈ visited ↔
        st.Abandoned segment ∧ st.subproc segment = subproc) ∧
      ∀ fuel, visited.length < fuel →
        ∃ st', st.visitAbandoned remark fuel 0
            (st.cursorInit heap subproc true) = some (visited, st') ∧
          AbandonRun st' := by
  obtain ⟨lists, hlaw⟩ := abandonRun_law hrun
  obtain ⟨visited, hahead, hnodup, hmem⟩ :=
    cursorInit_ahead hlaw hheap subproc true
  refine ⟨?_, visited, hnodup, hmem, ?_⟩
  · intro subproc
    exact ⟨lists subproc, hlaw.family.queue subproc,
      mem_arenaMarks hlaw.inRange, hlaw.count subproc⟩
  · intro fuel hfuel
    exact visitAbandoned_spec hrun hahead hfuel 0

end Run

def noAbandoned : AbandonState where
  arenaCount := 0
  fieldCount _ := none
  blocksAbandoned _ _ := 0
  links := ⟨fun _ => none, fun _ => none⟩
  osList _ := Ends.empty
  abandonedCount _ := 0
  osListCount _ := 0
  subproc _ := 0
  threadId _ := 0

theorem noAbandoned_start : AbandonStart noAbandoned :=
  ⟨rfl, fun _ _ => by simp [noAbandoned, bit], fun _ => ⟨rfl, rfl⟩,
    fun _ => rfl, fun _ => ⟨rfl, rfl⟩⟩

def oneArena : AbandonState :=
  { noAbandoned with
    arenaCount := 1
    fieldCount := Function.update noAbandoned.fieldCount 0 (some 1) }

theorem oneArena_run : AbandonRun oneArena :=
  (AbandonRun.start noAbandoned_start).step (.addArena (some 1))

/-- A segment in the arena and one outside are abandoned, and both are visited
and marked again. -/
theorem cursor_visits_each_once_two :
    CountsAgree ((oneArena.markAbandoned (.arena 0 3)).markAbandoned (.os 7)) ∧
    ∃ visited : List SegmentId, visited.Nodup ∧
      (∀ segment, segment ∈ visited ↔
        ((oneArena.markAbandoned (.arena 0 3)).markAbandoned (.os 7)).Abandoned
          segment ∧
        ((oneArena.markAbandoned (.arena 0 3)).markAbandoned (.os 7)).subproc
          segment = 0) ∧
      ∀ fuel, visited.length < fuel → ∃ st',
        ((oneArena.markAbandoned (.arena 0 3)).markAbandoned (.os 7)
          ).visitAbandoned (fun _ => true) fuel 0
            (((oneArena.markAbandoned (.arena 0 3)).markAbandoned (.os 7)
              ).cursorInit none 0 true) = some (visited, st') ∧
          AbandonRun st' := by
  have hos : ¬(oneArena.markAbandoned (.arena 0 3)).Abandoned (.os 7) := by
    rintro ⟨l, hl, hmem⟩
    have hfirst : none = l.head? := hl.first
    rw [List.head?_eq_none_iff.mp hfirst.symm] at hmem
    exact List.not_mem_nil hmem
  apply cursor_visits_each_once _ rfl
  apply AbandonRun.step _ (.mark (.os 7) trivial hos)
  apply oneArena_run.step (.mark (.arena 0 3) _ _)
  · exact ⟨by decide, by decide⟩
  · intro hset
    have hbit : bit (oneArena.blocksAbandoned 0) 3 = true := hset
    simp [bit, oneArena, noAbandoned] at hbit

end Palloc
