import Palloc.AbandonedRun
import Mathlib.Data.Finset.Preimage
import Mathlib.Logic.Relation

/-!
# Deleting a sub-process

`pa_subproc_delete` looks for abandoned segments in the list of the
sub-process only.  A sub-process whose abandoned segments all lie in arenas is
freed while they still refer to it, and so is one that still has threads,
which leave segments behind later.

A deletion is safe when the sub-process has no thread and no segment any more;
otherwise some later state has an abandoned segment that refers to a structure
that was freed.
-/

namespace Palloc

open BitFields LinkedQueue

namespace AbandonState

/-- `pa_subproc_delete`; whether the structure is freed.  Sub-process 0 is the
default one, whose id is null. -/
def subprocDelete (st : AbandonState) (subproc : ℕ) : Bool :=
  if subproc = 0 then false else (st.osList subproc).first = none

/-- `pa_subproc_new`, with the structure at an address that is free. -/
def subprocNew (st : AbandonState) (subproc : ℕ) : AbandonState :=
  { st with
    osList := Function.update st.osList subproc Ends.empty
    abandonedCount := Function.update st.abandonedCount subproc 0
    osListCount := Function.update st.osListCount subproc 0 }

end AbandonState

/-! ## Threads and segments -/

structure SubprocState where
  registry : AbandonState
  /-- The sub-processes whose structure is allocated. -/
  live : Finset ℕ
  /-- `tld->segments.subproc` of each thread that runs. -/
  thread : ℕ → Option ℕ
  /-- The segments that are in use or abandoned. -/
  segments : Finset SegmentId

namespace SubprocState

def start (registry : AbandonState) : SubprocState where
  registry := registry
  live := {0}
  thread := fun _ => none
  segments := ∅

def threadStart (st : SubprocState) (thread : ℕ) : SubprocState :=
  { st with thread := Function.update st.thread thread (some 0) }

/-- `pa_subproc_add_current_thread`. -/
def subprocAddCurrentThread (st : SubprocState) (thread subproc : ℕ) :
    SubprocState :=
  if st.thread thread = some 0 then
    { st with thread := Function.update st.thread thread (some subproc) }
  else st

def threadDone (st : SubprocState) (thread : ℕ) : SubprocState :=
  { st with thread := Function.update st.thread thread none }

/-- `pa_segment_alloc` by a thread of `subproc`. -/
def segmentAlloc (st : SubprocState) (thread subproc : ℕ)
    (segment : SegmentId) : SubprocState :=
  { st with
    registry :=
      { st.registry with
        subproc := Function.update st.registry.subproc segment subproc
        threadId := Function.update st.registry.threadId segment thread }
    segments := insert segment st.segments }

def segmentFree (st : SubprocState) (segment : SegmentId) : SubprocState :=
  { st with segments := st.segments.erase segment }

def subprocNew (st : SubprocState) (subproc : ℕ) : SubprocState :=
  { st with
    registry := st.registry.subprocNew subproc
    live := insert subproc st.live }

def subprocFreed (st : SubprocState) (subproc : ℕ) : SubprocState :=
  { st with live := st.live.erase subproc }

end SubprocState

inductive SubprocEvent where
  | other
  /-- `pa_subproc_delete` frees the structure. -/
  | delete (subproc : ℕ)
  deriving Repr, DecidableEq

inductive SubprocStep : SubprocState → SubprocEvent → SubprocState → Prop
  | addArena {st : SubprocState} (fieldCount : Option ℕ) :
      SubprocStep st .other
        { st with
          registry :=
            { st.registry with
              arenaCount := st.registry.arenaCount + 1
              fieldCount := Function.update st.registry.fieldCount
                st.registry.arenaCount fieldCount } }
  /-- The memory of segments that were freed is reused; `thread_id` also
  changes when a segment that was visited is reclaimed. -/
  | reuse {st : SubprocState} (subproc threadId : SegmentId → ℕ)
      (hsame : ∀ segment ∈ st.segments,
        subproc segment = st.registry.subproc segment) :
      SubprocStep st .other
        { st with
          registry :=
            { st.registry with subproc := subproc, threadId := threadId } }
  | threadStart {st : SubprocState} (thread : ℕ)
      (hthread : st.thread thread = none) :
      SubprocStep st .other (st.threadStart thread)
  | subprocAddCurrentThread {st : SubprocState} (thread subproc : ℕ)
      (hlive : subproc ∈ st.live) :
      SubprocStep st .other (st.subprocAddCurrentThread thread subproc)
  /-- The segments of a thread that ends were abandoned or freed. -/
  | threadDone {st : SubprocState} (thread : ℕ)
      (hsegments : ∀ segment ∈ st.segments,
        st.registry.threadId segment ≠ thread) :
      SubprocStep st .other (st.threadDone thread)
  | segmentAlloc {st : SubprocState} (thread subproc : ℕ)
      (segment : SegmentId) (hthread : st.thread thread = some subproc)
      (hin : st.registry.InArenas segment) (hnew : segment ∉ st.segments) :
      SubprocStep st .other (st.segmentAlloc thread subproc segment)
  | segmentFree {st : SubprocState} (segment : SegmentId)
      (hnot : ¬st.registry.Abandoned segment) :
      SubprocStep st .other (st.segmentFree segment)
  | markAbandoned {st : SubprocState} (segment : SegmentId)
      (hsegment : segment ∈ st.segments)
      (hnot : ¬st.registry.Abandoned segment) :
      SubprocStep st .other
        { st with registry := st.registry.markAbandoned segment }
  | clearAbandoned {st : SubprocState} (segment : SegmentId) (self : ℕ) :
      SubprocStep st .other
        { st with registry := (st.registry.clearAbandoned segment self).2 }
  | clearAbandonedNext {st : SubprocState} (cursor : AbandonedCursor) :
      SubprocStep st .other
        { st with registry := (st.registry.clearAbandonedNext cursor).2.2 }
  | subprocNew {st : SubprocState} (subproc : ℕ) (hnew : subproc ∉ st.live) :
      SubprocStep st .other (st.subprocNew subproc)
  | subprocDelete {st : SubprocState} (subproc : ℕ)
      (hlive : subproc ∈ st.live)
      (hfree : st.registry.subprocDelete subproc = true) :
      SubprocStep st (.delete subproc) (st.subprocFreed subproc)

structure SubprocState.Unused (st : SubprocState) (subproc : ℕ) : Prop where
  thread : ∀ thread, st.thread thread ≠ some subproc
  segment : ∀ segment ∈ st.segments, st.registry.subproc segment ≠ subproc

def SubprocEvent.Safe (st : SubprocState) : SubprocEvent → Prop
  | .other => True
  | .delete subproc => st.Unused subproc

/-- Runs in which every sub-process that is freed is unused. -/
def SubprocRuns : SubprocState → SubprocState → Prop :=
  Relation.ReflTransGen fun st st' => ∃ e, SubprocStep st e st' ∧ e.Safe st

/-- No abandoned segment refers to a sub-process that was freed. -/
def SubprocState.NoneDangles (st : SubprocState) : Prop :=
  ∀ segment, st.registry.Abandoned segment →
    st.registry.subproc segment ∈ st.live

section Delete

variable {st st' : SubprocState} {registry registry' : AbandonState}
variable {lists : ℕ → List ℕ} {subproc : ℕ} {segment : SegmentId}

/-! ## Which segments refer to a sub-process -/

theorem not_refers (h : AbandonLaw registry lists)
    (hnone : ∀ segment, registry.Abandoned segment →
      registry.subproc segment ≠ subproc) :
    lists subproc = [] ∧ registry.arenaMarks subproc = ∅ := by
  constructor
  · rw [List.eq_nil_iff_forall_not_mem]
    intro address hmem
    have hsubproc := h.subproc subproc address hmem
    apply hnone (.os address) _ hsubproc
    rw [abandoned_os_iff h, hsubproc]
    exact hmem
  · rw [Finset.eq_empty_iff_forall_notMem]
    intro place hmem
    have hmine := (mem_arenaMarks h.inRange place).mp hmem
    unfold AbandonState.mine at hmine
    rw [Bool.and_eq_true, decide_eq_true_iff] at hmine
    exact hnone (.arena place.1 place.2) hmine.1 hmine.2

theorem subprocNew_eq (h : AbandonLaw registry lists)
    (hnone : ∀ segment, registry.Abandoned segment →
      registry.subproc segment ≠ subproc) :
    registry.subprocNew subproc = registry := by
  obtain ⟨hnil, hempty⟩ := not_refers h hnone
  have hqueue := h.family.queue subproc
  have hcount := h.count subproc
  have hlistCount := h.listCount subproc
  rw [hnil] at hqueue hcount hlistCount
  rw [hempty] at hcount
  have hends : registry.osList subproc = Ends.empty :=
    Ends.ext hqueue.first hqueue.last
  have hcount' : registry.abandonedCount subproc = 0 := hcount
  have hlistCount' : registry.osListCount subproc = 0 := hlistCount
  unfold AbandonState.subprocNew
  rw [← hends, Function.update_eq_self, ← hcount', Function.update_eq_self,
    hcount', ← hlistCount', Function.update_eq_self]

/-! ## The invariant -/

structure SubprocOk (st : SubprocState) : Prop where
  law : ∃ lists, AbandonLaw st.registry lists
  main : 0 ∈ st.live
  thread : ∀ thread subproc, st.thread thread = some subproc →
    subproc ∈ st.live
  segment : ∀ segment ∈ st.segments, st.registry.subproc segment ∈ st.live
  inArenas : ∀ segment ∈ st.segments, st.registry.InArenas segment
  abandoned : ∀ segment, st.registry.Abandoned segment →
    segment ∈ st.segments

namespace SubprocOk

theorem noneDangles (h : SubprocOk st) : st.NoneDangles :=
  fun segment hsegment => h.segment segment (h.abandoned segment hsegment)

theorem start (hstart : AbandonStart registry) :
    SubprocOk (.start registry) := by
  have hlaw := AbandonLaw.start hstart
  refine ⟨⟨_, hlaw⟩, Finset.mem_singleton_self 0,
    fun _ _ hthread => (nomatch hthread),
    fun _ hmem => (Finset.notMem_empty _ hmem).elim,
    fun _ hmem => (Finset.notMem_empty _ hmem).elim, ?_⟩
  intro segment hsegment
  cases segment with
  | arena arenaIdx b =>
      have hbit : bit (registry.blocksAbandoned arenaIdx) b = true := hsegment
      rw [hstart.blocks] at hbit
      exact absurd hbit Bool.false_ne_true
  | os address =>
      change registry.Abandoned (.os address) at hsegment
      rw [abandoned_os_iff hlaw] at hsegment
      exact absurd hsegment List.not_mem_nil

theorem registryStep {marked : Option SegmentId} (h : SubprocOk st)
    (hstep : RegistryStep marked st.registry registry')
    (hmarked : ∀ segment, marked = some segment → segment ∈ st.segments) :
    SubprocOk { st with registry := registry' } := by
  refine ⟨hstep.law, h.main, h.thread, ?_, ?_, ?_⟩
  · intro segment hsegment
    dsimp only
    rw [hstep.subproc]
    exact h.segment segment hsegment
  · intro segment hsegment
    exact (hstep.inArenas segment).mpr (h.inArenas segment hsegment)
  · intro segment hsegment
    rcases hstep.abandoned segment hsegment with hold | hnew
    · exact h.abandoned segment hold
    · exact hmarked segment hnew

theorem addArena (h : SubprocOk st) (fieldCount : Option ℕ) :
    SubprocOk
      { st with
        registry :=
          { st.registry with
            arenaCount := st.registry.arenaCount + 1
            fieldCount := Function.update st.registry.fieldCount
              st.registry.arenaCount fieldCount } } := by
  obtain ⟨lists, hlaw⟩ := h.law
  refine ⟨⟨lists, hlaw.addArena fieldCount⟩, h.main, h.thread, h.segment, ?_,
    h.abandoned⟩
  intro segment hsegment
  have hin := h.inArenas segment hsegment
  cases segment with
  | os address => exact trivial
  | arena i b =>
      obtain ⟨hlt, hbit⟩ := hin
      refine ⟨Nat.lt_succ_of_lt hlt, ?_⟩
      unfold AbandonState.fields at hbit ⊢
      dsimp only
      rw [Function.update_of_ne hlt.ne]
      exact hbit

/-- The segments that are in use or abandoned keep their sub-process; some
may be new. -/
theorem reuse {subprocs threadId : SegmentId → ℕ}
    {segments : Finset SegmentId} (h : SubprocOk st)
    (hsame : ∀ segment ∈ st.segments,
      subprocs segment = st.registry.subproc segment)
    (hsub : st.segments ⊆ segments)
    (hnew : ∀ segment ∈ segments, segment ∉ st.segments →
      subprocs segment ∈ st.live ∧ st.registry.InArenas segment) :
    SubprocOk
      { st with
        registry :=
          { st.registry with subproc := subprocs, threadId := threadId }
        segments := segments } := by
  obtain ⟨lists, hlaw⟩ := h.law
  have hkept : ∀ segment, st.registry.Abandoned segment →
      subprocs segment = st.registry.subproc segment :=
    fun segment hsegment => hsame segment (h.abandoned segment hsegment)
  have hlaw' := @AbandonLaw.other _ _ hlaw subprocs threadId hkept
  refine ⟨⟨lists, hlaw'⟩, h.main, h.thread, ?_, ?_, ?_⟩
  · intro segment hsegment
    dsimp only
    by_cases hold : segment ∈ st.segments
    · rw [hsame segment hold]
      exact h.segment segment hold
    · exact (hnew segment hsegment hold).1
  · intro segment hsegment
    have hin : st.registry.InArenas segment := by
      by_cases hold : segment ∈ st.segments
      · exact h.inArenas segment hold
      · exact (hnew segment hsegment hold).2
    cases segment with
    | os address => exact trivial
    | arena i b => exact hin
  · intro segment hsegment
    apply hsub
    cases segment with
    | arena i b => exact h.abandoned (.arena i b) hsegment
    | os address =>
        have hmem := (abandoned_os_iff hlaw').mp hsegment
        apply h.abandoned (.os address)
        rw [abandoned_os_iff hlaw, hlaw.subproc _ address hmem]
        exact hmem

theorem segmentAlloc {thread : ℕ} (h : SubprocOk st)
    (hthread : st.thread thread = some subproc)
    (hin : st.registry.InArenas segment) (hnew : segment ∉ st.segments) :
    SubprocOk (st.segmentAlloc thread subproc segment) := by
  apply h.reuse
  · intro other hother
    have hne : other ≠ segment := by
      rintro rfl
      exact hnew hother
    exact Function.update_of_ne hne _ _
  · exact Finset.subset_insert segment st.segments
  · intro other hother hnot
    obtain rfl := (Finset.mem_insert.mp hother).resolve_right hnot
    rw [Function.update_self]
    exact ⟨h.thread thread subproc hthread, hin⟩

theorem setThread (h : SubprocOk st) (thread : ℕ) {value : Option ℕ}
    (hvalue : ∀ subproc, value = some subproc → subproc ∈ st.live) :
    SubprocOk { st with thread := Function.update st.thread thread value } := by
  refine ⟨h.law, h.main, ?_, h.segment, h.inArenas, h.abandoned⟩
  intro other subproc hother
  dsimp only at hother
  by_cases heq : other = thread
  · rw [heq, Function.update_self] at hother
    exact hvalue subproc hother
  · rw [Function.update_of_ne heq] at hother
    exact h.thread other subproc hother

theorem subprocNew (h : SubprocOk st) (hnew : subproc ∉ st.live) :
    SubprocOk (st.subprocNew subproc) := by
  obtain ⟨lists, hlaw⟩ := h.law
  have hnone : ∀ segment, st.registry.Abandoned segment →
      st.registry.subproc segment ≠ subproc := by
    rintro segment hsegment rfl
    exact hnew (h.noneDangles segment hsegment)
  unfold SubprocState.subprocNew
  rw [subprocNew_eq hlaw hnone]
  exact ⟨h.law, Finset.mem_insert_of_mem h.main, fun thread other hthread =>
      Finset.mem_insert_of_mem (h.thread thread other hthread),
    fun segment hsegment =>
      Finset.mem_insert_of_mem (h.segment segment hsegment),
    h.inArenas, h.abandoned⟩

theorem segmentFree (h : SubprocOk st)
    (hnot : ¬st.registry.Abandoned segment) :
    SubprocOk (st.segmentFree segment) := by
  refine ⟨h.law, h.main, h.thread, ?_, ?_, ?_⟩
  · intro other hother
    exact h.segment other (Finset.mem_of_mem_erase hother)
  · intro other hother
    exact h.inArenas other (Finset.mem_of_mem_erase hother)
  · intro other hother
    refine Finset.mem_erase.mpr ⟨?_, h.abandoned other hother⟩
    rintro rfl
    exact hnot hother

theorem subprocFreed (h : SubprocOk st)
    (hfree : st.registry.subprocDelete subproc = true)
    (hunused : st.Unused subproc) : SubprocOk (st.subprocFreed subproc) := by
  have hmain : 0 ≠ subproc := by
    rintro rfl
    exact absurd hfree (by simp [AbandonState.subprocDelete])
  refine ⟨h.law, Finset.mem_erase.mpr ⟨hmain, h.main⟩, ?_, ?_, h.inArenas,
    h.abandoned⟩
  · intro thread other hthread
    refine Finset.mem_erase.mpr ⟨?_, h.thread thread other hthread⟩
    rintro rfl
    exact hunused.thread thread hthread
  · intro segment hsegment
    exact Finset.mem_erase.mpr
      ⟨hunused.segment segment hsegment, h.segment segment hsegment⟩

theorem step {e : SubprocEvent} (h : SubprocOk st)
    (hstep : SubprocStep st e st') (hsafe : e.Safe st) : SubprocOk st' := by
  obtain ⟨lists, hlaw⟩ := h.law
  cases hstep with
  | addArena fieldCount => exact h.addArena fieldCount
  | reuse subprocs threadId hsame =>
      exact h.reuse hsame subset_rfl fun _ hmem hnot => absurd hmem hnot
  | threadStart thread hthread =>
      apply h.setThread thread
      rintro other hother
      obtain rfl := Option.some.inj hother
      exact h.main
  | subprocAddCurrentThread thread other hlive =>
      unfold SubprocState.subprocAddCurrentThread
      split
      · apply h.setThread thread
        rintro same hsame
        obtain rfl := Option.some.inj hsame
        exact hlive
      · exact h
  | threadDone thread hsegments =>
      exact h.setThread thread fun _ hnone => nomatch hnone
  | segmentAlloc thread other segment hthread hin hnew =>
      exact h.segmentAlloc hthread hin hnew
  | segmentFree segment hnot => exact h.segmentFree hnot
  | markAbandoned segment hsegment hnot =>
      apply h.registryStep (hlaw.marks (h.inArenas segment hsegment) hnot).1
      rintro other hother
      obtain rfl := Option.some.inj hother
      exact hsegment
  | clearAbandoned segment self =>
      exact h.registryStep (hlaw.clear segment self) fun _ hnone =>
        nomatch hnone
  | clearAbandonedNext cursor =>
      exact h.registryStep hlaw.next fun _ hnone => nomatch hnone
  | subprocNew other hnew => exact h.subprocNew hnew
  | subprocDelete other hlive hfree => exact h.subprocFreed hfree hsafe

theorem runs (h : SubprocOk st) (hrun : SubprocRuns st st') :
    SubprocOk st' := by
  induction hrun with
  | refl => exact h
  | tail _ hlast ih =>
      obtain ⟨e, hstep, hsafe⟩ := hlast
      exact ih.step hstep hsafe

end SubprocOk

/-! ## A deletion that comes too early -/

theorem segment_dangles (h : SubprocOk st) (hsegment : segment ∈ st.segments)
    (hsubproc : st.registry.subproc segment = subproc)
    (hsafe : ∀ st', SubprocRuns (st.subprocFreed subproc) st' →
      st'.NoneDangles) : False := by
  have hfreed : st.registry.subproc segment ∉
      (st.subprocFreed subproc).live := by
    rw [hsubproc]
    exact Finset.notMem_erase subproc st.live
  by_cases hmarked : st.registry.Abandoned segment
  · exact hfreed (hsafe _ .refl segment hmarked)
  · obtain ⟨lists, hlaw⟩ := h.law
    obtain ⟨hstep, hnow⟩ := hlaw.marks (h.inArenas segment hsegment) hmarked
    have hmark : SubprocStep (st.subprocFreed subproc) .other
        { st.subprocFreed subproc with
          registry := st.registry.markAbandoned segment } :=
      .markAbandoned segment hsegment hmarked
    have hlive := hsafe _ (.single ⟨_, hmark, trivial⟩) segment hnow
    dsimp only at hlive
    rw [hstep.subproc] at hlive
    exact hfreed hlive

theorem exists_new_segment (segments : Finset SegmentId) :
    ∃ address, SegmentId.os address ∉ segments := by
  have hinjective : Function.Injective SegmentId.os :=
    fun _ _ heq => SegmentId.os.inj heq
  obtain ⟨address, hnew⟩ := Infinite.exists_notMem_finset
    (segments.preimage SegmentId.os hinjective.injOn)
  exact ⟨address, fun hmem => hnew (Finset.mem_preimage.mpr hmem)⟩

theorem thread_dangles {thread : ℕ} (h : SubprocOk st)
    (hthread : st.thread thread = some subproc)
    (hsafe : ∀ st', SubprocRuns (st.subprocFreed subproc) st' →
      st'.NoneDangles) : False := by
  obtain ⟨address, hnew⟩ := exists_new_segment st.segments
  have hin : st.registry.InArenas (.os address) := trivial
  have halloc : SubprocStep (st.subprocFreed subproc) .other
      ((st.subprocFreed subproc).segmentAlloc thread subproc
        (.os address)) := .segmentAlloc thread subproc _ hthread hin hnew
  apply segment_dangles (h.segmentAlloc hthread hin hnew)
    (Finset.mem_insert_self _ _) (Function.update_self _ _ _)
  intro st' hrun
  exact hsafe st' (.head ⟨_, halloc, trivial⟩ hrun)

/-- As long as every sub-process that is freed is unused, no abandoned segment
refers to a freed one; and the next deletion keeps it so in all states that
follow exactly under this condition. -/
theorem subproc_delete_safe_iff (hstart : AbandonStart registry)
    (hrun : SubprocRuns (.start registry) st) :
    st.NoneDangles ∧
      ∀ subproc st', SubprocStep st (.delete subproc) st' →
        ((∀ st'', SubprocRuns st' st'' → st''.NoneDangles) ↔
          st.Unused subproc) := by
  have h := (SubprocOk.start hstart).runs hrun
  refine ⟨h.noneDangles, ?_⟩
  rintro subproc st' hdelete
  cases hdelete with
  | subprocDelete subproc hlive hfree =>
      constructor
      · intro hsafe
        constructor
        · exact fun thread hthread => thread_dangles h hthread hsafe
        · exact fun segment hsegment hsubproc =>
            segment_dangles h hsegment hsubproc hsafe
      · intro hunused st'' hlater
        exact ((h.subprocFreed hfree hunused).runs hlater).noneDangles

end Delete

/-! ## A segment in an arena -/

section Dangling

def joined (st : SubprocState) : SubprocState :=
  ((st.subprocNew 1).threadStart 7).subprocAddCurrentThread 7 1

theorem joined_run {st : SubprocState} (hnew : 1 ∉ st.live)
    (hthread : st.thread 7 = none) : SubprocRuns st (joined st) := by
  have hlive : 1 ∈ ((st.subprocNew 1).threadStart 7).live :=
    Finset.mem_insert_self 1 st.live
  exact ((Relation.ReflTransGen.single ⟨_, .subprocNew 1 hnew, trivial⟩).tail
    ⟨_, .threadStart 7 hthread, trivial⟩).tail
      ⟨_, .subprocAddCurrentThread 7 1 hlive, trivial⟩

theorem joined_eq (st : SubprocState) : joined st =
    { st.subprocNew 1 with
      thread := Function.update st.thread 7 (some 1) } := by
  simp [joined, SubprocState.subprocAddCurrentThread,
    SubprocState.threadStart, SubprocState.subprocNew]

theorem joined_thread (st : SubprocState) :
    (joined st).thread 7 = some 1 := by
  simp [joined_eq]

/-- The thread has allocated and freed a segment, and has ended. -/
def emptied : SubprocState :=
  (((joined (.start noAbandoned)).segmentAlloc 7 1 (.os 5)).segmentFree
    (.os 5)).threadDone 7

theorem emptied_segments : emptied.segments = ∅ := by decide

theorem emptied_run : SubprocRuns (.start noAbandoned) emptied := by
  have hjoined := @joined_run (.start noAbandoned) (by decide) rfl
  have halloc := hjoined.tail ⟨_, .segmentAlloc 7 1 (.os 5)
    (joined_thread _) trivial (Finset.notMem_empty _), trivial⟩
  have hnot : ¬((joined (.start noAbandoned)).segmentAlloc 7 1
      (.os 5)).registry.Abandoned (.os 5) := by
    rintro ⟨l, hl, hmem⟩
    have hfirst : none = l.head? := hl.first
    rw [List.head?_eq_none_iff.mp hfirst.symm] at hmem
    exact List.not_mem_nil hmem
  have hfree := halloc.tail ⟨_, .segmentFree (.os 5) hnot, trivial⟩
  refine hfree.tail ⟨_, .threadDone 7 ?_, trivial⟩
  intro segment hsegment
  have hmem : segment ∈ emptied.segments := hsegment
  rw [emptied_segments] at hmem
  exact absurd hmem (Finset.notMem_empty segment)

theorem emptied_unused : emptied.Unused 1 := by
  constructor
  · intro thread
    by_cases hthread : thread = 7 <;>
      simp [emptied, SubprocState.threadDone, SubprocState.segmentFree,
        SubprocState.segmentAlloc, joined_eq, SubprocState.start, hthread]
  · rw [emptied_segments]
    exact fun _ hmem => absurd hmem (Finset.notMem_empty _)

theorem subproc_delete_safe_iff_emptied :
    emptied.registry.subprocDelete 1 = true ∧
      ∀ st, SubprocRuns (emptied.subprocFreed 1) st → st.NoneDangles := by
  have hfree : emptied.registry.subprocDelete 1 = true := by decide
  refine ⟨hfree, ?_⟩
  exact ((subproc_delete_safe_iff noAbandoned_start emptied_run).2 1 _
    (.subprocDelete 1 (by decide) hfree)).mpr emptied_unused

def inArena : SubprocState :=
  (joined { SubprocState.start noAbandoned with
    registry := oneArena }).segmentAlloc 7 1 (.arena 0 3)

def leftInArena : SubprocState :=
  { inArena with
    registry := inArena.registry.markAbandoned (.arena 0 3) }.threadDone 7

theorem leftInArena_run : SubprocRuns (.start noAbandoned) leftInArena := by
  have harena : SubprocRuns (.start noAbandoned)
      { SubprocState.start noAbandoned with registry := oneArena } :=
    .single ⟨_, .addArena (some 1), trivial⟩
  have hjoined := harena.trans (joined_run (by decide) rfl)
  have halloc : SubprocRuns (.start noAbandoned) inArena :=
    hjoined.tail ⟨_, .segmentAlloc 7 1 (.arena 0 3) (joined_thread _)
      ⟨by decide, by decide⟩ (Finset.notMem_empty _), trivial⟩
  have hnot : ¬inArena.registry.Abandoned (.arena 0 3) := by
    have hbit : bit (inArena.registry.blocksAbandoned 0) 3 = false := by
      decide +kernel
    intro hset
    exact Bool.false_ne_true (hbit.symm.trans hset)
  have hmark := halloc.tail ⟨_, .markAbandoned (.arena 0 3)
    (Finset.mem_insert_self _ _) hnot, trivial⟩
  exact hmark.tail ⟨_, .threadDone 7 (by decide +kernel), trivial⟩

/-- `pa_subproc_delete` does not see the segment. -/
theorem subproc_delete_dangling :
    ∃ st st', SubprocRuns (.start noAbandoned) st ∧
      SubprocStep st (.delete 1) st' ∧ ¬st'.NoneDangles := by
  refine ⟨leftInArena, _, leftInArena_run,
    .subprocDelete 1 (by decide) (by decide), ?_⟩
  intro hnone
  have hbit : bit (leftInArena.registry.blocksAbandoned 0) 3 = true := by
    decide +kernel
  have hlive := hnone (.arena 0 3) hbit
  revert hlive
  decide

end Dangling

end Palloc
