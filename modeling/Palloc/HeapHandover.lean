import Palloc.DelayedFreeProtocol

/-!
# Handing over the pages of a heap

`pa_heap_absorb` moves the pages of an old heap to a new one, and abandonment
leaves them without a heap.  Meanwhile other threads free blocks of these
pages.  What the owner has established so far is kept in a ledger: the heap of
every page, the pages it has waited for, those that never use a delayed list
again, and whether the old delayed list is drained.  Each call needs some
entries and adds others, and the entries stay true whatever the freeing
threads do.
-/

namespace Palloc

open LinkedChain SharedStacks

/-! ## The programs of the owner -/

/-- `absorb` gives the pages to another heap, `abandon` to none. -/
inductive Handover where
  | absorb (heap : ℕ)
  | abandon

def Handover.heap : Handover → Option ℕ
  | .absorb heap => some heap
  | .abandon => none

/-- What `_pa_page_queue_append` does with one page. -/
def appendPage (heap page : ℕ) : List OwnerCall :=
  [.setHeap page (some heap), .useDelayedFree page requestUse false]

/-- What `pa_heap_page_collect` does with one page of an abandoned heap. -/
def abandonPage (page : ℕ) : List OwnerCall :=
  [.freeCollect page true, .setHeap page none]

/-- `pa_heap_absorb` and the abandonment in `pa_heap_collect_ex`, for the
pages of the heap `old`. -/
def Handover.calls (old : ℕ) (pages : List ℕ) : Handover → List OwnerCall
  | .absorb heap =>
      .delayedFreePartial old ::
        (pages.flatMap (appendPage heap) ++ [.delayedFreeAll old])
  | .abandon =>
      pages.map (fun page => .useDelayedFree page requestNever false) ++
        .delayedFreeAll old :: pages.flatMap abandonPage

/-! ## The ledger -/

structure Ledger where
  heap : ℕ → Option ℕ
  settled : ℕ → Prop
  never : ℕ → Prop
  drained : Prop

namespace Ledger

variable (old : ℕ) (pages : List ℕ)

def Allows (l : Ledger) : OwnerCall → Prop
  | .threadFreeCollect _ | .freeCollect _ _ => True
  | .tryUseDelayedFree _ _ overrideNever => overrideNever = false
  | .useDelayedFree page delay overrideNever =>
      overrideNever = false ∧
        (delay.val = .neverDelayedFree ∨ l.heap page ≠ some old)
  | .delayedFreePartial heap => heap = old ∧ ¬ l.drained
  | .delayedFreeAll heap =>
      heap = old ∧ ¬ l.drained ∧ ∀ page ∈ pages, l.settled page
  | .setHeap page heap =>
      l.heap page = some old ∧ heap ≠ some old ∧
        (heap = none → l.never page)

def after (l : Ledger) : OwnerCall → Ledger
  | .useDelayedFree page delay _ =>
      { l with
        settled := fun other => other = page ∨ l.settled other
        never := fun other =>
          (other = page ∧ delay.val = .neverDelayedFree) ∨ l.never other }
  | .delayedFreeAll _ => { l with drained := True }
  | .setHeap page heap =>
      { l with heap := Function.update l.heap page heap }
  | _ => l

def Plan : Ledger → List OwnerCall → Prop
  | _, [] => True
  | l, call :: calls => l.Allows old pages call ∧ (l.after call).Plan calls

def start (heap : ℕ → Option ℕ) : Ledger :=
  ⟨heap, fun _ => False, fun _ => False, False⟩

theorem plan_append (l : Ledger) (calls calls' : List OwnerCall) :
    l.Plan old pages (calls ++ calls') ↔
      l.Plan old pages calls ∧ (calls.foldl after l).Plan old pages calls' := by
  induction calls generalizing l with
  | nil => simp [Plan]
  | cons call calls ih =>
      simp only [List.cons_append, Plan, List.foldl_cons, ih, and_assoc]

/-- The part of `pa_heap_absorb` that moves the pages. -/
theorem plan_append_pages {heap : ℕ} (hheap : some heap ≠ some old)
    (l : Ledger) (moved : List ℕ) (hnodup : moved.Nodup)
    (hold : ∀ page ∈ moved, l.heap page = some old) :
    l.Plan old pages (moved.flatMap (appendPage heap)) ∧
      (∀ page, ((moved.flatMap (appendPage heap)).foldl after l).settled page ↔
        page ∈ moved ∨ l.settled page) ∧
      ((moved.flatMap (appendPage heap)).foldl after l).drained = l.drained ∧
      ∀ page, ((moved.flatMap (appendPage heap)).foldl after l).heap page =
        if page ∈ moved then some heap else l.heap page := by
  induction moved generalizing l with
  | nil => simp [Plan]
  | cons page moved ih =>
      have hnot := (List.nodup_cons.mp hnodup).1
      let l' := (l.after (.setHeap page (some heap))).after
        (.useDelayedFree page requestUse false)
      have hold' : ∀ other ∈ moved, l'.heap other = some old := by
        intro other hother
        have hne : other ≠ page := by
          rintro rfl
          exact hnot hother
        show Function.update l.heap page (some heap) other = _
        rw [Function.update_of_ne hne]
        exact hold other (List.mem_cons_of_mem page hother)
      obtain ⟨hplan, hsettled, hdrained, hheaps⟩ :=
        ih l' (List.nodup_cons.mp hnodup).2 hold'
      refine ⟨⟨⟨hold page List.mem_cons_self, hheap, nofun⟩,
        ⟨rfl, .inr ?_⟩, hplan⟩, ?_, hdrained, ?_⟩
      · show Function.update l.heap page (some heap) page ≠ _
        rwa [Function.update_self]
      · intro other
        rw [List.mem_cons, or_assoc]
        refine (hsettled other).trans ?_
        show other ∈ moved ∨ (other = page ∨ l.settled other) ↔ _
        tauto
      · intro other
        refine (hheaps other).trans ?_
        show (if other ∈ moved then some heap
          else Function.update l.heap page (some heap) other) = _
        by_cases hother : other = page
        · subst hother
          simp [hnot]
        · simp [hother]

theorem plan_never_pages (l : Ledger) (marked : List ℕ) :
    let calls := marked.map fun page =>
      OwnerCall.useDelayedFree page requestNever false
    l.Plan old pages calls ∧
      (∀ page, (calls.foldl after l).settled page ↔
        page ∈ marked ∨ l.settled page) ∧
      (∀ page, (calls.foldl after l).never page ↔
        page ∈ marked ∨ l.never page) ∧
      (calls.foldl after l).drained = l.drained ∧
      (calls.foldl after l).heap = l.heap := by
  induction marked generalizing l with
  | nil => simp [Plan]
  | cons page marked ih =>
      obtain ⟨hplan, hsettled, hnever, hdrained, hheap⟩ :=
        ih (l.after (.useDelayedFree page requestNever false))
      refine ⟨⟨⟨rfl, .inl rfl⟩, hplan⟩, ?_, ?_, hdrained, hheap⟩
      · intro other
        rw [List.mem_cons, or_assoc]
        refine (hsettled other).trans ?_
        show other ∈ marked ∨ (other = page ∨ l.settled other) ↔ _
        tauto
      · intro other
        rw [List.mem_cons, or_assoc]
        refine (hnever other).trans ?_
        show other ∈ marked ∨ ((other = page ∧ _) ∨ l.never other) ↔ _
        have hrequest : requestNever.val = Delayed.neverDelayedFree := rfl
        tauto

/-- Leaving the pages after the drain of an abandoned heap. -/
theorem plan_abandon_pages (l : Ledger) (left : List ℕ)
    (hnodup : left.Nodup)
    (hold : ∀ page ∈ left, l.heap page = some old ∧ l.never page) :
    l.Plan old pages (left.flatMap abandonPage) ∧
      ∀ page, ((left.flatMap abandonPage).foldl after l).heap page =
        if page ∈ left then none else l.heap page := by
  induction left generalizing l with
  | nil => simp [Plan]
  | cons page left ih =>
      have hnot := (List.nodup_cons.mp hnodup).1
      obtain ⟨hpage, hnever⟩ := hold page List.mem_cons_self
      let l' := (l.after (.freeCollect page true)).after (.setHeap page none)
      have hold' : ∀ other ∈ left,
          l'.heap other = some old ∧ l'.never other := by
        intro other hother
        have hne : other ≠ page := by
          rintro rfl
          exact hnot hother
        show Function.update l.heap page none other = _ ∧ _
        rw [Function.update_of_ne hne]
        exact hold other (List.mem_cons_of_mem page hother)
      obtain ⟨hplan, hheaps⟩ := ih l' (List.nodup_cons.mp hnodup).2 hold'
      refine ⟨⟨trivial, ⟨hpage, nofun, fun _ => hnever⟩, hplan⟩, ?_⟩
      intro other
      refine (hheaps other).trans ?_
      show (if other ∈ left then none
        else Function.update l.heap page none other) = _
      by_cases hother : other = page
      · subst hother
        simp
      · simp [hother]

/-- Both programs find what they rely on, and in the end every page has its
new heap. -/
theorem handover_plan (handover : Handover) (heap : ℕ → Option ℕ)
    (hheap : handover.heap ≠ some old) (hnodup : pages.Nodup)
    (hold : ∀ page ∈ pages, heap page = some old) :
    (start heap).Plan old pages (handover.calls old pages) ∧
      ∀ page ∈ pages,
        ((handover.calls old pages).foldl after (start heap)).heap page =
          handover.heap := by
  cases handover with
  | absorb new =>
      obtain ⟨hplan, hsettled, hdrained, hheaps⟩ :=
        plan_append_pages old pages hheap (start heap) pages hnodup hold
      refine ⟨⟨⟨rfl, not_false⟩, ?_⟩, ?_⟩
      · show (start heap).Plan old pages (_ ++ [_])
        rw [plan_append]
        refine ⟨hplan, ⟨rfl, ?_, ?_⟩, trivial⟩
        · rw [hdrained]
          exact not_false
        · intro page hpage
          exact (hsettled page).mpr (.inl hpage)
      · intro page hpage
        show ((_ ++ [_]).foldl after (start heap)).heap page = _
        rw [List.foldl_append]
        refine (hheaps page).trans ?_
        rw [if_pos hpage]
        rfl
  | abandon =>
      obtain ⟨hplan, hsettled, hnever, hdrained, hsame⟩ :=
        plan_never_pages old pages (start heap) pages
      have hleft := plan_abandon_pages old pages
        (((pages.map fun page => OwnerCall.useDelayedFree page requestNever
          false).foldl after (start heap)).after (.delayedFreeAll old))
        pages hnodup ?_
      · refine ⟨?_, ?_⟩
        · show (start heap).Plan old pages (_ ++ _ :: _)
          rw [plan_append]
          refine ⟨hplan, ⟨rfl, ?_, ?_⟩, hleft.1⟩
          · rw [hdrained]
            exact not_false
          · intro page hpage
            exact (hsettled page).mpr (.inl hpage)
        · intro page hpage
          show ((_ ++ _ :: _).foldl after (start heap)).heap page = _
          rw [List.foldl_append, List.foldl_cons]
          refine (hleft.2 page).trans ?_
          rw [if_pos hpage]
          rfl
      · intro page hpage
        refine ⟨?_, (hnever page).mpr (.inl hpage)⟩
        exact (congrFun hsame page).trans (hold page hpage)

end Ledger

/-! ## What is left to do -/

/-- The call in progress, while its entry is not in the ledger yet. -/
def Control.calls : Control → List OwnerCall
  | .other => []
  | .spin page delay overrideNever =>
      [.useDelayedFree page delay overrideNever]
  | .drain heap all _ => if all then [.delayedFreeAll heap] else []

def FreeState.remaining {ι : Type*} (st : FreeState ι) : List OwnerCall :=
  st.owner.control.calls ++ st.calls

/-- In a call with `override_never`. -/
def OwnerPc.overrides : OwnerPc → Bool
  | .useLoad _ _ overrideNever _ _ | .useExchange _ _ overrideNever _ _ _ =>
      overrideNever
  | _ => false

theorem AfterCollect.pc_overrides (after : AfterCollect) :
    after.pc.overrides = false := by
  cases after <;> rfl

theorem afterThreadFreeCollect_overrides (page : ℕ)
    (within : Option (Bool × AfterCollect)) :
    (afterThreadFreeCollect page within).overrides = false := by
  cases within <;> rfl

theorem AfterUse.pc_overrides (page : ℕ) (delay : DelayRequest) (ok : Bool)
    (after : AfterUse) : (after.pc page delay false ok).overrides = false := by
  cases after <;> cases ok <;> rfl

theorem ownerStep_overrides {pageOf : Addr → ℕ} {capacity : ℕ → ℕ}
    {fail : Bool} {mem mem' : FreeMemory} {pc pc' : OwnerPc}
    (hstep : ownerStep pageOf capacity fail mem pc = some (pc', mem'))
    (hkeep : pc.overrides = false) : pc'.overrides = false := by
  cases pc with
  | useLoad page delay overrideNever yieldCount after =>
      have hover : overrideNever = false := hkeep
      subst hover
      simp only [ownerStep] at hstep
      repeat' split at hstep
      all_goals cases hstep
      all_goals first | exact after.pc_overrides _ _ _ | rfl
  | useExchange page delay overrideNever yieldCount tfree after =>
      have hover : overrideNever = false := hkeep
      subst hover
      simp only [ownerStep] at hstep
      repeat' split at hstep
      all_goals cases hstep
      all_goals first | exact after.pc_overrides _ _ _ | rfl
  | collectExchange page tfree within =>
      simp only [ownerStep] at hstep
      repeat' split at hstep
      all_goals cases hstep
      all_goals
        first | exact afterThreadFreeCollect_overrides _ _ | rfl
  | collectAppend page head within =>
      simp only [ownerStep, Option.some.injEq, Prod.mk.injEq] at hstep
      obtain ⟨rfl, -⟩ := hstep
      exact afterThreadFreeCollect_overrides _ _
  | moveLocalFree page force after =>
      simp only [ownerStep] at hstep
      repeat' split at hstep
      all_goals cases hstep
      all_goals exact after.pc_overrides
  | visitBlock heap all block allFreed =>
      cases block with
      | none =>
          simp only [ownerStep, Option.some.injEq, Prod.mk.injEq] at hstep
          obtain ⟨rfl, -⟩ := hstep
          split <;> rfl
      | some block =>
          cases hstep
          rfl
  | freeLocal v =>
      simp only [ownerStep, Option.some.injEq, Prod.mk.injEq] at hstep
      obtain ⟨rfl, -⟩ := hstep
      split <;> rfl
  | _ =>
      simp only [ownerStep] at hstep
      repeat' split at hstep
      all_goals cases hstep
      all_goals rfl

/-! ## Delayed lists -/

theorem FreeMove.delayed {page : ℕ} {block : Addr} {mem mem' : FreeMemory}
    {pc pc' : FreePc} (h : FreeMove page block mem pc pc' mem') (heap : ℕ) :
    mem'.threadDelayedFree heap = mem.threadDelayedFree heap ∨
      pc.heap = some heap := by
  cases h with
  | quiet hmem =>
      rcases hmem with rfl | ⟨target, rfl, -⟩ <;> exact .inl rfl
  | @pushDelayed other dfree =>
      by_cases hother : heap = other
      · exact .inr (congrArg some hother.symm)
      · refine .inl ?_
        simp [FreeMemory.setDelayedFree, FreeMemory.setNext, hother]
  | _ => exact .inl rfl

theorem OwnerMove.delayed {pageOf : Addr → ℕ} {capacity : ℕ → ℕ}
    {mem mem' : FreeMemory} {pc pc' : OwnerPc}
    (h : OwnerMove pageOf capacity mem pc pc' mem') (heap : ℕ) :
    mem'.threadDelayedFree heap = mem.threadDelayedFree heap ∨
      mem'.threadDelayedFree heap = none ∨
      ∃ all, pc.control = .drain heap all false := by
  cases h with
  | quiet hmem =>
      rcases hmem with rfl | ⟨block, target, -, rfl⟩ <;> exact .inl rfl
  | append =>
      refine .inl ?_
      simp only
      split <;> rfl
  | @takeDelayed other =>
      by_cases hother : heap = other
      · refine .inr (.inl ?_)
        simp [FreeMemory.setDelayedFree, hother]
      · refine .inl ?_
        simp [FreeMemory.setDelayedFree, hother]
  | @reinsert v dfree =>
      by_cases hother : heap = v.heap
      · refine .inr (.inr ⟨v.all, ?_⟩)
        rw [hother]
        rfl
      · refine .inl ?_
        simp [FreeMemory.setDelayedFree, FreeMemory.setNext, hother]
  | _ => exact .inl rfl

section Step

variable {ι : Type*} [DecidableEq ι] {sys : FreeSystem ι}
  {st st' : FreeState ι}

/-- A delayed list only grows by a thread that keeps a pointer to its heap,
or by the owner that puts a block back. -/
theorem FreeStep.delayed (hstep : FreeStep sys st st') (heap : ℕ) :
    st'.mem.threadDelayedFree heap = st.mem.threadDelayedFree heap ∨
      st'.mem.threadDelayedFree heap = none ∨
      (∃ i, (st.pc i).heap = some heap) ∨
      ∃ all, st.owner.control = .drain heap all false := by
  cases hstep with
  | thread i fail =>
      have hmove :=
        freeStep_move (sys.page i) (sys.block i) fail st.mem (st.pc i)
      rcases hmove.delayed heap with hsame | hheap
      · exact .inl hsame
      · exact .inr (.inr (.inl ⟨i, hheap⟩))
  | owner fail hstep =>
      rcases (ownerStep_move hstep).delayed heap with hsame | hnone | hdrain
      · exact .inl hsame
      · exact .inr (.inl hnone)
      · exact .inr (.inr (.inr hdrain))
  | call hidle hcalls =>
      rename_i call calls
      refine .inl ?_
      cases call <;> rfl

theorem FreeStep.overrides (hstep : FreeStep sys st st')
    (hkeep : st.owner.overrides = false) :
    st'.owner.overrides = false ∨
      ∃ call, st.calls = call :: st'.calls ∧
        st'.owner = (call.begin st.mem).1 := by
  cases hstep with
  | thread => exact .inl hkeep
  | owner fail hstep => exact .inl (ownerStep_overrides hstep hkeep)
  | call hidle hcalls => exact .inr ⟨_, hcalls, rfl⟩

end Step

/-! ## The entries are true -/

structure Ledger.Sound {ι : Type*} (l : Ledger) (sys : FreeSystem ι)
    (old : ℕ) (mem : FreeMemory) (pc : ι → FreePc) : Prop where
  xheap : mem.xheap = l.heap
  settled : ∀ i, l.settled (sys.page i) → (pc i).heap ≠ some old
  moved : ∀ page, l.settled page → l.heap page ≠ some old ∨ l.never page
  never : ∀ page, l.never page → mem.flag page = .neverDelayedFree
  heap : ∀ i, l.heap (sys.page i) ≠ none ∨ l.never (sys.page i)
  drained : l.drained → (∀ i, l.settled (sys.page i)) ∧
    mem.threadDelayedFree old = none

namespace Ledger.Sound

variable {ι : Type*} {sys : FreeSystem ι} {old : ℕ} {l : Ledger}
  {mem : FreeMemory} {pc : ι → FreePc}

/-- The owner has waited for a page. -/
theorem after_use (h : l.Sound sys old mem pc) {page : ℕ}
    {delay : DelayRequest} {overrideNever : Bool}
    (hout : ∀ i, sys.page i = page → ¬ (pc i).Inside)
    (hleft : delay.val = .neverDelayedFree ∨ l.heap page ≠ some old)
    (hnever : delay.val = .neverDelayedFree →
      mem.flag page = .neverDelayedFree) :
    (l.after (.useDelayedFree page delay overrideNever)).Sound sys old mem
      pc := by
  constructor
  · exact h.xheap
  · intro i hsettled
    rcases hsettled with hpage | hbefore
    · intro hheap
      exact hout i hpage (FreePc.inside_of_heap hheap)
    · exact h.settled i hbefore
  · intro other hsettled
    rcases hsettled with rfl | hbefore
    · rcases hleft with hdelay | hheap
      · exact .inr (.inl ⟨rfl, hdelay⟩)
      · exact .inl hheap
    · exact (h.moved other hbefore).imp_right .inr
  · intro other hmarked
    rcases hmarked with ⟨rfl, hdelay⟩ | hbefore
    · exact hnever hdelay
    · exact h.never other hbefore
  · exact fun i => (h.heap i).imp_right .inr
  · intro hdrained
    obtain ⟨hall, hempty⟩ := h.drained hdrained
    exact ⟨fun i => .inr (hall i), hempty⟩

theorem after_drain (h : l.Sound sys old mem pc)
    (hall : ∀ i, l.settled (sys.page i))
    (hempty : mem.threadDelayedFree old = none) :
    (l.after (.delayedFreeAll old)).Sound sys old mem pc :=
  ⟨h.xheap, h.settled, h.moved, h.never, h.heap, fun _ => ⟨hall, hempty⟩⟩

theorem after_setHeap (h : l.Sound sys old mem pc) {page : ℕ}
    {heap : Option ℕ} (hnew : heap ≠ some old)
    (hnone : heap = none → l.never page) :
    (l.after (.setHeap page heap)).Sound sys old
      (OwnerCall.begin mem (.setHeap page heap)).2 pc := by
  have hheaps : ∀ other, (l.after (.setHeap page heap)).heap other =
      if other = page then heap else l.heap other := by
    intro other
    exact Function.update_apply ..
  constructor
  · show Function.update mem.xheap page heap = _
    rw [h.xheap]
    rfl
  · exact h.settled
  · intro other hsettled
    rw [hheaps]
    split
    · exact .inl hnew
    · exact h.moved other hsettled
  · exact h.never
  · intro i
    rw [hheaps]
    split
    · next hpage =>
        cases heap with
        | none =>
            rw [hpage]
            exact .inr (hnone rfl)
        | some new => exact .inl (Option.some_ne_none new)
    · exact h.heap i
  · exact h.drained

theorem heap_of_inside {st : FreeState ι}
    (h : l.Sound sys old st.mem st.pc) (hflags : FlagInvariant sys st) {i : ι}
    (hinside : (st.pc i).Inside) : st.mem.xheap (sys.page i) ≠ none := by
  rw [h.xheap]
  rcases h.heap i with hheap | hnever
  · exact hheap
  · have hflag := h.never _ hnever
    rw [hflags.inside i hinside] at hflag
    cases hflag

/-- Steps that make no entry keep the entries true. -/
theorem step [DecidableEq ι] {st st' : FreeState ι}
    (h : l.Sound sys old st.mem st.pc) (hflags : FlagInvariant sys st)
    (hkeep : st.owner.overrides = false) (hstep : FreeStep sys st st')
    (hxheap : st'.mem.xheap = st.mem.xheap)
    (hdrain : l.drained → ∀ all,
      st.owner.control ≠ .drain old all false) :
    l.Sound sys old st'.mem st'.pc := by
  constructor
  · rw [hxheap]
    exact h.xheap
  · intro i hsettled hheap
    rcases hstep.heap hheap with hbefore | ⟨hinside, hload⟩
    · exact h.settled i hsettled hbefore
    · rw [h.xheap] at hload
      rcases h.moved _ hsettled with hmoved | hnever
      · exact hmoved hload
      · have hflag := h.never _ hnever
        rw [hflags.inside i hinside] at hflag
        cases hflag
  · exact h.moved
  · intro page hnever
    rcases hstep.never hflags (h.never page hnever) with hflag |
      ⟨delay, yieldCount, tfree, after, howner⟩
    · exact hflag
    · rw [howner] at hkeep
      cases hkeep
  · exact h.heap
  · intro hdrained
    obtain ⟨hall, hempty⟩ := h.drained hdrained
    refine ⟨hall, ?_⟩
    rcases hstep.delayed old with hsame | hnone | ⟨i, hheap⟩ | ⟨all, hcontrol⟩
    · rw [hsame]
      exact hempty
    · exact hnone
    · exact absurd hheap (h.settled i (hall i))
    · exact absurd hcontrol (hdrain hdrained all)

end Ledger.Sound

/-! ## The invariant of a handover -/

structure HandoverInvariant {ι : Type*} (sys : FreeSystem ι) (old : ℕ)
    (pages : List ℕ) (goal l : Ledger) (st : FreeState ι) : Prop where
  free : FreeInvariant sys st fun i heap =>
    heap = old ∨ st.mem.xheap (sys.page i) = some heap
  sound : l.Sound sys old st.mem st.pc
  plan : l.Plan old pages st.remaining
  goal : st.remaining.foldl Ledger.after l = goal
  pending : l.drained ∨ .delayedFreeAll old ∈ st.remaining
  overrides : st.owner.overrides = false
  drain : ∀ heap all allFreed, st.owner.control = .drain heap all allFreed →
    heap = old ∧ ¬ l.drained ∧
      (all = true → allFreed = true → st.mem.threadDelayedFree old = none)

namespace HandoverInvariant

variable {ι : Type*} {sys : FreeSystem ι} {old : ℕ} {pages : List ℕ}
  {goal l : Ledger} {st st' : FreeState ι}

theorem settled_of_drain (h : HandoverInvariant sys old pages goal l st)
    (hpages : ∀ i, sys.page i ∈ pages) {heap : ℕ} {allFreed : Bool}
    (hdrain : st.owner.control = .drain heap true allFreed) (i : ι) :
    l.settled (sys.page i) := by
  have hplan := h.plan
  unfold FreeState.remaining at hplan
  rw [hdrain] at hplan
  exact hplan.1.2.2 _ (hpages i)

variable [DecidableEq ι]

theorem free_step (h : HandoverInvariant sys old pages goal l st)
    (hstep : FreeStep sys st st')
    (hmono : ∀ i, st.mem.xheap (sys.page i) = some old ∨
      st'.mem.xheap (sys.page i) = st.mem.xheap (sys.page i)) :
    FreeInvariant sys st' fun i heap =>
      heap = old ∨ st'.mem.xheap (sys.page i) = some heap := by
  apply h.free.step hstep
  · exact fun i hinside => h.sound.heap_of_inside h.free.flags hinside
  · exact fun i heap _ hload => .inr hload
  · intro i heap hhome
    rcases hhome with rfl | hheap
    · exact .inl rfl
    · rcases hmono i with hold | hsame
      · rw [hold] at hheap
        exact .inl (Option.some.inj hheap).symm
      · rw [hsame]
        exact .inr hheap

/-- The owner goes on with a call. -/
theorem step_control (h : HandoverInvariant sys old pages goal l st)
    (hpages : ∀ i, sys.page i ∈ pages) (hstep : FreeStep sys st st')
    (hmove : ControlMove st'.mem st.owner.control st'.owner.control)
    (hxheap : st'.mem.xheap = st.mem.xheap)
    (hcalls : st'.calls = st.calls)
    (hkeep : st'.owner.overrides = false) :
    ∃ l', HandoverInvariant sys old pages goal l' st' := by
  have hfree := h.free_step hstep fun i => .inr (by rw [hxheap])
  have hsound : l.Sound sys old st'.mem st'.pc := by
    apply h.sound.step h.free.flags h.overrides hstep hxheap
    intro hdrained all hcontrol
    exact (h.drain _ _ _ hcontrol).2.1 hdrained
  have hplan := h.plan
  have hgoal := h.goal
  have hpending := h.pending
  have hdrain := h.drain
  have hsettled := @settled_of_drain _ _ _ _ _ _ _ h hpages
  unfold FreeState.remaining at hplan hgoal hpending
  rw [← hcalls] at hplan hgoal hpending
  -- the old list stays empty once it was found empty
  have hstays : ∀ heap, st.owner.control = .drain heap true true →
      st'.mem.threadDelayedFree old = none := by
    intro heap hcontrol
    obtain ⟨rfl, -, hempty⟩ := h.drain heap true true hcontrol
    rcases hstep.delayed heap with hsame | hnone | ⟨i, hheap⟩ | ⟨all, hagain⟩
    · rw [hsame]
      exact hempty rfl rfl
    · exact hnone
    · exact absurd hheap (h.sound.settled i (hsettled hcontrol i))
    · rw [hcontrol] at hagain
      cases hagain
  generalize hbefore : st.owner.control = control at *
  generalize hafter : st'.owner.control = control' at hmove
  have hremaining : st'.remaining = control'.calls ++ st'.calls := by
    rw [← hafter]
    rfl
  cases hmove with
  | stay =>
      refine ⟨l, hfree, hsound, ?_, ?_, ?_, hkeep, ?_⟩
      · rwa [hremaining]
      · rwa [hremaining]
      · rwa [hremaining]
      · intro heap all allFreed hcontrol
        rw [hafter] at hcontrol
        obtain ⟨hheap, hnot, -⟩ := hdrain heap all allFreed hcontrol
        refine ⟨hheap, hnot, ?_⟩
        rintro rfl rfl
        exact hstays heap hcontrol
  | @settled page delay overrideNever hfreeing hflag =>
      obtain ⟨⟨hover, hleft⟩, hplan'⟩ := hplan
      refine ⟨l.after (.useDelayedFree page delay overrideNever), hfree,
        ?_, ?_, ?_, ?_, hkeep, ?_⟩
      · apply hsound.after_use
        · rintro i rfl
          exact hfree.flags.not_inside hfreeing
        · exact hleft
        · intro hdelay
          rcases hflag with hsame | ⟨-, hnever⟩
          · exact hsame.trans hdelay
          · exact hnever
      · rwa [hremaining]
      · rwa [hremaining]
      · rw [hremaining]
        refine hpending.imp_right fun hmem => ?_
        simpa [Control.calls] using hmem
      · intro heap all allFreed hcontrol
        rw [hafter] at hcontrol
        cases hcontrol
  | @emptied heap all allFreed hempty =>
      obtain ⟨rfl, hnot, -⟩ := hdrain heap all allFreed rfl
      refine ⟨l, hfree, hsound, ?_, ?_, ?_, hkeep, ?_⟩
      · rwa [hremaining]
      · rwa [hremaining]
      · rwa [hremaining]
      · intro heap' all' allFreed' hcontrol
        rw [hafter] at hcontrol
        cases hcontrol
        exact ⟨rfl, hnot, fun _ _ => hempty⟩
  | @postponed heap all allFreed =>
      obtain ⟨rfl, hnot, -⟩ := hdrain heap all allFreed rfl
      refine ⟨l, hfree, hsound, ?_, ?_, ?_, hkeep, ?_⟩
      · rwa [hremaining]
      · rwa [hremaining]
      · rwa [hremaining]
      · intro heap' all' allFreed' hcontrol
        rw [hafter] at hcontrol
        cases hcontrol
        exact ⟨rfl, hnot, fun _ => nofun⟩
  | @drained heap all allFreed hall =>
      obtain ⟨rfl, hnot, -⟩ := hdrain heap all allFreed rfl
      have hidle : ∀ heap' all' allFreed',
          st'.owner.control ≠ .drain heap' all' allFreed' := by
        intro heap' all' allFreed' hcontrol
        rw [hafter] at hcontrol
        cases hcontrol
      cases all with
      | false =>
          refine ⟨l, hfree, hsound, ?_, ?_, ?_, hkeep, ?_⟩
          · rwa [hremaining]
          · rwa [hremaining]
          · rwa [hremaining]
          · exact fun _ _ _ hcontrol => absurd hcontrol (hidle _ _ _)
      | true =>
          have hfreed := hall rfl
          subst hfreed
          refine ⟨l.after (.delayedFreeAll heap), hfree, ?_, ?_, ?_,
            .inl trivial, hkeep, ?_⟩
          · exact hsound.after_drain (hsettled rfl) (hstays heap rfl)
          · rw [hremaining]
            exact hplan.2
          · rwa [hremaining]
          · exact fun _ _ _ hcontrol => absurd hcontrol (hidle _ _ _)

/-- The owner begins a call that makes no entry by itself: the call stays
among what is left, or it makes no entry at all. -/
theorem step_begin (h : HandoverInvariant sys old pages goal l st)
    (hstep : FreeStep sys st st') (hmem : st'.mem = st.mem)
    (hpc : st'.pc = st.pc)
    (hremaining : st'.remaining = st.remaining ∨
      ∃ call, st.remaining = call :: st'.remaining ∧ l.after call = l ∧
        call ≠ .delayedFreeAll old)
    (hkeep : st'.owner.overrides = false)
    (hdrain : ∀ heap all allFreed,
      st'.owner.control = .drain heap all allFreed →
        heap = old ∧ ¬ l.drained ∧ allFreed = false) :
    HandoverInvariant sys old pages goal l st' := by
  have hplan := h.plan
  have hgoal := h.goal
  have hpending := h.pending
  have hrest : l.Plan old pages st'.remaining ∧
      st'.remaining.foldl Ledger.after l = goal ∧
      (l.drained ∨ .delayedFreeAll old ∈ st'.remaining) := by
    rcases hremaining with hsame | ⟨call, hcons, hafter, hne⟩
    · rw [hsame]
      exact ⟨hplan, hgoal, hpending⟩
    · rw [hcons] at hplan hgoal hpending
      obtain ⟨-, hplan⟩ := hplan
      rw [List.foldl_cons] at hgoal
      rw [hafter] at hplan hgoal
      refine ⟨hplan, hgoal, hpending.imp_right fun hlater => ?_⟩
      exact (List.mem_cons.mp hlater).resolve_left hne.symm
  refine ⟨h.free_step hstep fun i => .inr (by rw [hmem]), ?_, hrest.1,
    hrest.2.1, hrest.2.2, hkeep, ?_⟩
  · rw [hmem, hpc]
    exact h.sound
  · intro heap all allFreed hcontrol
    obtain ⟨hheap, hnot, hfreed⟩ := hdrain heap all allFreed hcontrol
    refine ⟨hheap, hnot, fun _ hall => ?_⟩
    rw [hfreed] at hall
    cases hall

/-- The owner begins the next call. -/
theorem step_call (h : HandoverInvariant sys old pages goal l st)
    (hstep : FreeStep sys st st') (hidle : st.owner = .idle)
    {call : OwnerCall} (hcalls : st.calls = call :: st'.calls)
    (howner : st'.owner = (call.begin st.mem).1)
    (hmem : st'.mem = (call.begin st.mem).2) (hpc : st'.pc = st.pc) :
    ∃ l', HandoverInvariant sys old pages goal l' st' := by
  have hremaining : st.remaining = call :: st'.calls := by
    unfold FreeState.remaining
    rw [hidle, hcalls]
    rfl
  have hplan := h.plan
  rw [hremaining] at hplan
  obtain ⟨hallows, hplan'⟩ := hplan
  have hrest : st'.remaining =
      (call.begin st.mem).1.control.calls ++ st'.calls := by
    rw [← howner]
    rfl
  have hother : (call.begin st.mem).1.control = .other →
      ∀ heap all allFreed, st'.owner.control ≠ .drain heap all allFreed := by
    intro hcontrol heap all allFreed hdrain
    rw [howner, hcontrol] at hdrain
    cases hdrain
  cases call with
  | setHeap page heap =>
      obtain ⟨hold, hnew, hnone⟩ := hallows
      have hgoal := h.goal
      have hpending := h.pending
      rw [hremaining] at hgoal hpending
      refine ⟨l.after (.setHeap page heap), ?_, ?_, ?_, ?_, ?_, ?_, ?_⟩
      · apply h.free_step hstep
        intro i
        by_cases hpage : sys.page i = page
        · refine .inl ?_
          rw [h.sound.xheap, hpage]
          exact hold
        · refine .inr ?_
          rw [hmem]
          exact Function.update_of_ne hpage heap st.mem.xheap
      · rw [hmem, hpc]
        exact h.sound.after_setHeap hnew hnone
      · rw [hrest]
        exact hplan'
      · rw [hrest]
        exact hgoal
      · rw [hrest]
        refine hpending.imp_right fun hlater => ?_
        simpa [Control.calls, OwnerCall.begin, OwnerPc.control] using hlater
      · rw [howner]
        rfl
      · exact fun _ _ _ hdrain => absurd hdrain (hother rfl _ _ _)
  | threadFreeCollect page =>
      refine ⟨l, h.step_begin hstep hmem hpc
        (.inr ⟨.threadFreeCollect page, ?_, rfl, nofun⟩) ?_ ?_⟩
      · rw [hrest]
        exact hremaining
      · rw [howner]
        rfl
      · exact fun _ _ _ hdrain => absurd hdrain (hother rfl _ _ _)
  | freeCollect page force =>
      refine ⟨l, h.step_begin hstep hmem hpc
        (.inr ⟨.freeCollect page force, ?_, rfl, nofun⟩) ?_ ?_⟩
      · rw [hrest]
        exact hremaining
      · rw [howner]
        rfl
      · exact fun _ _ _ hdrain => absurd hdrain (hother rfl _ _ _)
  | tryUseDelayedFree page delay overrideNever =>
      refine ⟨l, h.step_begin hstep hmem hpc
        (.inr ⟨.tryUseDelayedFree page delay overrideNever, ?_, rfl, nofun⟩) ?_ ?_⟩
      · rw [hrest]
        exact hremaining
      · rw [howner]
        exact hallows
      · exact fun _ _ _ hdrain => absurd hdrain (hother rfl _ _ _)
  | useDelayedFree page delay overrideNever =>
      refine ⟨l, h.step_begin hstep hmem hpc (.inl ?_) ?_ ?_⟩
      · rw [hrest]
        exact hremaining.symm
      · rw [howner]
        exact hallows.1
      · intro heap all allFreed hdrain
        rw [howner] at hdrain
        cases hdrain
  | delayedFreePartial heap =>
      refine ⟨l, h.step_begin hstep hmem hpc
        (.inr ⟨.delayedFreePartial heap, ?_, rfl, nofun⟩) ?_ ?_⟩
      · rw [hrest]
        exact hremaining
      · rw [howner]
        rfl
      · intro other all allFreed hdrain
        rw [howner] at hdrain
        cases hdrain
        exact ⟨hallows.1, hallows.2, rfl⟩
  | delayedFreeAll heap =>
      refine ⟨l, h.step_begin hstep hmem hpc (.inl ?_) ?_ ?_⟩
      · rw [hrest]
        exact hremaining.symm
      · rw [howner]
        rfl
      · intro other all allFreed hdrain
        rw [howner] at hdrain
        cases hdrain
        exact ⟨hallows.1, hallows.2.1, rfl⟩

theorem step (h : HandoverInvariant sys old pages goal l st)
    (hpages : ∀ i, sys.page i ∈ pages) (hstep : FreeStep sys st st') :
    ∃ l', HandoverInvariant sys old pages goal l' st' := by
  rcases hstep.control with ⟨hmove, hxheap, hcalls⟩ |
    ⟨hidle, call, hcalls, howner, hmem, hpc⟩
  · refine h.step_control hpages hstep hmove hxheap hcalls ?_
    rcases hstep.overrides h.overrides with hkeep | ⟨call, hbegin, -⟩
    · exact hkeep
    · have hlength := congrArg List.length (hcalls.trans hbegin)
      simp at hlength
  · exact h.step_call hstep hidle hcalls howner hmem hpc

theorem run {start : FreeState ι}
    (h : HandoverInvariant sys old pages goal l start)
    (hpages : ∀ i, sys.page i ∈ pages)
    (hrun : Relation.ReflTransGen (FreeStep sys) start st) :
    ∃ l', HandoverInvariant sys old pages goal l' st := by
  induction hrun with
  | refl => exact ⟨l, h⟩
  | tail _ hstep ih =>
      obtain ⟨l', h'⟩ := ih
      exact h'.step hpages hstep

end HandoverInvariant

/-! ## Runs -/

section Runs

variable {ι : Type*} {sys : FreeSystem ι} {old : ℕ} {pages : List ℕ}
  {handover : Handover} {start st : FreeState ι}

theorem DelayedFreeStart.handover_start (hstart : DelayedFreeStart sys start)
    (hheap : handover.heap ≠ some old) (hnodup : pages.Nodup)
    (hpages : ∀ i, sys.page i ∈ pages)
    (hold : ∀ page ∈ pages, start.mem.xheap page = some old)
    (hcalls : start.calls = handover.calls old pages) :
    HandoverInvariant sys old pages
      ((handover.calls old pages).foldl Ledger.after
        (Ledger.start start.mem.xheap))
      (Ledger.start start.mem.xheap) start := by
  have hremaining : start.remaining = handover.calls old pages := by
    unfold FreeState.remaining
    rw [hstart.idle, hcalls]
    rfl
  constructor
  · exact hstart.invariant
  · refine ⟨rfl, nofun, nofun, nofun, ?_, nofun⟩
    intro i
    refine .inl ?_
    show start.mem.xheap (sys.page i) ≠ none
    rw [hold _ (hpages i)]
    exact Option.some_ne_none old
  · rw [hremaining]
    exact (Ledger.handover_plan old pages handover _ hheap hnodup hold).1
  · rw [hremaining]
  · rw [hremaining]
    refine .inr ?_
    cases handover <;> simp [Handover.calls]
  · rw [hstart.idle]
    rfl
  · intro heap all allFreed hcontrol
    rw [hstart.idle] at hcontrol
    cases hcontrol

/-- Absorbing or abandoning a heap while threads free blocks of its pages: no
thread finds a page without a heap; once the drain is complete no thread keeps
a pointer to the old heap and its delayed list stays empty; and when all
threads are done every block is in one spot, on the lists of its page or on
the delayed list of the heap that its page has then. -/
theorem heap_handover [DecidableEq ι] (hstart : DelayedFreeStart sys start)
    (hheap : handover.heap ≠ some old) (hnodup : pages.Nodup)
    (hpages : ∀ i, sys.page i ∈ pages)
    (hold : ∀ page ∈ pages, start.mem.xheap page = some old)
    (hcalls : start.calls = handover.calls old pages)
    (hrun : Relation.ReflTransGen (FreeStep sys) start st) :
    (∀ i, st.pc i = .loadHeap → st.mem.xheap (sys.page i) ≠ none) ∧
      (.delayedFreeAll old ∉ st.remaining →
        (∀ i, (st.pc i).heap ≠ some old) ∧
        st.mem.threadDelayedFree old = none ∧
        ∀ st', FreeStep sys st st' →
          st'.mem.threadDelayedFree old = none) ∧
      (st.owner = .idle → st.calls = [] →
        (∀ page ∈ pages, st.mem.xheap page = handover.heap) ∧
        ((∀ i, st.pc i = .done) → ∀ i,
          (∃! spot, st.At sys (sys.block i) spot) ∧
          ∀ spot, st.At sys (sys.block i) spot →
            spot = .localFree (sys.page i) ∨ spot = .free (sys.page i) ∨
              spot = .threadFree (sys.page i) ∨
              ∃ heap, handover.heap = some heap ∧
                spot = .delayed heap)) := by
  obtain ⟨l, h⟩ := (hstart.handover_start hheap hnodup hpages hold hcalls).run
    hpages hrun
  obtain ⟨loc, hplace, hhome⟩ := h.free.lists
  refine ⟨?_, ?_, ?_⟩
  · intro i hpc
    apply h.sound.heap_of_inside h.free.flags
    rw [hpc]
    trivial
  · intro hdone
    have hdrained := h.pending.resolve_right hdone
    obtain ⟨hall, hempty⟩ := h.sound.drained hdrained
    refine ⟨fun i => h.sound.settled i (hall i), hempty, ?_⟩
    intro st' hstep
    rcases hstep.delayed old with hsame | hnone | ⟨i, hpointer⟩ |
      ⟨all, hcontrol⟩
    · rw [hsame]
      exact hempty
    · exact hnone
    · exact absurd hpointer (h.sound.settled i (hall i))
    · exact absurd hdrained (h.drain _ _ _ hcontrol).2.1
  · intro hidle hcalls'
    have hremaining : st.remaining = [] := by
      unfold FreeState.remaining
      rw [hidle, hcalls']
      rfl
    have hgoal := h.goal
    rw [hremaining] at hgoal
    have hxheap : ∀ page ∈ pages, st.mem.xheap page = handover.heap := by
      intro page hpage
      rw [h.sound.xheap, show l = _ from hgoal]
      exact (Ledger.handover_plan old pages handover _ hheap hnodup hold).2
        page hpage
    refine ⟨hxheap, ?_⟩
    intro hdone i
    refine ⟨hplace.exists_unique_spot i, ?_⟩
    intro spot hat
    have hpending := h.pending
    rw [hremaining] at hpending
    obtain ⟨-, hempty⟩ :=
      h.sound.drained (hpending.resolve_right List.not_mem_nil)
    cases spot with
    | held j =>
        have hholds := hat.2
        rw [hdone j] at hholds
        exact hholds.elim
    | threadFree page =>
        rw [hplace.spot_page hat rfl]
        exact .inr (.inr (.inl rfl))
    | localFree page =>
        rw [hplace.spot_page hat rfl]
        exact .inl rfl
    | free page =>
        rw [hplace.spot_page hat rfl]
        exact .inr (.inl rfl)
    | delayed heap =>
        have hloc := (hplace.onList_iff (.delayed heap) _).mp hat
        refine .inr (.inr (.inr ⟨heap, ?_, rfl⟩))
        rcases hhome.list i heap hloc with rfl | hnow
        · have hnone : placeHead st.mem st.owner (.delayed heap) = none :=
            hempty
          exact absurd hloc (hplace.lists.loc_ne hnone _)
        · rw [← hxheap _ (hpages i)]
          exact hnow
    | processing =>
        exfalso
        rcases hat with hblock | ⟨l, hchain, hmem⟩ | ⟨page, head, htaken, -⟩
        · rw [hidle] at hblock
          cases hblock
        · rw [hidle] at hchain
          rw [hchain.eq_nil] at hmem
          cases hmem
        · rw [hidle] at htaken
          cases htaken

end Runs

/-- Thread 0 has read the old heap of its page just before the owner stored
the new one; the drain is still to come. -/
theorem heap_handover_fullPagesState :
    ∃ st, Relation.ReflTransGen (FreeStep twoFreers)
        (fullPagesState ((Handover.absorb 1).calls 0 [0])) st ∧
      (st.pc 0).heap = some 0 ∧ st.mem.xheap 0 = some 1 ∧
      .delayedFreeAll 0 ∈ st.remaining := by
  have hfirst := @FreeStep.thread (Fin 2) _ twoFreers
    (fullPagesState ((Handover.absorb 1).calls 0 [0])) 0 false
  have hrun := ((((((Relation.ReflTransGen.single hfirst).tail
    (.thread _ 0 false)).tail (.thread _ 0 false)).tail
    (.call _ rfl rfl)).tail (.owner _ false rfl)).tail
    (.owner _ false rfl)).tail (.call _ rfl rfl)
  refine ⟨_, hrun, rfl, rfl, ?_⟩
  by_contra hdone
  have hnew : (Handover.absorb 1).heap ≠ some 0 := by decide
  have hnodup : ([0] : List ℕ).Nodup := by decide
  have hsafe := (heap_handover (fullPagesState_start _) hnew hnodup
    (by decide) (fun _ _ => rfl) rfl hrun).2.1 hdone
  exact hsafe.1 0 rfl

end Palloc
