import Palloc.DelayedFreePlacement

/-!
# The heap of a delayed block

What the owner is doing, as far as heaps and flags are concerned: waiting for
a flag, or draining the delayed list of a heap.  A delayed block is only ever
on the list of a heap that its page had when the freeing thread looked, and a
drain puts it back on the list that it came from.
-/

namespace Palloc

open LinkedChain SharedStacks

/-! ## What the owner is doing -/

inductive Control where
  | other
  /-- In `_pa_page_use_delayed_free`. -/
  | spin (page : ℕ) (delay : DelayRequest) (overrideNever : Bool)
  /-- In `_pa_heap_delayed_free_partial`, or `_all`; `allFreed` once the list
  is taken and nothing was put back. -/
  | drain (heap : ℕ) (all allFreed : Bool)

def AfterCollect.control : AfterCollect → Control
  | .return => .other
  | .freeLocal v | .visitNext v => .drain v.heap v.all v.allFreed

def AfterUse.control (page : ℕ) (delay : DelayRequest)
    (overrideNever : Bool) : AfterUse → Control
  | .return => .other
  | .spin => .spin page delay overrideNever
  | .visit v => .drain v.heap v.all v.allFreed

def withinControl : Option (Bool × AfterCollect) → Control
  | none => .other
  | some (_, after) => after.control

def OwnerPc.control : OwnerPc → Control
  | .idle => .other
  | .collectLoad _ within | .collectExchange _ _ within
  | .collectAppend _ _ within => withinControl within
  | .testThreadFree _ _ after | .moveLocalFree _ _ after => after.control
  | .useLoad page delay overrideNever _ after
  | .useExchange page delay overrideNever _ _ after =>
      after.control page delay overrideNever
  | .takeLoad heap all | .takeExchange heap all _ => .drain heap all false
  | .visitBlock heap all _ allFreed => .drain heap all allFreed
  | .freeLocal v => .drain v.heap v.all v.allFreed
  | .reinsertLoad v | .reinsertExchange v _ => .drain v.heap v.all false

/-- The owner goes on, or sees the flag that it waits for, or finds the
delayed list empty, or has to put a block back, or ends a drain. -/
inductive ControlMove (mem : FreeMemory) : Control → Control → Prop where
  | stay (control : Control) : ControlMove mem control control
  | settled {page : ℕ} {delay : DelayRequest} {overrideNever : Bool}
      (hfreeing : mem.flag page ≠ .delayedFreeing)
      (hflag : mem.flag page = delay.val ∨
        overrideNever = false ∧ mem.flag page = .neverDelayedFree) :
      ControlMove mem (.spin page delay overrideNever) .other
  | emptied {heap : ℕ} {all allFreed : Bool}
      (hempty : mem.threadDelayedFree heap = none) :
      ControlMove mem (.drain heap all allFreed) (.drain heap all true)
  | postponed {heap : ℕ} {all allFreed : Bool} :
      ControlMove mem (.drain heap all allFreed) (.drain heap all false)
  | drained {heap : ℕ} {all allFreed : Bool}
      (hall : all = true → allFreed = true) :
      ControlMove mem (.drain heap all allFreed) .other

@[simp] theorem AfterCollect.pc_control (after : AfterCollect) :
    after.pc.control = after.control := by
  cases after <;> rfl

@[simp] theorem afterThreadFreeCollect_control (page : ℕ)
    (within : Option (Bool × AfterCollect)) :
    (afterThreadFreeCollect page within).control = withinControl within := by
  cases within <;> rfl

section Control

variable {pageOf : Addr → ℕ} {capacity : ℕ → ℕ} {fail : Bool}
  {mem mem' : FreeMemory} {pc pc' : OwnerPc}

/-- A failed `_pa_page_try_use_delayed_free`. -/
theorem AfterUse.control_false (page : ℕ) (delay : DelayRequest)
    (overrideNever : Bool) (after : AfterUse) :
    ControlMove mem (after.control page delay overrideNever)
      (after.pc page delay overrideNever false).control := by
  cases after with
  | «return» => exact .stay _
  | spin => exact .stay _
  | visit v => exact .postponed

/-- A successful `_pa_page_try_use_delayed_free`. -/
theorem AfterUse.control_true {page : ℕ} {delay : DelayRequest}
    {overrideNever : Bool} (after : AfterUse)
    (hfreeing : mem.flag page ≠ .delayedFreeing)
    (hflag : mem.flag page = delay.val ∨
      overrideNever = false ∧ mem.flag page = .neverDelayedFree) :
    ControlMove mem (after.control page delay overrideNever)
      (after.pc page delay overrideNever true).control := by
  cases after with
  | «return» => exact .stay _
  | spin => exact .settled hfreeing hflag
  | visit v => exact .stay _

theorem ownerStep_control
    (hstep : ownerStep pageOf capacity fail mem pc = some (pc', mem')) :
    ControlMove mem' pc.control pc'.control := by
  cases pc with
  | collectExchange page tfree within =>
      simp only [ownerStep] at hstep
      split at hstep
      · split at hstep <;> cases hstep
        · rw [afterThreadFreeCollect_control]
          exact .stay _
        · exact .stay _
      · cases hstep
        exact .stay _
  | collectAppend page head within =>
      simp only [ownerStep, Option.some.injEq, Prod.mk.injEq] at hstep
      obtain ⟨rfl, -⟩ := hstep
      rw [afterThreadFreeCollect_control]
      exact .stay _
  | testThreadFree page force after =>
      simp only [ownerStep] at hstep
      split at hstep <;> cases hstep <;> exact .stay _
  | moveLocalFree page force after =>
      have hpc : pc' = after.pc := by
        simp only [ownerStep] at hstep
        split at hstep
        · cases hstep
          rfl
        · cases hstep
          rfl
        · split at hstep
          · split at hstep <;> cases hstep
            rfl
          · cases hstep
            rfl
      rw [hpc, after.pc_control]
      exact .stay _
  | useLoad page delay overrideNever yieldCount after =>
      simp only [ownerStep] at hstep
      split at hstep
      · split at hstep <;> cases hstep
        · exact after.control_false page delay overrideNever
        · exact .stay _
      · next hfreeing =>
          split at hstep
          · next hsame =>
              cases hstep
              exact after.control_true hfreeing (.inl hsame.symm)
          · split at hstep
            · next hnever =>
                cases hstep
                refine after.control_true hfreeing (.inr ⟨?_, hnever.2⟩)
                simpa using hnever.1
            · cases hstep
              exact .stay _
  | useExchange page delay overrideNever yieldCount tfree after =>
      simp only [ownerStep] at hstep
      split at hstep
      · cases hstep
        have hflag : (mem.setThreadFree page
            ⟨tfree.block, delay.val⟩).flag page = delay.val := by
          rw [FreeMemory.flag_setThreadFree, Function.update_self]
        apply after.control_true _ (.inl hflag)
        rw [hflag]
        exact delay.2
      · cases hstep
        exact .stay _
  | takeLoad heap all =>
      simp only [ownerStep] at hstep
      split at hstep
      · next hempty =>
          cases hstep
          exact .emptied hempty
      · cases hstep
        exact .stay _
  | takeExchange heap all block =>
      simp only [ownerStep] at hstep
      split at hstep
      · cases hstep
        refine .emptied ?_
        simp [FreeMemory.setDelayedFree]
      · split at hstep
        · next hempty =>
            cases hstep
            exact .emptied hempty
        · cases hstep
          exact .stay _
  | visitBlock heap all block allFreed =>
      cases block with
      | none =>
          simp only [ownerStep, Option.some.injEq, Prod.mk.injEq] at hstep
          obtain ⟨rfl, -⟩ := hstep
          split
          · next hagain =>
              have hfreed : allFreed = false := by simpa using hagain.2
              rw [hfreed]
              exact .stay _
          · next hdone =>
              apply ControlMove.drained
              simpa using hdone
      | some block =>
          cases hstep
          exact .stay _
  | freeLocal v =>
      simp only [ownerStep, Option.some.injEq, Prod.mk.injEq] at hstep
      obtain ⟨rfl, -⟩ := hstep
      split <;> exact .stay _
  | reinsertExchange v dfree =>
      simp only [ownerStep] at hstep
      split at hstep <;> cases hstep <;> exact .stay _
  | idle =>
      cases hstep
      exact .stay _
  | collectLoad page within =>
      cases hstep
      exact .stay _
  | reinsertLoad v =>
      cases hstep
      exact .stay _

theorem ControlMove.drain_before {control control' : Control} {heap : ℕ}
    {all allFreed : Bool} (h : ControlMove mem control control')
    (hdrain : control' = .drain heap all allFreed) :
    ∃ allFreed', control = .drain heap all allFreed' := by
  cases h with
  | stay => exact ⟨allFreed, hdrain⟩
  | settled => cases hdrain
  | emptied =>
      cases hdrain
      exact ⟨_, rfl⟩
  | postponed =>
      cases hdrain
      exact ⟨_, rfl⟩
  | drained => cases hdrain

theorem OwnerMove.takes {pageOf : Addr → ℕ} {capacity : ℕ → ℕ}
    {mem mem' : FreeMemory} {pc pc' : OwnerPc} {block : Addr}
    (h : OwnerMove pageOf capacity mem pc pc' mem')
    (hblock : pc'.block = some block) :
    pc.block = some block ∨ pc.rest = some block := by
  cases h with
  | quiet _ hsame => exact .inl (hsame.symm.trans hblock)
  | collect hsame => exact .inl (hsame.symm.trans hblock)
  | @append page head within =>
      exact .inl
        ((afterThreadFreeCollect_held page within).1.symm.trans hblock)
  | @moveFree page force after => exact .inl (after.pc_block.symm.trans hblock)
  | @joinFree page force after => exact .inl (after.pc_block.symm.trans hblock)
  | @setFlag page delay overrideNever yieldCount after =>
      exact .inl
        ((after.pc_held page delay overrideNever true).1.symm.trans hblock)
  | takeDelayed => cases hblock
  | visit => exact .inr hblock
  | freeLocal hnone =>
      rw [hnone] at hblock
      cases hblock
  | reinsert => cases hblock

end Control

/-! ## Homes -/

/-- Every heap that matters for the block of thread `i` is one of its homes:
the heap whose pointer the thread keeps, the heap whose delayed list the block
is on, and the heap whose list the owner drains while it has the block. -/
structure HomeInvariant {ι : Type*} (sys : FreeSystem ι) (st : FreeState ι)
    (loc : Addr → Option Place) (home : ι → ℕ → Prop) : Prop where
  pointer : ∀ i heap, (st.pc i).heap = some heap → home i heap
  list : ∀ i heap, loc (sys.block i) = some (.delayed heap) → home i heap
  visit : ∀ i heap all allFreed, st.owner.control = .drain heap all allFreed →
    loc (sys.block i) = some .visiting ∨
      st.owner.block = some (sys.block i) → home i heap

theorem FreeMove.heap {page : ℕ} {block : Addr} {mem mem' : FreeMemory}
    {pc pc' : FreePc} (h : FreeMove page block mem pc pc' mem') :
    pc'.heap = none ∨ pc'.heap = pc.heap ∨
      (pc.Inside ∧ pc'.heap = mem.xheap page) := by
  cases h with
  | quiet _ _ _ hheap => exact .inr hheap
  | claim => exact .inl rfl
  | pushThread => exact .inl rfl
  | pushDelayed => exact .inl rfl
  | noHeap => exact .inl rfl
  | reset => exact .inl rfl

theorem FreeMove.xheap {page : ℕ} {block : Addr} {mem mem' : FreeMemory}
    {pc pc' : FreePc} (h : FreeMove page block mem pc pc' mem') :
    mem'.xheap = mem.xheap := by
  cases h with
  | quiet hmem => rcases hmem with rfl | ⟨target, rfl, -⟩ <;> rfl
  | _ => rfl

theorem OwnerMove.xheap {pageOf : Addr → ℕ} {capacity : ℕ → ℕ}
    {mem mem' : FreeMemory} {pc pc' : OwnerPc}
    (h : OwnerMove pageOf capacity mem pc pc' mem') :
    mem'.xheap = mem.xheap := by
  cases h with
  | quiet hmem => rcases hmem with rfl | ⟨block, target, -, rfl⟩ <;> rfl
  | append =>
      simp only
      split <;> rfl
  | _ => rfl

section Step

variable {ι : Type*} [DecidableEq ι] {sys : FreeSystem ι}
  {st st' : FreeState ι}

theorem FreeStep.takes (hstep : FreeStep sys st st') {block : Addr}
    (hblock : st'.owner.block = some block) :
    st.owner.block = some block ∨ st.owner.rest = some block := by
  cases hstep with
  | thread => exact .inl hblock
  | owner fail hstep => exact (ownerStep_move hstep).takes hblock
  | call hidle hcalls =>
      rename_i call calls
      have hnone : (call.begin st.mem).1.block = none := by
        cases call <;> rfl
      have hsome : (call.begin st.mem).1.block = some block := hblock
      rw [hnone] at hsome
      cases hsome

theorem FreeStep.heap (hstep : FreeStep sys st st') {i : ι} {heap : ℕ}
    (hheap : (st'.pc i).heap = some heap) :
    (st.pc i).heap = some heap ∨
      ((st.pc i).Inside ∧ st.mem.xheap (sys.page i) = some heap) := by
  cases hstep with
  | thread j fail =>
      by_cases hj : i = j
      · subst hj
        have hmove :=
          freeStep_move (sys.page i) (sys.block i) fail st.mem (st.pc i)
        simp only [Function.update_self] at hheap
        rcases hmove.heap with hnone | hsame | ⟨hinside, hload⟩
        · rw [hnone] at hheap
          cases hheap
        · exact .inl (hsame.symm.trans hheap)
        · exact .inr ⟨hinside, hload.symm.trans hheap⟩
      · simp only [Function.update_of_ne hj] at hheap
        exact .inl hheap
  | owner => exact .inl hheap
  | call => exact .inl hheap

/-- The owner's part of the control: a drain goes on, or just begins and has
no block yet. -/
theorem FreeStep.drain (hstep : FreeStep sys st st') {heap : ℕ}
    {all allFreed : Bool}
    (hdrain : st'.owner.control = .drain heap all allFreed) :
    (∃ allFreed', st.owner.control = .drain heap all allFreed') ∨
      (st.owner = .idle ∧ st'.owner.rest = none ∧
        st'.owner.block = none) := by
  cases hstep with
  | thread => exact .inl ⟨_, hdrain⟩
  | owner fail hstep =>
      exact .inl ((ownerStep_control hstep).drain_before hdrain)
  | call hidle hcalls =>
      rename_i call calls
      refine .inr ⟨hidle, ?_⟩
      cases call <;> exact ⟨rfl, rfl⟩

variable {loc loc' : Addr → Option Place} {home home' : ι → ℕ → Prop}

theorem HomeInvariant.step (h : HomeInvariant sys st loc home)
    (hplace : Placement sys st loc) (hplace' : Placement sys st' loc')
    (hstep : FreeStep sys st st')
    (hmoved : ∀ block, Moved sys st block (loc block) (loc' block))
    (hload : ∀ i heap, (st.pc i).Inside →
      st.mem.xheap (sys.page i) = some heap → home i heap)
    (hmono : ∀ i heap, home i heap → home' i heap) :
    HomeInvariant sys st' loc' home' := by
  constructor
  · intro i heap hheap
    apply hmono
    rcases hstep.heap hheap with hsame | ⟨hinside, hxheap⟩
    · exact h.pointer i heap hsame
    · exact hload i heap hinside hxheap
  · intro i heap hloc
    apply hmono
    have hone := hmoved (sys.block i)
    rw [hloc] at hone
    generalize hbefore : loc (sys.block i) = place at hone
    cases hone with
    | stay => exact h.list i heap hbefore
    | pushDelayed j _ hblock hholds hheap =>
        have hsame : j = i := sys.block_injective hblock
        subst hsame
        exact h.pointer j heap hheap
    | reinsert visit dfree howner hblock =>
        refine h.visit i visit.heap visit.all false ?_ (.inr ?_)
        · rw [howner]
          rfl
        · rw [howner, ← hblock]
          rfl
  · intro i heap all allFreed hdrain hwhere
    apply hmono
    rcases hstep.drain hdrain with ⟨allFreed', hbefore⟩ |
      ⟨-, hrest, hblock⟩
    · rcases hwhere with hloc | howner
      · have hone := hmoved (sys.block i)
        rw [hloc] at hone
        generalize hfrom : loc (sys.block i) = place at hone
        cases hone with
        | stay => exact h.visit i heap all allFreed' hbefore (.inl hfrom)
        | take taken all' head howner =>
            rw [howner] at hbefore
            cases hbefore
            exact h.list i _ hfrom
      · refine h.visit i heap all allFreed' hbefore ?_
        rcases hstep.takes howner with hsame | hrest
        · exact .inr hsame
        · have hhead : placeHead st.mem st.owner .visiting =
              some (sys.block i) := hrest
          exact .inl (hplace.lists.head_loc hhead)
    · rcases hwhere with hloc | howner
      · have hempty : placeHead st'.mem st'.owner .visiting = none := hrest
        exact absurd hloc (hplace'.lists.loc_ne hempty _)
      · rw [hblock] at howner
        cases howner

/-- A step goes on with the current call, or begins the next one; only the
beginning of a call stores a heap. -/
theorem FreeStep.control (hstep : FreeStep sys st st') :
    (ControlMove st'.mem st.owner.control st'.owner.control ∧
        st'.mem.xheap = st.mem.xheap ∧ st'.calls = st.calls) ∨
      (st.owner = .idle ∧ ∃ call, st.calls = call :: st'.calls ∧
        st'.owner = (call.begin st.mem).1 ∧
        st'.mem = (call.begin st.mem).2 ∧ st'.pc = st.pc) := by
  cases hstep with
  | thread i fail =>
      exact .inl ⟨.stay _, (freeStep_move (sys.page i) (sys.block i) fail
        st.mem (st.pc i)).xheap, rfl⟩
  | owner fail hstep =>
      exact .inl ⟨ownerStep_control hstep, (ownerStep_move hstep).xheap, rfl⟩
  | call hidle hcalls => exact .inr ⟨hidle, _, hcalls, rfl, rfl, rfl⟩

end Step

/-! ## The whole invariant -/

structure DelayedFreeStart {ι : Type*} (sys : FreeSystem ι)
    (st : FreeState ι) : Prop where
  threads : ∀ i, st.pc i = .load
  idle : st.owner = .idle
  flag : ∀ page, st.mem.flag page ≠ .delayedFreeing
  lists : ∃ loc, Placement sys st loc

structure FreeInvariant {ι : Type*} (sys : FreeSystem ι) (st : FreeState ι)
    (home : ι → ℕ → Prop) : Prop where
  flags : FlagInvariant sys st
  lists : ∃ loc, Placement sys st loc ∧ HomeInvariant sys st loc home

section Whole

variable {ι : Type*} {sys : FreeSystem ι} {st st' : FreeState ι}
  {home home' : ι → ℕ → Prop}

theorem DelayedFreeStart.invariant (h : DelayedFreeStart sys st) :
    FreeInvariant sys st home := by
  obtain ⟨loc, hplace⟩ := h.lists
  have hout : ∀ i, ¬ (st.pc i).Inside := by
    intro i
    rw [h.threads i]
    exact not_false
  refine ⟨⟨?_, ?_, ?_⟩, loc, hplace, ?_, ?_, ?_⟩
  · exact fun i hi => absurd hi (hout i)
  · exact fun i _ hi => absurd hi (hout i)
  · rw [h.idle]
    trivial
  · intro i heap hheap
    rw [h.threads i] at hheap
    cases hheap
  · intro i heap hloc
    have hheld : (st.pc i).Holds := by
      rw [h.threads i]
      trivial
    rw [(hplace.held i hheld).1] at hloc
    cases hloc
  · intro i heap all allFreed hdrain
    rw [h.idle] at hdrain
    cases hdrain

theorem FreeInvariant.step [DecidableEq ι] (h : FreeInvariant sys st home)
    (hstep : FreeStep sys st st')
    (hheap : ∀ i, (st.pc i).Inside → st.mem.xheap (sys.page i) ≠ none)
    (hload : ∀ i heap, (st.pc i).Inside →
      st.mem.xheap (sys.page i) = some heap → home i heap)
    (hmono : ∀ i heap, home i heap → home' i heap) :
    FreeInvariant sys st' home' := by
  obtain ⟨loc, hplace, hhome⟩ := h.lists
  obtain ⟨loc', hplace', hmoved⟩ := hplace.step hheap hstep
  exact ⟨h.flags.step hstep, loc', hplace',
    hhome.step hplace hplace' hstep hmoved hload hmono⟩

end Whole

end Palloc
