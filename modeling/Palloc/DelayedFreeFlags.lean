import Palloc.DelayedFree
import Mathlib.Data.Set.Basic

/-!
# The delayed-freeing flag

What one step of a freeing thread can do to memory, and the invariant of the
flag: a page is in the `DELAYED_FREEING` state exactly while one thread is
between setting and resetting it, and the owner never writes that state.
-/

namespace Palloc

def FreeMemory.flag (mem : FreeMemory) (page : ℕ) : Delayed :=
  (mem.xthreadFree page).delayed

theorem FreeMemory.flag_setThreadFree (mem : FreeMemory) (page : ℕ)
    (tfree : ThreadFree) :
    (mem.setThreadFree page tfree).flag =
      Function.update mem.flag page tfree.delayed := by
  funext other
  by_cases hother : other = page
  · subst hother
    simp [flag, setThreadFree]
  · simp [flag, setThreadFree, hother]

def FreePc.Inside : FreePc → Prop
  | .loadHeap | .loadDelayed _ | .pushDelayed _ _ | .loadReset
  | .reset _ => True
  | _ => False

def FreePc.Holds : FreePc → Prop
  | .load | .exchange _ | .loadHeap | .loadDelayed _
  | .pushDelayed _ _ => True
  | _ => False

def FreePc.heap : FreePc → Option ℕ
  | .loadDelayed heap | .pushDelayed heap _ => some heap
  | _ => none

theorem FreePc.inside_of_heap {pc : FreePc} {heap : ℕ}
    (hheap : pc.heap = some heap) : pc.Inside := by
  cases pc with
  | loadDelayed other => trivial
  | pushDelayed other dfree => trivial
  | _ => cases hheap

instance (pc : FreePc) : Decidable pc.Inside := by
  cases pc <;> unfold FreePc.Inside <;> infer_instance

instance (pc : FreePc) : Decidable pc.Holds := by
  cases pc <;> unfold FreePc.Holds <;> infer_instance

inductive FreeMove (page : ℕ) (block : Addr) (mem : FreeMemory) :
    FreePc → FreePc → FreeMemory → Prop where
  /-- Local steps, loads and failed exchanges. -/
  | quiet {pc pc' : FreePc} {mem' : FreeMemory}
      (hmem : mem' = mem ∨ ∃ target, mem' = mem.setNext block target ∧
        pc.Holds)
      (hinside : pc'.Inside ↔ pc.Inside) (hholds : pc'.Holds ↔ pc.Holds)
      (hheap : pc'.heap = pc.heap ∨
        (pc.Inside ∧ pc'.heap = mem.xheap page)) :
      FreeMove page block mem pc pc' mem'
  | claim {pc : FreePc} (hflag : mem.flag page = .useDelayedFree)
      (hout : ¬ pc.Inside) (hholds : pc.Holds) :
      FreeMove page block mem pc .loadHeap
        (mem.setThreadFree page
          ⟨(mem.xthreadFree page).block, .delayedFreeing⟩)
  | pushThread {pc : FreePc} (hout : ¬ pc.Inside) (hholds : pc.Holds) :
      FreeMove page block mem pc .done
        ((mem.setNext block (mem.xthreadFree page).block).setThreadFree page
          ⟨some block, mem.flag page⟩)
  | pushDelayed {heap : ℕ} {dfree : Option Addr} :
      FreeMove page block mem (.pushDelayed heap dfree) .loadReset
        ((mem.setNext block (mem.threadDelayedFree heap)).setDelayedFree heap
          (some block))
  | noHeap (hheap : mem.xheap page = none) :
      FreeMove page block mem .loadHeap .loadReset mem
  | reset {tfree : ThreadFree} :
      FreeMove page block mem (.reset tfree) .done
        (mem.setThreadFree page
          ⟨(mem.xthreadFree page).block, .noDelayedFree⟩)

theorem freeStep_move (page : ℕ) (block : Addr) (fail : Bool)
    (mem : FreeMemory) (pc : FreePc) :
    FreeMove page block mem pc (freeStep page block fail mem pc).1
      (freeStep page block fail mem pc).2 := by
  cases pc with
  | load => exact .quiet (.inl rfl) Iff.rfl Iff.rfl (.inl rfl)
  | exchange tfree =>
      unfold freeStep
      by_cases huse : tfree.delayed = .useDelayedFree
      · simp only [huse, if_true]
        split
        · next hword =>
            obtain ⟨rfl, -⟩ := hword
            exact .claim huse not_false trivial
        · exact .quiet (.inl rfl) Iff.rfl Iff.rfl (.inl rfl)
      · simp only [huse, if_false]
        split
        · next hword =>
            obtain ⟨hsame, -⟩ := hword
            have hsame' : mem.xthreadFree page = tfree := hsame
            rw [← hsame']
            exact .pushThread not_false trivial
        · exact .quiet (.inr ⟨_, rfl, trivial⟩) Iff.rfl Iff.rfl (.inl rfl)
  | loadHeap =>
      unfold freeStep
      cases hheap : mem.xheap page with
      | none => exact .noHeap hheap
      | some heap =>
          exact .quiet (.inl rfl) Iff.rfl Iff.rfl
            (.inr ⟨trivial, hheap.symm⟩)
  | loadDelayed heap =>
      exact .quiet (.inl rfl) Iff.rfl Iff.rfl (.inl rfl)
  | pushDelayed heap dfree =>
      unfold freeStep
      simp only
      split
      · next hword =>
          obtain ⟨hdfree, -⟩ := hword
          have hsame : mem.threadDelayedFree heap = dfree := hdfree
          rw [← hsame]
          exact .pushDelayed
      · exact .quiet (.inr ⟨dfree, rfl, trivial⟩) Iff.rfl Iff.rfl (.inl rfl)
  | loadReset => exact .quiet (.inl rfl) Iff.rfl Iff.rfl (.inl rfl)
  | reset tfree =>
      by_cases hword : mem.xthreadFree page = tfree ∧ fail = false
      · obtain ⟨rfl, rfl⟩ := hword
        simp only [freeStep, and_self, if_true]
        exact .reset
      · simp only [freeStep, hword, if_false]
        exact .quiet (.inl rfl) Iff.rfl Iff.rfl (.inl rfl)
  | done => exact .quiet (.inl rfl) Iff.rfl Iff.rfl (.inl rfl)

/-! ## The owner -/

def AfterCollect.block : AfterCollect → Option Addr
  | .freeLocal v => some v.block
  | _ => none

def AfterCollect.rest : AfterCollect → Option Addr
  | .freeLocal v | .visitNext v => v.next
  | .return => none

def AfterUse.block : AfterUse → Option Addr
  | .visit v => some v.block
  | _ => none

def AfterUse.rest : AfterUse → Option Addr
  | .visit v => v.next
  | _ => none

def OwnerPc.block : OwnerPc → Option Addr
  | .collectLoad _ within | .collectExchange _ _ within
  | .collectAppend _ _ within => within.bind (·.2.block)
  | .testThreadFree _ _ after | .moveLocalFree _ _ after => after.block
  | .useLoad _ _ _ _ after | .useExchange _ _ _ _ _ after => after.block
  | .freeLocal v | .reinsertLoad v | .reinsertExchange v _ => some v.block
  | _ => none

/-- The blocks of a delayed list that the owner has still to visit. -/
def OwnerPc.rest : OwnerPc → Option Addr
  | .collectLoad _ within | .collectExchange _ _ within
  | .collectAppend _ _ within => within.bind (·.2.rest)
  | .testThreadFree _ _ after | .moveLocalFree _ _ after => after.rest
  | .useLoad _ _ _ _ after | .useExchange _ _ _ _ _ after => after.rest
  | .visitBlock _ _ block _ => block
  | .freeLocal v | .reinsertLoad v | .reinsertExchange v _ => v.next
  | _ => none

/-- The thread-free list that the owner has taken over, and its page. -/
def OwnerPc.collected : OwnerPc → Option (ℕ × Addr)
  | .collectAppend page head _ => some (page, head)
  | _ => none

/-- The owner only exchanges a word whose flag it may replace. -/
def OwnerPc.Guarded : OwnerPc → Prop
  | .useExchange _ _ overrideNever _ tfree _ =>
      tfree.delayed ≠ .delayedFreeing ∧
        (overrideNever = false → tfree.delayed ≠ .neverDelayedFree)
  | _ => True

@[simp] theorem AfterCollect.pc_block (after : AfterCollect) :
    after.pc.block = after.block := by
  cases after <;> rfl

@[simp] theorem AfterCollect.pc_rest (after : AfterCollect) :
    after.pc.rest = after.rest := by
  cases after <;> rfl

@[simp] theorem AfterCollect.pc_collected (after : AfterCollect) :
    after.pc.collected = none := by
  cases after <;> rfl

theorem afterThreadFreeCollect_held (page : ℕ)
    (within : Option (Bool × AfterCollect)) :
    (afterThreadFreeCollect page within).block = within.bind (·.2.block) ∧
      (afterThreadFreeCollect page within).rest = within.bind (·.2.rest) ∧
      (afterThreadFreeCollect page within).collected = none := by
  cases within <;> exact ⟨rfl, rfl, rfl⟩

theorem AfterUse.pc_held (page : ℕ) (delay : DelayRequest)
    (overrideNever ok : Bool) (after : AfterUse) :
    (after.pc page delay overrideNever ok).block = after.block ∧
      (after.pc page delay overrideNever ok).rest = after.rest ∧
      (after.pc page delay overrideNever ok).collected = none := by
  cases after <;> cases ok <;> exact ⟨rfl, rfl, rfl⟩

theorem AfterCollect.pc_guarded (after : AfterCollect) :
    after.pc.Guarded := by
  cases after <;> trivial

theorem afterThreadFreeCollect_guarded (page : ℕ)
    (within : Option (Bool × AfterCollect)) :
    (afterThreadFreeCollect page within).Guarded := by
  cases within <;> trivial

theorem AfterUse.pc_guarded (page : ℕ) (delay : DelayRequest)
    (overrideNever ok : Bool) (after : AfterUse) :
    (after.pc page delay overrideNever ok).Guarded := by
  cases after <;> cases ok <;> trivial

inductive OwnerMove (pageOf : Addr → ℕ) (capacity : ℕ → ℕ)
    (mem : FreeMemory) : OwnerPc → OwnerPc → FreeMemory → Prop where
  /-- Local steps, loads and failed exchanges. -/
  | quiet {pc pc' : OwnerPc} {mem' : FreeMemory}
      (hmem : mem' = mem ∨ ∃ block target, pc.block = some block ∧
        mem' = mem.setNext block target)
      (hblock : pc'.block = pc.block) (hrest : pc'.rest = pc.rest)
      (hcollected : pc.collected = none ∧ pc'.collected = none)
      (hguarded : pc'.Guarded) :
      OwnerMove pageOf capacity mem pc pc' mem'
  | collect {page : ℕ} {tfree : ThreadFree}
      {within : Option (Bool × AfterCollect)} {pc' : OwnerPc}
      (hblock : pc'.block = within.bind (·.2.block))
      (hrest : pc'.rest = within.bind (·.2.rest))
      (hcollected : pc'.collected =
        (mem.xthreadFree page).block.map fun head => (page, head))
      (hguarded : pc'.Guarded) :
      OwnerMove pageOf capacity mem (.collectExchange page tfree within) pc'
        (mem.setThreadFree page ⟨none, mem.flag page⟩)
  | append {page : ℕ} {head : Addr} {within : Option (Bool × AfterCollect)} :
      OwnerMove pageOf capacity mem (.collectAppend page head within)
        (afterThreadFreeCollect page within)
        (let (tail, count) := collectTail mem.next (capacity page) head 1
        if capacity page < count then mem
        else
          { mem.setNext tail (mem.localFree page) with
            localFree := Function.update mem.localFree page (some head)
            used := Function.update mem.used page
              ((mem.used page + 65536 - count % 65536) % 65536) })
  | moveFree {page : ℕ} {force : Bool} {after : AfterCollect} {head : Addr}
      (hlocal : mem.localFree page = some head)
      (hfree : mem.free page = none) :
      OwnerMove pageOf capacity mem (.moveLocalFree page force after)
        after.pc
        { mem with
          free := Function.update mem.free page (mem.localFree page)
          localFree := Function.update mem.localFree page none }
  | joinFree {page : ℕ} {force : Bool} {after : AfterCollect}
      {head tail : Addr} (hlocal : mem.localFree page = some head)
      (htail : LinkedChain.lastNode mem.next (capacity page) head =
        some tail) :
      OwnerMove pageOf capacity mem (.moveLocalFree page force after)
        after.pc
        { mem.setNext tail (mem.free page) with
          free := Function.update mem.free page (mem.localFree page)
          localFree := Function.update mem.localFree page none }
  | setFlag {page : ℕ} {delay : DelayRequest} {overrideNever : Bool}
      {yieldCount : ℕ} {after : AfterUse} :
      OwnerMove pageOf capacity mem
        (.useExchange page delay overrideNever yieldCount
          (mem.xthreadFree page) after)
        (after.pc page delay overrideNever true)
        (mem.setThreadFree page
          ⟨(mem.xthreadFree page).block, delay.val⟩)
  | takeDelayed {heap : ℕ} {all : Bool} {block : Addr}
      (hblock : mem.threadDelayedFree heap = some block) :
      OwnerMove pageOf capacity mem (.takeExchange heap all block)
        (.visitBlock heap all (some block) true)
        (mem.setDelayedFree heap none)
  | visit {heap : ℕ} {all : Bool} {block : Addr} {allFreed : Bool} :
      OwnerMove pageOf capacity mem
        (.visitBlock heap all (some block) allFreed)
        (.useLoad (pageOf block) requestUse false 0
          (.visit ⟨heap, all, block, mem.next block, allFreed⟩)) mem
  | freeLocal {v : Visit} {pc' : OwnerPc} {used : ℕ → ℕ}
      (hblock : pc'.block = none) (hrest : pc'.rest = v.next)
      (hcollected : pc'.collected = none) (hguarded : pc'.Guarded) :
      OwnerMove pageOf capacity mem (.freeLocal v) pc'
        { mem.setNext v.block (mem.localFree (pageOf v.block)) with
          localFree := Function.update mem.localFree (pageOf v.block)
            (some v.block)
          used := used }
  | reinsert {v : Visit} {dfree : Option Addr} :
      OwnerMove pageOf capacity mem (.reinsertExchange v dfree)
        (.visitBlock v.heap v.all v.next false)
        ((mem.setNext v.block (mem.threadDelayedFree v.heap)).setDelayedFree
          v.heap (some v.block))

section Owner

variable {pageOf : Addr → ℕ} {capacity : ℕ → ℕ} {fail : Bool}
  {mem mem' : FreeMemory} {pc pc' : OwnerPc}

theorem ownerStep_move
    (hstep : ownerStep pageOf capacity fail mem pc = some (pc', mem')) :
    OwnerMove pageOf capacity mem pc pc' mem' := by
  cases pc with
  | idle =>
      cases hstep
      exact .quiet (.inl rfl) rfl rfl ⟨rfl, rfl⟩ trivial
  | collectLoad page within =>
      cases hstep
      exact .quiet (.inl rfl) rfl rfl ⟨rfl, rfl⟩ trivial
  | collectExchange page tfree within =>
      simp only [ownerStep] at hstep
      split at hstep
      · next hword =>
          obtain ⟨rfl, -⟩ := hword
          cases hblock : (mem.xthreadFree page).block with
          | none =>
              simp only [hblock, Option.some.injEq, Prod.mk.injEq] at hstep
              obtain ⟨rfl, rfl⟩ := hstep
              obtain ⟨h1, h2, h3⟩ := afterThreadFreeCollect_held page within
              exact .collect h1 h2 (by rw [h3, hblock]; rfl)
                (afterThreadFreeCollect_guarded page within)
          | some head =>
              simp only [hblock, Option.some.injEq, Prod.mk.injEq] at hstep
              obtain ⟨rfl, rfl⟩ := hstep
              exact .collect rfl rfl (by rw [hblock]; rfl) trivial
      · cases hstep
        exact .quiet (.inl rfl) rfl rfl ⟨rfl, rfl⟩ trivial
  | collectAppend page head within =>
      simp only [ownerStep, Option.some.injEq, Prod.mk.injEq] at hstep
      obtain ⟨rfl, rfl⟩ := hstep
      exact .append
  | testThreadFree page force after =>
      simp only [ownerStep] at hstep
      split at hstep <;> cases hstep
      · exact .quiet (.inl rfl) rfl rfl ⟨rfl, rfl⟩ trivial
      · exact .quiet (.inl rfl) rfl rfl ⟨rfl, rfl⟩ trivial
  | moveLocalFree page force after =>
      simp only [ownerStep] at hstep
      split at hstep
      · cases hstep
        exact .quiet (.inl rfl) after.pc_block after.pc_rest
          ⟨rfl, after.pc_collected⟩ after.pc_guarded
      · next head hlocal hfree =>
          cases hstep
          exact .moveFree hlocal hfree
      · next head _ hlocal hfree =>
          split at hstep
          · split at hstep
            · cases hstep
            · next tail htail =>
                cases hstep
                exact .joinFree hlocal htail
          · cases hstep
            exact .quiet (.inl rfl) after.pc_block after.pc_rest
              ⟨rfl, after.pc_collected⟩ after.pc_guarded
  | useLoad page delay overrideNever yieldCount after =>
      have hheld := after.pc_held page delay overrideNever
      simp only [ownerStep] at hstep
      split at hstep
      · split at hstep
        · cases hstep
          exact .quiet (.inl rfl) (hheld false).1 (hheld false).2.1
            ⟨rfl, (hheld false).2.2⟩
            (after.pc_guarded page delay overrideNever false)
        · cases hstep
          exact .quiet (.inl rfl) rfl rfl ⟨rfl, rfl⟩ trivial
      · next hfreeing =>
          split at hstep
          · cases hstep
            exact .quiet (.inl rfl) (hheld true).1 (hheld true).2.1
              ⟨rfl, (hheld true).2.2⟩
              (after.pc_guarded page delay overrideNever true)
          · split at hstep
            · cases hstep
              exact .quiet (.inl rfl) (hheld true).1 (hheld true).2.1
                ⟨rfl, (hheld true).2.2⟩
                (after.pc_guarded page delay overrideNever true)
            · next hnever =>
                cases hstep
                refine .quiet (.inl rfl) rfl rfl ⟨rfl, rfl⟩ ?_
                constructor
                · exact hfreeing
                · intro hover hflag
                  exact hnever ⟨by simp [hover], hflag⟩
  | useExchange page delay overrideNever yieldCount tfree after =>
      simp only [ownerStep] at hstep
      split at hstep
      · next hword =>
          obtain ⟨rfl, -⟩ := hword
          cases hstep
          exact .setFlag
      · cases hstep
        exact .quiet (.inl rfl) rfl rfl ⟨rfl, rfl⟩ trivial
  | takeLoad heap all =>
      simp only [ownerStep] at hstep
      split at hstep <;> cases hstep
      · exact .quiet (.inl rfl) rfl rfl ⟨rfl, rfl⟩ trivial
      · exact .quiet (.inl rfl) rfl rfl ⟨rfl, rfl⟩ trivial
  | takeExchange heap all block =>
      simp only [ownerStep] at hstep
      split at hstep
      · next hword =>
          cases hstep
          exact .takeDelayed hword.1
      · split at hstep <;> cases hstep
        · exact .quiet (.inl rfl) rfl rfl ⟨rfl, rfl⟩ trivial
        · exact .quiet (.inl rfl) rfl rfl ⟨rfl, rfl⟩ trivial
  | visitBlock heap all block allFreed =>
      cases block with
      | none =>
          simp only [ownerStep, Option.some.injEq, Prod.mk.injEq] at hstep
          obtain ⟨rfl, rfl⟩ := hstep
          split
          · exact .quiet (.inl rfl) rfl rfl ⟨rfl, rfl⟩ trivial
          · exact .quiet (.inl rfl) rfl rfl ⟨rfl, rfl⟩ trivial
      | some block =>
          cases hstep
          exact .visit
  | freeLocal v =>
      simp only [ownerStep, Option.some.injEq, Prod.mk.injEq] at hstep
      obtain ⟨rfl, rfl⟩ := hstep
      split
      · exact .freeLocal rfl rfl rfl trivial
      · exact .freeLocal rfl rfl rfl trivial
  | reinsertLoad v =>
      cases hstep
      exact .quiet (.inl rfl) rfl rfl ⟨rfl, rfl⟩ trivial
  | reinsertExchange v dfree =>
      simp only [ownerStep] at hstep
      split at hstep
      · next hword =>
          have hsame : mem.threadDelayedFree v.heap = dfree := hword.1
          cases hstep
          rw [← hsame]
          exact .reinsert
      · cases hstep
        exact .quiet (.inr ⟨v.block, dfree, rfl, rfl⟩) rfl rfl ⟨rfl, rfl⟩ trivial

theorem OwnerMove.guarded (h : OwnerMove pageOf capacity mem pc pc' mem') :
    pc'.Guarded := by
  cases h with
  | quiet _ _ _ _ hguarded => exact hguarded
  | collect _ _ _ hguarded => exact hguarded
  | append => exact afterThreadFreeCollect_guarded _ _
  | moveFree => exact AfterCollect.pc_guarded _
  | joinFree => exact AfterCollect.pc_guarded _
  | setFlag => exact AfterUse.pc_guarded _ _ _ _ _
  | takeDelayed => trivial
  | visit => trivial
  | freeLocal _ _ _ hguarded => exact hguarded
  | reinsert => trivial

theorem OwnerMove.flag (h : OwnerMove pageOf capacity mem pc pc' mem')
    (hguarded : pc.Guarded) (page : ℕ) :
    mem'.flag page = mem.flag page ∨
      (mem.flag page ≠ .delayedFreeing ∧ mem'.flag page ≠ .delayedFreeing) := by
  cases h with
  | quiet hmem =>
      rcases hmem with rfl | ⟨block, target, -, rfl⟩ <;> exact .inl rfl
  | @collect page' =>
      refine .inl ?_
      by_cases hp : page = page'
      · subst hp
        simp [FreeMemory.flag, FreeMemory.setThreadFree]
      · simp [FreeMemory.flag, FreeMemory.setThreadFree, hp]
  | append =>
      refine .inl ?_
      simp only
      split <;> rfl
  | moveFree => exact .inl rfl
  | joinFree => exact .inl rfl
  | @setFlag page' delay =>
      by_cases hp : page = page'
      · subst hp
        refine .inr ⟨hguarded.1, ?_⟩
        simpa [FreeMemory.flag, FreeMemory.setThreadFree] using delay.2
      · refine .inl ?_
        simp [FreeMemory.flag, FreeMemory.setThreadFree, hp]
  | takeDelayed => exact .inl rfl
  | visit => exact .inl rfl
  | freeLocal => exact .inl rfl
  | reinsert => exact .inl rfl

end Owner

/-- A thread claims a page that is in the `USE_DELAYED_FREE` state, or resets
a page that it has claimed, or changes no flag. -/
theorem FreeMove.flag {page : ℕ} {block : Addr} {mem mem' : FreeMemory}
    {pc pc' : FreePc} (h : FreeMove page block mem pc pc' mem') :
    ((pc'.Inside ↔ pc.Inside) ∧ mem'.flag = mem.flag) ∨
      (¬ pc.Inside ∧ pc'.Inside ∧ mem.flag page = .useDelayedFree ∧
        mem'.flag = Function.update mem.flag page .delayedFreeing) ∨
      (pc.Inside ∧ ¬ pc'.Inside ∧
        mem'.flag = Function.update mem.flag page .noDelayedFree) := by
  cases h with
  | quiet hmem hinside =>
      refine .inl ⟨hinside, ?_⟩
      rcases hmem with rfl | ⟨target, rfl, -⟩ <;> rfl
  | claim hflag hout =>
      refine .inr (.inl ⟨hout, trivial, hflag, ?_⟩)
      exact FreeMemory.flag_setThreadFree mem page _
  | pushThread hout =>
      refine .inl ⟨iff_of_false not_false hout, ?_⟩
      rw [FreeMemory.flag_setThreadFree]
      exact Function.update_eq_self page mem.flag
  | pushDelayed => exact .inl ⟨Iff.rfl, rfl⟩
  | noHeap => exact .inl ⟨Iff.rfl, rfl⟩
  | reset =>
      refine .inr (.inr ⟨trivial, not_false, ?_⟩)
      exact FreeMemory.flag_setThreadFree mem page _

/-! ## The invariant of the flag -/

/-- A page is in the `DELAYED_FREEING` state exactly while one thread is
between setting and resetting it. -/
structure FlagInvariant {ι : Type*} (sys : FreeSystem ι) (st : FreeState ι) :
    Prop where
  inside : ∀ i, (st.pc i).Inside →
    st.mem.flag (sys.page i) = .delayedFreeing
  unique : ∀ i j, (st.pc i).Inside → (st.pc j).Inside →
    sys.page i = sys.page j → i = j
  guarded : st.owner.Guarded

theorem OwnerCall.begin_frame (call : OwnerCall) (mem : FreeMemory) :
    (call.begin mem).1.Guarded ∧
      (call.begin mem).2.xthreadFree = mem.xthreadFree := by
  cases call <;> exact ⟨trivial, rfl⟩

namespace FlagInvariant

variable {ι : Type*} {sys : FreeSystem ι}
  {st st' : FreeState ι}

theorem not_inside (h : FlagInvariant sys st) {i : ι}
    (hflag : st.mem.flag (sys.page i) ≠ .delayedFreeing) :
    ¬ (st.pc i).Inside :=
  fun hinside => hflag (h.inside i hinside)

theorem owner (h : FlagInvariant sys st) {pc' : OwnerPc} {mem' : FreeMemory}
    (hmove : OwnerMove sys.pageOf sys.capacity st.mem st.owner pc' mem') :
    FlagInvariant sys { st with mem := mem', owner := pc' } := by
  constructor
  · intro i hi
    have hfreeing := h.inside i hi
    rcases hmove.flag h.guarded (sys.page i) with hsame | ⟨hnot, -⟩
    · exact hsame.trans hfreeing
    · exact absurd hfreeing hnot
  · exact h.unique
  · exact hmove.guarded

variable [DecidableEq ι]

theorem thread (h : FlagInvariant sys st) {i : ι} {pc' : FreePc}
    {mem' : FreeMemory}
    (hmove : FreeMove (sys.page i) (sys.block i) st.mem (st.pc i) pc' mem') :
    FlagInvariant sys
      { st with mem := mem', pc := Function.update st.pc i pc' } := by
  have hother : ∀ j, j ≠ i → Function.update st.pc i pc' j = st.pc j :=
    fun j hj => Function.update_of_ne hj pc' st.pc
  rcases hmove.flag with ⟨hinside, hflag⟩ | ⟨hout, hin, huse, hflag⟩ |
    ⟨hin, hout, hflag⟩
  · have hsame : ∀ j,
        (Function.update st.pc i pc' j).Inside ↔ (st.pc j).Inside := by
      intro j
      by_cases hj : j = i
      · subst hj
        rw [Function.update_self]
        exact hinside
      · rw [hother j hj]
    constructor
    · intro j hj
      show mem'.flag (sys.page j) = _
      rw [hflag]
      exact h.inside j ((hsame j).mp hj)
    · intro j k hj hk
      exact h.unique j k ((hsame j).mp hj) ((hsame k).mp hk)
    · exact h.guarded
  · -- nobody is inside on a page in the `USE_DELAYED_FREE` state
    have hnobody : ∀ j, (st.pc j).Inside → sys.page j ≠ sys.page i := by
      intro j hj hpage
      have hfreeing := h.inside j hj
      rw [hpage, huse] at hfreeing
      cases hfreeing
    constructor
    · intro j (hj : (Function.update st.pc i pc' j).Inside)
      show mem'.flag (sys.page j) = _
      rw [hflag]
      by_cases hji : j = i
      · rw [hji, Function.update_self]
      · rw [hother j hji] at hj
        rw [Function.update_of_ne (hnobody j hj)]
        exact h.inside j hj
    · intro j k (hj : (Function.update st.pc i pc' j).Inside)
        (hk : (Function.update st.pc i pc' k).Inside) hpage
      by_cases hji : j = i
      · by_cases hki : k = i
        · rw [hji, hki]
        · rw [hother k hki] at hk
          rw [hji] at hpage
          exact absurd hpage.symm (hnobody k hk)
      · rw [hother j hji] at hj
        by_cases hki : k = i
        · rw [hki] at hpage
          exact absurd hpage (hnobody j hj)
        · rw [hother k hki] at hk
          exact h.unique j k hj hk hpage
    · exact h.guarded
  · have hleft : ∀ j, (Function.update st.pc i pc' j).Inside →
        j ≠ i ∧ (st.pc j).Inside := by
      intro j hj
      by_cases hji : j = i
      · rw [hji, Function.update_self] at hj
        exact absurd hj hout
      · rw [hother j hji] at hj
        exact ⟨hji, hj⟩
    constructor
    · intro j hj
      obtain ⟨hji, hj⟩ := hleft j hj
      have hpage : sys.page j ≠ sys.page i :=
        fun hpage => hji (h.unique j i hj hin hpage)
      show mem'.flag (sys.page j) = _
      rw [hflag, Function.update_of_ne hpage]
      exact h.inside j hj
    · intro j k hj hk
      exact h.unique j k (hleft j hj).2 (hleft k hk).2
    · exact h.guarded

theorem step (h : FlagInvariant sys st) (hstep : FreeStep sys st st') :
    FlagInvariant sys st' := by
  cases hstep with
  | thread i fail =>
      exact h.thread
        (freeStep_move (sys.page i) (sys.block i) fail st.mem (st.pc i))
  | owner fail hstep => exact h.owner (ownerStep_move hstep)
  | call hidle hcalls =>
      rename_i call calls
      obtain ⟨hguarded, hword⟩ := call.begin_frame st.mem
      constructor
      · intro i hi
        have hfreeing := h.inside i hi
        unfold FreeMemory.flag at hfreeing ⊢
        rwa [hword]
      · exact h.unique
      · exact hguarded

end FlagInvariant

end Palloc
