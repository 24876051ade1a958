import Palloc.PageFreeLists

/-!
# Freeing blocks of another thread

A thread that frees a block of a page it does not own pushes it on the
`xthread_free` list of the page, or, when the flag of that word asks for it,
on the `thread_delayed_free` list of the heap that owns the page.  The owner
takes over both lists.  This file embeds `pa_free_block_delayed_mt` and the
functions of the owner as programs whose steps are single atomic accesses to
shared memory; reads and writes of memory that no other thread can access at
that time belong to the step before or after them.

A weak compare-exchange may fail although the word has the expected value:
each step gets a flag `fail` that makes its exchange fail.
-/

namespace Palloc

/-- What the threads share, and the page lists of the owner: for each page
its `xthread_free` word, heap and lists, for each heap its delayed list, and
the first word of every block. -/
structure FreeMemory where
  xthreadFree : ℕ → ThreadFree
  xheap : ℕ → Option ℕ
  threadDelayedFree : ℕ → Option Addr
  next : Addr → Option Addr
  free : ℕ → Option Addr
  localFree : ℕ → Option Addr
  used : ℕ → ℕ

namespace FreeMemory

def setThreadFree (mem : FreeMemory) (page : ℕ) (tfree : ThreadFree) :
    FreeMemory :=
  { mem with xthreadFree := Function.update mem.xthreadFree page tfree }

def setDelayedFree (mem : FreeMemory) (heap : ℕ) (block : Option Addr) :
    FreeMemory :=
  { mem with
    threadDelayedFree := Function.update mem.threadDelayedFree heap block }

def setNext (mem : FreeMemory) (block : Addr) (next : Option Addr) :
    FreeMemory :=
  { mem with next := Function.update mem.next block next }

end FreeMemory

/-! ## The freeing threads -/

/-- Where a call of `pa_free_block_delayed_mt` is.  `tfree`, `heap` and
`dfree` are its local variables. -/
inductive FreePc where
  | load
  | exchange (tfree : ThreadFree)
  | loadHeap
  | loadDelayed (heap : ℕ)
  | pushDelayed (heap : ℕ) (dfree : Option Addr)
  | loadReset
  | reset (tfree : ThreadFree)
  | done
  deriving DecidableEq

/-- One step of `pa_free_block_delayed_mt` for `block` of `page`. -/
def freeStep (page : ℕ) (block : Addr) (fail : Bool) (mem : FreeMemory) :
    FreePc → FreePc × FreeMemory
  | .load => (.exchange (mem.xthreadFree page), mem)
  | .exchange tfree =>
      if tfree.delayed = .useDelayedFree then
        if mem.xthreadFree page = tfree ∧ fail = false then
          (.loadHeap,
            mem.setThreadFree page ⟨tfree.block, .delayedFreeing⟩)
        else (.exchange (mem.xthreadFree page), mem)
      else
        let mem := mem.setNext block tfree.block
        if mem.xthreadFree page = tfree ∧ fail = false then
          (.done, mem.setThreadFree page ⟨some block, tfree.delayed⟩)
        else (.exchange (mem.xthreadFree page), mem)
  | .loadHeap =>
      match mem.xheap page with
      | some heap => (.loadDelayed heap, mem)
      | none => (.loadReset, mem)
  | .loadDelayed heap => (.pushDelayed heap (mem.threadDelayedFree heap), mem)
  | .pushDelayed heap dfree =>
      let mem := mem.setNext block dfree
      if mem.threadDelayedFree heap = dfree ∧ fail = false then
        (.loadReset, mem.setDelayedFree heap (some block))
      else (.pushDelayed heap (mem.threadDelayedFree heap), mem)
  | .loadReset => (.reset (mem.xthreadFree page), mem)
  | .reset tfree =>
      if mem.xthreadFree page = tfree ∧ fail = false then
        (.done, mem.setThreadFree page ⟨tfree.block, .noDelayedFree⟩)
      else (.reset (mem.xthreadFree page), mem)
  | .done => (.done, mem)

/-! ## The owner -/

/-- A flag that the owner may ask for; `PA_DELAYED_FREEING` is only set by a
freeing thread. -/
abbrev DelayRequest := { delay : Delayed // delay ≠ .delayedFreeing }

def requestUse : DelayRequest := ⟨.useDelayedFree, by decide⟩

def requestNever : DelayRequest := ⟨.neverDelayedFree, by decide⟩

inductive OwnerCall where
  | threadFreeCollect (page : ℕ)
  | freeCollect (page : ℕ) (force : Bool)
  | tryUseDelayedFree (page : ℕ) (delay : DelayRequest)
      (overrideNever : Bool)
  | useDelayedFree (page : ℕ) (delay : DelayRequest) (overrideNever : Bool)
  | delayedFreePartial (heap : ℕ)
  | delayedFreeAll (heap : ℕ)
  | setHeap (page : ℕ) (heap : Option ℕ)

/-- The local variables of `_pa_heap_delayed_free_partial` while it frees
`block`; `all` when it runs inside `_pa_heap_delayed_free_all`. -/
structure Visit where
  heap : ℕ
  all : Bool
  block : Addr
  next : Option Addr
  allFreed : Bool

/-- What follows a call of `_pa_page_free_collect`. -/
inductive AfterCollect where
  | return
  | freeLocal (visit : Visit)
  | visitNext (visit : Visit)

/-- What follows a call of `_pa_page_try_use_delayed_free`. -/
inductive AfterUse where
  | return
  | spin
  | visit (visit : Visit)

inductive OwnerPc where
  | idle
  /-- In `_pa_page_thread_free_collect`; called by `_pa_page_free_collect`
  when `within` is given. -/
  | collectLoad (page : ℕ) (within : Option (Bool × AfterCollect))
  | collectExchange (page : ℕ) (tfree : ThreadFree)
      (within : Option (Bool × AfterCollect))
  | collectAppend (page : ℕ) (head : Addr)
      (within : Option (Bool × AfterCollect))
  /-- In `_pa_page_free_collect`. -/
  | testThreadFree (page : ℕ) (force : Bool) (after : AfterCollect)
  | moveLocalFree (page : ℕ) (force : Bool) (after : AfterCollect)
  /-- In `_pa_page_try_use_delayed_free`. -/
  | useLoad (page : ℕ) (delay : DelayRequest) (overrideNever : Bool)
      (yieldCount : ℕ) (after : AfterUse)
  | useExchange (page : ℕ) (delay : DelayRequest) (overrideNever : Bool)
      (yieldCount : ℕ) (tfree : ThreadFree) (after : AfterUse)
  /-- In `_pa_heap_delayed_free_partial`. -/
  | takeLoad (heap : ℕ) (all : Bool)
  | takeExchange (heap : ℕ) (all : Bool) (block : Addr)
  | visitBlock (heap : ℕ) (all : Bool) (block : Option Addr)
      (allFreed : Bool)
  | freeLocal (visit : Visit)
  | reinsertLoad (visit : Visit)
  | reinsertExchange (visit : Visit) (dfree : Option Addr)

/-- After `_pa_page_free_collect`. -/
def AfterCollect.pc : AfterCollect → OwnerPc
  | .return => .idle
  | .freeLocal v => .freeLocal v
  | .visitNext v => .visitBlock v.heap v.all v.next v.allFreed

/-- After `_pa_page_thread_free_collect`. -/
def afterThreadFreeCollect (page : ℕ) :
    Option (Bool × AfterCollect) → OwnerPc
  | none => .idle
  | some (force, after) => .moveLocalFree page force after

/-- After `_pa_page_try_use_delayed_free` returned `ok`.  In a visit this is
the rest of `_pa_free_delayed_block`; spinning calls again. -/
def AfterUse.pc (page : ℕ) (delay : DelayRequest) (overrideNever ok : Bool) :
    AfterUse → OwnerPc
  | .return => .idle
  | .spin => if ok then .idle else .useLoad page delay overrideNever 0 .spin
  | .visit v =>
      if ok then .testThreadFree page false (.freeLocal v)
      else .reinsertLoad v

/-- The owner begins a call; storing `xheap` is a step of its own. -/
def OwnerCall.begin (mem : FreeMemory) : OwnerCall → OwnerPc × FreeMemory
  | .threadFreeCollect page => (.collectLoad page none, mem)
  | .freeCollect page force => (.testThreadFree page force .return, mem)
  | .tryUseDelayedFree page delay overrideNever =>
      (.useLoad page delay overrideNever 0 .return, mem)
  | .useDelayedFree page delay overrideNever =>
      (.useLoad page delay overrideNever 0 .spin, mem)
  | .delayedFreePartial heap => (.takeLoad heap false, mem)
  | .delayedFreeAll heap => (.takeLoad heap true, mem)
  | .setHeap page heap =>
      (.idle, { mem with xheap := Function.update mem.xheap page heap })

/-- One step of the owner inside a call.  `pageOf` is `_pa_segment_page_of`
and `capacity` the capacity of a page; `none` when the walk to the end of a
local list exceeds the capacity. -/
def ownerStep (pageOf : Addr → ℕ) (capacity : ℕ → ℕ) (fail : Bool)
    (mem : FreeMemory) : OwnerPc → Option (OwnerPc × FreeMemory)
  | .idle => some (.idle, mem)
  | .collectLoad page within =>
      some (.collectExchange page (mem.xthreadFree page) within, mem)
  | .collectExchange page tfree within =>
      if mem.xthreadFree page = tfree ∧ fail = false then
        let mem := mem.setThreadFree page ⟨none, tfree.delayed⟩
        match tfree.block with
        | none => some (afterThreadFreeCollect page within, mem)
        | some head => some (.collectAppend page head within, mem)
      else some (.collectExchange page (mem.xthreadFree page) within, mem)
  | .collectAppend page head within =>
      let (tail, count) := collectTail mem.next (capacity page) head 1
      some (afterThreadFreeCollect page within,
        if capacity page < count then mem
        else
          { mem.setNext tail (mem.localFree page) with
            localFree := Function.update mem.localFree page (some head)
            used := Function.update mem.used page
              ((mem.used page + 65536 - count % 65536) % 65536) })
  | .testThreadFree page force after =>
      if force ∨ (mem.xthreadFree page).block ≠ none then
        some (.collectLoad page (some (force, after)), mem)
      else some (.moveLocalFree page force after, mem)
  | .moveLocalFree page force after =>
      match mem.localFree page, mem.free page with
      | none, _ => some (after.pc, mem)
      | some _, none =>
          some (after.pc,
            { mem with
              free := Function.update mem.free page (mem.localFree page)
              localFree := Function.update mem.localFree page none })
      | some head, some _ =>
          if force then
            match LinkedChain.lastNode mem.next (capacity page) head with
            | none => none
            | some tail =>
                some (after.pc,
                  { mem.setNext tail (mem.free page) with
                    free :=
                      Function.update mem.free page (mem.localFree page)
                    localFree := Function.update mem.localFree page none })
          else some (after.pc, mem)
  | .useLoad page delay overrideNever yieldCount after =>
      let tfree := mem.xthreadFree page
      let done := after.pc page delay overrideNever
      if tfree.delayed = .delayedFreeing then
        if 4 ≤ yieldCount then some (done false, mem)
        else some (.useLoad page delay overrideNever (yieldCount + 1) after,
          mem)
      else if delay.val = tfree.delayed then some (done true, mem)
      else if ¬ overrideNever ∧ tfree.delayed = .neverDelayedFree then
        some (done true, mem)
      else
        some (.useExchange page delay overrideNever yieldCount tfree after,
          mem)
  | .useExchange page delay overrideNever yieldCount tfree after =>
      if mem.xthreadFree page = tfree ∧ fail = false then
        some (after.pc page delay overrideNever true,
          mem.setThreadFree page ⟨tfree.block, delay.val⟩)
      else some (.useLoad page delay overrideNever yieldCount after, mem)
  | .takeLoad heap all =>
      match mem.threadDelayedFree heap with
      | none => some (.visitBlock heap all none true, mem)
      | some block => some (.takeExchange heap all block, mem)
  | .takeExchange heap all block =>
      if mem.threadDelayedFree heap = some block ∧ fail = false then
        some (.visitBlock heap all (some block) true,
          mem.setDelayedFree heap none)
      else
        match mem.threadDelayedFree heap with
        | none => some (.visitBlock heap all none true, mem)
        | some block => some (.takeExchange heap all block, mem)
  | .visitBlock heap all none allFreed =>
      some (if all ∧ ¬ allFreed then .takeLoad heap all else .idle, mem)
  | .visitBlock heap all (some block) allFreed =>
      some (.useLoad (pageOf block) requestUse false 0
        (.visit ⟨heap, all, block, mem.next block, allFreed⟩), mem)
  | .freeLocal visit =>
      let page := pageOf visit.block
      let used := (mem.used page + 65535) % 65536
      some (if used = 0 then .testThreadFree page false (.visitNext visit)
          else .visitBlock visit.heap visit.all visit.next visit.allFreed,
        { mem.setNext visit.block (mem.localFree page) with
          localFree := Function.update mem.localFree page (some visit.block)
          used := Function.update mem.used page used })
  | .reinsertLoad visit =>
      some (.reinsertExchange visit (mem.threadDelayedFree visit.heap), mem)
  | .reinsertExchange visit dfree =>
      let mem := mem.setNext visit.block dfree
      if mem.threadDelayedFree visit.heap = dfree ∧ fail = false then
        -- `all_freed` was cleared when the block could not be freed
        some (.visitBlock visit.heap visit.all visit.next false,
          mem.setDelayedFree visit.heap (some visit.block))
      else
        some (.reinsertExchange visit (mem.threadDelayedFree visit.heap),
          mem)

/-! ## The system -/

/-- The freeing threads, the block that each of them frees, and the carved
blocks of every page. -/
structure FreeSystem (ι : Type*) where
  block : ι → Addr
  pageOf : Addr → ℕ
  capacity : ℕ → ℕ
  carved : ℕ → List Addr
  block_injective : Function.Injective block
  block_carved : ∀ i, block i ∈ carved (pageOf (block i))
  pageOf_carved : ∀ page, ∀ block ∈ carved page, pageOf block = page
  length_carved : ∀ page, (carved page).length ≤ capacity page

def FreeSystem.page {ι : Type*} (sys : FreeSystem ι) (i : ι) : ℕ :=
  sys.pageOf (sys.block i)

structure FreeState (ι : Type*) where
  mem : FreeMemory
  pc : ι → FreePc
  owner : OwnerPc
  calls : List OwnerCall

inductive FreeStep {ι : Type*} [DecidableEq ι] (sys : FreeSystem ι) :
    FreeState ι → FreeState ι → Prop where
  | thread (st : FreeState ι) (i : ι) (fail : Bool) :
      FreeStep sys st
        (let (pc, mem) :=
          freeStep (sys.page i) (sys.block i) fail st.mem (st.pc i)
        { st with mem := mem, pc := Function.update st.pc i pc })
  | owner (st : FreeState ι) (fail : Bool) {pc : OwnerPc}
      {mem : FreeMemory}
      (hstep : ownerStep sys.pageOf sys.capacity fail st.mem st.owner =
        some (pc, mem)) :
      FreeStep sys st { st with mem := mem, owner := pc }
  | call (st : FreeState ι) {call : OwnerCall} {calls : List OwnerCall}
      (hidle : st.owner = .idle) (hcalls : st.calls = call :: calls) :
      FreeStep sys st
        { st with
          mem := (call.begin st.mem).2
          owner := (call.begin st.mem).1
          calls := calls }

end Palloc
