import Palloc.BatchFree
import Mathlib.Algebra.BigOperators.Group.Finset.Piecewise
import Mathlib.Algebra.Order.BigOperators.Group.Finset
import Mathlib.Data.List.Count

/-!
# What holds while an array of blocks is freed

Each block of the array is in one place: among the pointers still to come, in
the chain of a bucket, or handed over.  Blocks that are not handed over are on
no list of the other threads, so that rewriting their links disturbs nobody,
and the links of a chain stay as the call wrote them.
-/

namespace Palloc

open LinkedChain

/-! ## Lists of the other threads -/

/-- The links from `head` visit blocks that are not held, and stop. -/
def Listed (next : Addr → Option Addr) (head : Option Addr)
    (held : Addr → Prop) : Prop :=
  ∃ l, IsChain next head l ∧ ∀ x ∈ l, ¬ held x

section Listed

variable {next next' : Addr → Option Addr} {head : Option Addr}
  {held held' : Addr → Prop}

theorem Listed.mono (h : Listed next head held)
    (hle : ∀ x, held' x → held x) : Listed next head held' := by
  rcases h with ⟨l, hchain, hout⟩
  exact ⟨l, hchain, fun x hx hheld => hout x hx (hle x hheld)⟩

theorem Listed.congr (h : Listed next head held)
    (hnext : ∀ x, ¬ held x → next' x = next x) :
    Listed next' head held := by
  rcases h with ⟨l, hchain, hout⟩
  exact ⟨l, hchain.congr fun x hx => hnext x (hout x hx), hout⟩

theorem Listed.chain_congr (h : Listed next head held)
    (hnext : ∀ x, ¬ held x → next' x = next x) {l : List Addr}
    (hchain : IsChain next head l) : IsChain next' head l := by
  rcases h with ⟨l', hchain', hout⟩
  rw [hchain.unique hchain']
  exact hchain'.congr fun x hx => hnext x (hout x hx)

end Listed

/-! ## Chains of blocks -/

/-- The links visit the blocks of the chain from `head` to `tail`; the link
of `tail` does not matter. -/
structure ChainOk (next : Addr → Option Addr) (bucket : Bucket) : Prop where
  chain : IsChain (Function.update next bucket.tail none) (some bucket.head)
    bucket.blocks
  last : bucket.blocks.getLast? = some bucket.tail

namespace ChainOk

variable {next next' : Addr → Option Addr} {bucket : Bucket}

theorem tail_mem (h : ChainOk next bucket) : bucket.tail ∈ bucket.blocks :=
  List.mem_of_getLast? h.last

theorem congr (h : ChainOk next bucket)
    (hnext : ∀ x ∈ bucket.blocks, x ≠ bucket.tail → next' x = next x) :
    ChainOk next' bucket := by
  refine ⟨h.chain.congr ?_, h.last⟩
  intro x hx
  by_cases htail : x = bucket.tail
  · rw [htail, Function.update_self, Function.update_self]
  · rw [Function.update_of_ne htail, Function.update_of_ne htail]
    exact hnext x hx htail

theorem splice (h : ChainOk next bucket) {head : Option Addr}
    {l : List Addr} (hl : IsChain next head l)
    (hout : bucket.tail ∉ l) :
    IsChain (Function.update next bucket.tail head) (some bucket.head)
      (bucket.blocks ++ l) := by
  rcases List.getLast?_eq_some_iff.mp h.last with ⟨before, hblocks⟩
  have hchain := h.chain
  rw [hblocks] at hchain
  have hspliced := hchain.splice (hl.update_of_notMem hout none) hout
  rw [Function.update_idem] at hspliced
  rw [hblocks, List.append_assoc]
  exact hspliced

theorem single (next : Addr → Option Addr) (page : ℕ) (block : Addr) :
    ChainOk next ⟨page, block, block, [block]⟩ := by
  constructor
  · simp
  · rfl

theorem push (h : ChainOk next bucket) {block : Addr}
    (hnew : block ∉ bucket.blocks) :
    ChainOk (Function.update next block (some bucket.head))
      { bucket with
        head := block
        blocks := block :: bucket.blocks } := by
  have hne : block ≠ bucket.tail := by
    intro heq
    rw [heq] at hnew
    exact hnew h.tail_mem
  constructor
  · dsimp only
    rw [Function.update_comm hne]
    exact h.chain.push hnew
  · have hsome := h.last
    dsimp only
    rw [List.getLast?_cons, hsome]
    rfl

end ChainOk

/-! ## Where the blocks are -/

def BatchPages.arrayBlocks (pages : BatchPages) (rest : List (Option Addr)) :
    List Addr :=
  rest.filterMap fun p => p.map pages.blockOf

/-- The blocks that the call has not put into a bucket yet. -/
def BatchPc.blocks (pages : BatchPages) : BatchPc → List Addr
  | .scan rest => pages.arrayBlocks rest
  | .insert _ held => held.block :: pages.arrayBlocks held.rest
  | .flush _ _ (some held) => held.block :: pages.arrayBlocks held.rest
  | .flush _ _ none => []
  | .drain _ => []
  | .done => []

def BatchPc.rest : BatchPc → List (Option Addr)
  | .scan rest => rest
  | .insert _ held => held.rest
  | .flush _ _ (some held) => held.rest
  | .flush _ _ none => []
  | .drain _ => []
  | .done => []

def bucketBlocks (bucket : Option Bucket) : List Addr :=
  match bucket with
  | some bucket => bucket.blocks
  | none => []

namespace BatchState

def bucketCount (st : BatchState) (x : Addr) : ℕ :=
  ∑ b ∈ Finset.range pageBucketCount, (bucketBlocks (st.buckets b)).count x

def handedBlocks (pages : BatchPages) (st : BatchState) : List Addr :=
  st.handed.flatMap (Handed.blocks pages)

def Held (pages : BatchPages) (st : BatchState) (x : Addr) : Prop :=
  x ∈ st.pc.blocks pages ∨ ∃ b, x ∈ bucketBlocks (st.buckets b)

theorem bucketCount_setBucket (st : BatchState) {b : ℕ}
    (hb : b < pageBucketCount) (bucket : Option Bucket) (x : Addr) :
    (st.setBucket b bucket).bucketCount x +
        (bucketBlocks (st.buckets b)).count x =
      st.bucketCount x + (bucketBlocks bucket).count x := by
  have hmem : b ∈ Finset.range pageBucketCount := Finset.mem_range.mpr hb
  have hfun : (fun i => (bucketBlocks
      (Function.update st.buckets b bucket i)).count x) =
      Function.update (fun i => (bucketBlocks (st.buckets i)).count x) b
        ((bucketBlocks bucket).count x) := by
    funext i
    by_cases hi : i = b
    · rw [hi, Function.update_self, Function.update_self]
    · rw [Function.update_of_ne hi, Function.update_of_ne hi]
  have hold := Finset.sum_erase_add (Finset.range pageBucketCount)
    (fun i => (bucketBlocks (st.buckets i)).count x) hmem
  unfold bucketCount setBucket
  dsimp only
  rw [hfun, Finset.sum_update_of_mem hmem, Finset.sdiff_singleton_eq_erase,
    ← hold]
  omega

theorem count_le_bucketCount (st : BatchState) {b : ℕ}
    (hb : b < pageBucketCount) (x : Addr) :
    (bucketBlocks (st.buckets b)).count x ≤ st.bucketCount x := by
  unfold bucketCount
  exact Finset.single_le_sum
    (f := fun i => (bucketBlocks (st.buckets i)).count x)
    (fun _ _ => Nat.zero_le _) (Finset.mem_range.mpr hb)

theorem count_add_le_bucketCount (st : BatchState) {b b' : ℕ}
    (hb : b < pageBucketCount) (hb' : b' < pageBucketCount) (hne : b ≠ b')
    (x : Addr) :
    (bucketBlocks (st.buckets b)).count x +
        (bucketBlocks (st.buckets b')).count x ≤ st.bucketCount x := by
  have hemptied := st.bucketCount_setBucket hb none x
  have hother := (st.setBucket b none).count_le_bucketCount hb' x
  have hsame : (st.setBucket b none).buckets b' = st.buckets b' :=
    Function.update_of_ne hne.symm _ _
  rw [hsame] at hother
  simp only [bucketBlocks, List.count_nil] at hemptied hother ⊢
  omega

end BatchState

/-! ## What the other threads may do -/

/-- Shared memory suits the call: no list has a block that is not handed
over, a page that asks for delayed frees has a heap, also after the call has
answered it, and the flag for aligned blocks is set where it is needed. -/
structure Fits (pages : BatchPages) (heapsOf : ℕ → Set ℕ) (st : BatchState)
    (mem : BatchMemory) : Prop where
  pageLists : ∀ page,
    Listed mem.next (mem.xthreadFree page).block (st.Held pages)
  heapLists : ∀ heap,
    Listed mem.next (mem.threadDelayedFree heap) (st.Held pages)
  useHeap : ∀ page, (mem.xthreadFree page).delayed = .useDelayedFree →
    mem.xheap page ≠ none
  busyHeap : ∀ b heldUp bucket, st.pc = .flush b .loadHeap heldUp →
    st.buckets b = some bucket → mem.xheap bucket.page ≠ none
  heaps : ∀ page heap, mem.xheap page = some heap → heap ∈ heapsOf page
  aligned : ∀ p, some p ∈ st.pc.rest → pages.blockOf p ≠ p →
    mem.hasAligned (pages.pageOf p) = true

structure Interferes (pages : BatchPages) (heapsOf : ℕ → Set ℕ)
    (st : BatchState) (mem : BatchMemory) : Prop where
  links : ∀ b bucket, st.buckets b = some bucket → ∀ x ∈ bucket.blocks,
    mem.next x = st.mem.next x
  fits : Fits pages heapsOf st mem

inductive BatchStep (pages : BatchPages) (call : BatchCall)
    (heapsOf : ℕ → Set ℕ) : BatchState → BatchState → Prop where
  | call (st : BatchState) (fail : Bool) :
      BatchStep pages call heapsOf st (batchStep pages call fail st)
  | other (st : BatchState) {mem : BatchMemory}
      (hother : Interferes pages heapsOf st mem) :
      BatchStep pages call heapsOf st { st with mem := mem }

/-! ## Steps of the flush -/

def FreePc.past : FreePc → Bool
  | .loadReset => true
  | .reset _ => true
  | .done => true
  | _ => false

/-- What a step of the flush does to shared memory: it writes the link of
`tail` and changes a flag, or it puts the chain in front of one list. -/
inductive FlushEffect (bucket : Bucket) (mem : FreeMemory) :
    FreeMemory → List Handed → Prop where
  | quiet {mem' : FreeMemory}
      (hnext : ∀ x, x ≠ bucket.tail → mem'.next x = mem.next x)
      (hpages : ∀ page,
        (mem'.xthreadFree page).block = (mem.xthreadFree page).block)
      (hflags : ∀ page,
        (mem'.xthreadFree page).delayed = .useDelayedFree →
          (mem.xthreadFree page).delayed = .useDelayedFree)
      (hheaps : mem'.threadDelayedFree = mem.threadDelayedFree)
      (hxheap : mem'.xheap = mem.xheap) :
      FlushEffect bucket mem mem' []
  | page (delayed : Delayed)
      (hflag : delayed = (mem.xthreadFree bucket.page).delayed) :
      FlushEffect bucket mem
        ((mem.setNext bucket.tail (mem.xthreadFree bucket.page).block)
          |>.setThreadFree bucket.page ⟨some bucket.head, delayed⟩)
        [.threadFree bucket.page bucket.blocks]
  | heap (heap : ℕ) :
      FlushEffect bucket mem
        ((mem.setNext bucket.tail (mem.threadDelayedFree heap))
          |>.setDelayedFree heap (some bucket.head))
        [.delayedFree bucket.page heap bucket.blocks]

def FreePc.HeapIn (heaps : Set ℕ) : FreePc → Prop
  | .loadDelayed heap => heap ∈ heaps
  | .pushDelayed heap _ => heap ∈ heaps
  | _ => True

structure FlushNext (bucket : Bucket) (mem : FreeMemory) (heaps : Set ℕ)
    (pc pc' : FreePc) (handed : List Handed) : Prop where
  past : pc'.past = true ↔ pc.past = true ∨ handed ≠ []
  once : pc.past = true → handed = []
  loadHeap : pc' = .loadHeap →
    (mem.xthreadFree bucket.page).delayed = .useDelayedFree
  heapIn : pc'.HeapIn heaps

theorem flushStep_spec (bucket : Bucket) (mem : FreeMemory)
    {heaps : Set ℕ} {pc : FreePc} (fail : Bool)
    (hheap : pc.HeapIn heaps)
    (hbusy : pc = .loadHeap → mem.xheap bucket.page ≠ none)
    (hheaps : ∀ heap, mem.xheap bucket.page = some heap → heap ∈ heaps) :
    let result := flushStep bucket.page bucket.head bucket.tail fail mem pc
    let handed := flushHanded bucket pc result.1
    FlushEffect bucket mem result.2 handed ∧
      FlushNext bucket mem heaps pc result.1 handed := by
  have hsame : FlushEffect bucket mem mem [] :=
    .quiet (fun _ _ => rfl) (fun _ => rfl) (fun _ h => h) rfl rfl
  have hwrite : ∀ target, FlushEffect bucket mem
      (mem.setNext bucket.tail target) [] := by
    intro target
    refine .quiet ?_ (fun _ => rfl) (fun _ h => h) rfl rfl
    intro x hx
    exact Function.update_of_ne hx _ _
  have hflag : ∀ delayed, delayed ≠ .useDelayedFree →
      FlushEffect bucket mem (mem.setThreadFree bucket.page
        ⟨(mem.xthreadFree bucket.page).block, delayed⟩) [] := by
    intro delayed hdelayed
    refine .quiet (fun _ _ => rfl) ?_ ?_ rfl rfl
    · intro page
      by_cases hpage : page = bucket.page
      · simp [FreeMemory.setThreadFree, hpage]
      · simp [FreeMemory.setThreadFree, hpage]
    · intro page hpage
      by_cases heq : page = bucket.page
      · simp [FreeMemory.setThreadFree, heq] at hpage
        exact absurd hpage hdelayed
      · simpa [FreeMemory.setThreadFree, heq] using hpage
  dsimp only
  cases pc with
  | load =>
      refine ⟨hsame, ?_⟩
      constructor <;> simp [flushStep, flushHanded, FreePc.past,
        FreePc.HeapIn]
  | exchange tfree =>
      by_cases hcas : mem.xthreadFree bucket.page = tfree ∧ fail = false
      · by_cases huse : tfree.delayed = .useDelayedFree
        · have hstep : flushStep bucket.page bucket.head bucket.tail fail mem
              (.exchange tfree) = (.loadHeap, mem.setThreadFree bucket.page
                ⟨tfree.block, .delayedFreeing⟩) := by
            unfold flushStep
            dsimp only
            rw [if_pos huse, if_pos hcas]
          rw [hstep]
          constructor
          · rw [← hcas.1]
            exact hflag _ (by decide)
          · constructor
            · simp [flushHanded, FreePc.past]
            · simp [FreePc.past]
            · rw [hcas.1]
              exact fun _ => huse
            · trivial
        · have hstep : flushStep bucket.page bucket.head bucket.tail fail mem
              (.exchange tfree) =
                (.done, (mem.setNext bucket.tail tfree.block).setThreadFree
                  bucket.page ⟨some bucket.head, tfree.delayed⟩) := by
            unfold flushStep
            dsimp only
            rw [if_neg huse, if_pos]
            exact hcas
          rw [hstep]
          constructor
          · rw [← hcas.1]
            exact .page _ rfl
          · constructor <;> simp [flushHanded, FreePc.past, FreePc.HeapIn]
      · have hstep : ∃ mem', FlushEffect bucket mem mem' [] ∧
            flushStep bucket.page bucket.head bucket.tail fail mem
              (.exchange tfree) =
                (.exchange (mem.xthreadFree bucket.page), mem') := by
          by_cases huse : tfree.delayed = .useDelayedFree
          · refine ⟨mem, hsame, ?_⟩
            unfold flushStep
            dsimp only
            rw [if_pos huse, if_neg hcas]
          · refine ⟨mem.setNext bucket.tail tfree.block, hwrite _, ?_⟩
            unfold flushStep
            dsimp only
            rw [if_neg huse, if_neg]
            · rfl
            · exact hcas
        rcases hstep with ⟨mem', heffect, hstep⟩
        rw [hstep]
        refine ⟨heffect, ?_⟩
        constructor <;> simp [flushHanded, FreePc.past, FreePc.HeapIn]
  | loadHeap =>
      rcases Option.ne_none_iff_exists'.mp (hbusy rfl) with ⟨heap, hsome⟩
      have hstep : flushStep bucket.page bucket.head bucket.tail fail mem
          .loadHeap = (.loadDelayed heap, mem) := by
        unfold flushStep
        dsimp only
        rw [hsome]
      rw [hstep]
      refine ⟨hsame, ?_⟩
      constructor
      · simp [flushHanded, FreePc.past]
      · simp [FreePc.past]
      · simp
      · exact hheaps heap hsome
  | loadDelayed heap =>
      refine ⟨hsame, ?_⟩
      constructor
      · simp [flushStep, flushHanded, FreePc.past]
      · simp [FreePc.past]
      · simp [flushStep]
      · exact hheap
  | pushDelayed heap dfree =>
      by_cases hcas : mem.threadDelayedFree heap = dfree ∧ fail = false
      · have hstep : flushStep bucket.page bucket.head bucket.tail fail mem
            (.pushDelayed heap dfree) =
              (.loadReset, (mem.setNext bucket.tail dfree).setDelayedFree
                heap (some bucket.head)) := by
          unfold flushStep
          dsimp only
          rw [if_pos]
          exact hcas
        rw [hstep]
        constructor
        · rw [← hcas.1]
          exact .heap heap
        · constructor <;> simp [flushHanded, FreePc.past, FreePc.HeapIn]
      · have hstep : flushStep bucket.page bucket.head bucket.tail fail mem
            (.pushDelayed heap dfree) =
              (.pushDelayed heap (mem.threadDelayedFree heap),
                mem.setNext bucket.tail dfree) := by
          unfold flushStep
          dsimp only
          rw [if_neg]
          · rfl
          · exact hcas
        rw [hstep]
        refine ⟨hwrite dfree, ?_⟩
        constructor
        · simp [flushHanded, FreePc.past]
        · simp [FreePc.past]
        · simp
        · exact hheap
  | loadReset =>
      refine ⟨hsame, ?_⟩
      constructor <;> simp [flushStep, flushHanded, FreePc.past,
        FreePc.HeapIn]
  | reset tfree =>
      by_cases hcas : mem.xthreadFree bucket.page = tfree ∧ fail = false
      · have hstep : flushStep bucket.page bucket.head bucket.tail fail mem
            (.reset tfree) = (.done, mem.setThreadFree bucket.page
              ⟨tfree.block, .noDelayedFree⟩) := by
          unfold flushStep
          dsimp only
          rw [if_pos hcas]
        rw [hstep]
        constructor
        · rw [← hcas.1]
          exact hflag _ (by decide)
        · constructor <;> simp [flushHanded, FreePc.past, FreePc.HeapIn]
      · have hstep : flushStep bucket.page bucket.head bucket.tail fail mem
            (.reset tfree) = (.reset (mem.xthreadFree bucket.page), mem) := by
          unfold flushStep
          dsimp only
          rw [if_neg hcas]
        rw [hstep]
        refine ⟨hsame, ?_⟩
        constructor <;> simp [flushHanded, FreePc.past, FreePc.HeapIn]
  | done =>
      refine ⟨hsame, ?_⟩
      constructor <;> simp [flushStep, flushHanded, FreePc.past,
        FreePc.HeapIn]

/-! ## The invariant -/

/-- Block `x` of the array belongs to the page. -/
def OwnPage (pages : BatchPages) (ptrs : List (Option Addr)) (page : ℕ)
    (x : Addr) : Prop :=
  ∃ p, some p ∈ ptrs ∧ pages.blockOf p = x ∧ pages.pageOf p = page

/-- The blocks went to their own page or to one of its heaps. -/
def Handed.Own (pages : BatchPages) (heapsOf : ℕ → Set ℕ)
    (ptrs : List (Option Addr)) : Handed → Prop
  | .freed p => some p ∈ ptrs
  | .threadFree page blocks => ∀ x ∈ blocks, OwnPage pages ptrs page x
  | .delayedFree page heap blocks =>
      heap ∈ heapsOf page ∧ ∀ x ∈ blocks, OwnPage pages ptrs page x
  | .array _ => True

structure BatchInvariant (pages : BatchPages) (heapsOf : ℕ → Set ℕ)
    (ptrs : List (Option Addr)) (st : BatchState) : Prop where
  counted : ∀ x, (st.handedBlocks pages).count x + st.bucketCount x +
    (st.pc.blocks pages).count x = (pages.arrayBlocks ptrs).count x
  bound : ∀ b bucket, st.buckets b = some bucket → b < pageBucketCount
  chains : ∀ b bucket, st.buckets b = some bucket → bucket.blocks ≠ [] →
    ChainOk st.mem.next bucket
  ownPage : ∀ b bucket, st.buckets b = some bucket → ∀ x ∈ bucket.blocks,
    OwnPage pages ptrs bucket.page x
  flushing : ∀ b pc heldUp, st.pc = .flush b pc heldUp →
    ∃ bucket, st.buckets b = some bucket ∧
      (bucket.blocks = [] ↔ pc.past = true) ∧
      pc.HeapIn (heapsOf bucket.page)
  flushed : ∀ b bucket, st.buckets b = some bucket → bucket.blocks = [] →
    ∃ pc heldUp, st.pc = .flush b pc heldUp
  heldUp : ∀ b pc held, st.pc = .flush b pc (some held) →
    OwnPage pages ptrs held.page held.block
  inserting : ∀ b held, st.pc = .insert b held →
    OwnPage pages ptrs held.page held.block ∧ b < pageBucketCount ∧
      ∀ bucket, st.buckets b = some bucket → bucket.page = held.page
  rest : ∀ p ∈ st.pc.rest, p ∈ ptrs
  drained : ∀ b, st.pc = .drain b ∨ (∃ pc, st.pc = .flush b pc none) →
    ∀ b' < b, st.buckets b' = none
  done : st.pc = .done → ∀ b, st.buckets b = none
  own : ∀ entry ∈ st.handed, entry.Own pages heapsOf ptrs
  fits : Fits pages heapsOf st st.mem

/-- The blocks of an entry that went to `xthread_free` of the page. -/
def Handed.onPage (page : ℕ) : Handed → List Addr
  | .threadFree page' blocks => if page' = page then blocks else []
  | _ => []

/-- The blocks of an entry that went to the delayed list of the heap. -/
def Handed.onHeap (heap : ℕ) : Handed → List Addr
  | .delayedFree _ heap' blocks => if heap' = heap then blocks else []
  | _ => []

structure ListsGrow (handed : List Handed) (mem mem' : FreeMemory) :
    Prop where
  pages : ∀ page l, IsChain mem.next (mem.xthreadFree page).block l →
    IsChain mem'.next (mem'.xthreadFree page).block
      (handed.flatMap (Handed.onPage page) ++ l)
  heaps : ∀ heap l, IsChain mem.next (mem.threadDelayedFree heap) l →
    IsChain mem'.next (mem'.threadDelayedFree heap)
      (handed.flatMap (Handed.onHeap heap) ++ l)

def BatchKept (pages : BatchPages) (heapsOf : ℕ → Set ℕ)
    (ptrs : List (Option Addr)) (st st' : BatchState) : Prop :=
  BatchInvariant pages heapsOf ptrs st' ∧
    ∃ handed, st'.handed = st.handed ++ handed ∧
      ListsGrow handed st.mem.toFreeMemory st'.mem.toFreeMemory

section Step

variable {pages : BatchPages} {heapsOf : ℕ → Set ℕ}
  {ptrs : List (Option Addr)} {st st' : BatchState} {mem mem' : BatchMemory}

/-- Only heads and links outside the held blocks matter to the others. -/
theorem Fits.congr (h : Fits pages heapsOf st mem)
    (hheld : ∀ x, st'.Held pages x → st.Held pages x)
    (hnext : ∀ x, ¬ st.Held pages x → mem'.next x = mem.next x)
    (hpages : ∀ page,
      (mem'.xthreadFree page).block = (mem.xthreadFree page).block)
    (hflags : ∀ page, (mem'.xthreadFree page).delayed = .useDelayedFree →
      (mem.xthreadFree page).delayed = .useDelayedFree)
    (hheaps : mem'.threadDelayedFree = mem.threadDelayedFree)
    (hxheap : mem'.xheap = mem.xheap)
    (haligned : mem'.hasAligned = mem.hasAligned)
    (hrest : ∀ p ∈ st'.pc.rest, p ∈ st.pc.rest)
    (hbusy : ∀ b heldUp bucket, st'.pc = .flush b .loadHeap heldUp →
      st'.buckets b = some bucket →
        (mem.xthreadFree bucket.page).delayed = .useDelayedFree) :
    Fits pages heapsOf st' mem' := by
  constructor
  · intro page
    rw [hpages]
    exact ((h.pageLists page).congr hnext).mono hheld
  · intro heap
    rw [hheaps]
    exact ((h.heapLists heap).congr hnext).mono hheld
  · intro page huse
    rw [hxheap]
    exact h.useHeap page (hflags page huse)
  · intro b heldUp bucket hpc hbucket
    rw [hxheap]
    exact h.useHeap bucket.page (hbusy b heldUp bucket hpc hbucket)
  · rw [hxheap]
    exact h.heaps
  · intro p hp hne
    rw [haligned]
    exact h.aligned p (hrest (some p) hp) hne

/-- Writing the links of held blocks changes no list. -/
theorem Fits.listsGrow (h : Fits pages heapsOf st mem)
    {other : FreeMemory}
    (hnext : ∀ x, ¬ st.Held pages x → other.next x = mem.next x)
    (hpages : ∀ page,
      (other.xthreadFree page).block = (mem.xthreadFree page).block)
    (hheaps : other.threadDelayedFree = mem.threadDelayedFree)
    {handed : List Handed}
    (hnoPage : ∀ page, handed.flatMap (Handed.onPage page) = [])
    (hnoHeap : ∀ heap, handed.flatMap (Handed.onHeap heap) = []) :
    ListsGrow handed mem.toFreeMemory other := by
  constructor
  · intro page l hl
    rw [hpages, hnoPage]
    exact (h.pageLists page).chain_congr hnext hl
  · intro heap l hl
    rw [hheaps, hnoHeap]
    exact (h.heapLists heap).chain_congr hnext hl

end Step

namespace BatchInvariant

variable {pages : BatchPages} {heapsOf : ℕ → Set ℕ}
  {ptrs : List (Option Addr)} {st st' : BatchState}

/-! ## Every block is in one place -/

theorem count_le_one (h : BatchInvariant pages heapsOf ptrs st)
    (hnodup : (pages.arrayBlocks ptrs).Nodup) (x : Addr) :
    (st.handedBlocks pages).count x + st.bucketCount x +
      (st.pc.blocks pages).count x ≤ 1 := by
  rw [h.counted]
  exact List.nodup_iff_count_le_one.mp hnodup x

theorem notMem_bucket (h : BatchInvariant pages heapsOf ptrs st)
    (hnodup : (pages.arrayBlocks ptrs).Nodup) {x : Addr}
    (hx : x ∈ st.pc.blocks pages) {b : ℕ} {bucket : Bucket}
    (hbucket : st.buckets b = some bucket) : x ∉ bucket.blocks := by
  intro hmem
  have hcount := h.count_le_one hnodup x
  have hle := st.count_le_bucketCount (h.bound b bucket hbucket) x
  rw [hbucket] at hle
  have hpos := List.count_pos_iff.mpr hx
  have hpos' : 0 < (bucketBlocks (some bucket)).count x :=
    List.count_pos_iff.mpr hmem
  omega

theorem notMem_other (h : BatchInvariant pages heapsOf ptrs st)
    (hnodup : (pages.arrayBlocks ptrs).Nodup) {b b' : ℕ}
    {bucket bucket' : Bucket} (hbucket : st.buckets b = some bucket)
    (hbucket' : st.buckets b' = some bucket') (hne : b ≠ b') {x : Addr}
    (hx : x ∈ bucket.blocks) : x ∉ bucket'.blocks := by
  intro hmem
  have hcount := h.count_le_one hnodup x
  have hle := st.count_add_le_bucketCount (h.bound b bucket hbucket)
    (h.bound b' bucket' hbucket') hne x
  rw [hbucket, hbucket'] at hle
  have hpos : 0 < (bucketBlocks (some bucket)).count x :=
    List.count_pos_iff.mpr hx
  have hpos' : 0 < (bucketBlocks (some bucket')).count x :=
    List.count_pos_iff.mpr hmem
  omega

theorem held_of_bucket {b : ℕ} {bucket : Bucket}
    (hbucket : st.buckets b = some bucket) {x : Addr}
    (hx : x ∈ bucket.blocks) : st.Held pages x := by
  refine Or.inr ⟨b, ?_⟩
  rw [hbucket]
  exact hx

theorem blocks_ne_nil (h : BatchInvariant pages heapsOf ptrs st)
    (hpc : ∀ b pc heldUp, st.pc ≠ .flush b pc heldUp) {b : ℕ}
    {bucket : Bucket} (hbucket : st.buckets b = some bucket) :
    bucket.blocks ≠ [] := by
  intro hnil
  rcases h.flushed b bucket hbucket hnil with ⟨pc, heldUp, heq⟩
  exact hpc b pc heldUp heq

end BatchInvariant

end Palloc
