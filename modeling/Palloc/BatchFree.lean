import Palloc.DelayedFree
import Palloc.PointerLookup
import Palloc.SegmentModel

/-!
# Freeing an array of blocks

`pa_vector_batch_free` frees the blocks of the calling thread and huge blocks
one by one.  The other ones it gathers in 64 buckets, one chain of blocks of
one page in each, and gives a whole chain to the owner of its page with
`pa_flush_page_bucket`.  A bucket that is taken by another page is flushed
first, and all of them at the end.

As in `pa_free_block_delayed_mt`, each step is one atomic access to shared
memory.  Other threads, and `pa_free` where it is called, do anything between
two steps that `Interferes` allows: they know nothing about the blocks that
are still to be handed over.
-/

namespace Palloc

/-! ## Pages and pointers -/

/-- What stays as it is while a page has live blocks; a page is known by the
address of its `pa_page_t`, a segment by its number. -/
structure BatchPages where
  pageOf : Addr → ℕ
  pageStart : ℕ → Addr
  blockSize : ℕ → ℕ
  blockSizeShift : ℕ → ℕ
  kind : ℕ → SegmentKind
  nodeId : ℕ → ℕ

/-- `_pa_page_ptr_unalign`. -/
def BatchPages.ptrUnalign (pages : BatchPages) (page : ℕ) (p : Addr) :
    Addr :=
  pagePtrUnalign (pages.pageStart page) (pages.blockSize page)
    (pages.blockSizeShift page) p

/-- The start of the block that `p` points into. -/
def BatchPages.blockOf (pages : BatchPages) (p : Addr) : Addr :=
  let page := pages.pageOf p
  pages.pageStart page + (p - pages.pageStart page) /
    pages.blockSize page * pages.blockSize page

structure BatchPages.Live (pages : BatchPages) (p : Addr) : Prop where
  start_le : pages.pageStart (pages.pageOf p) ≤ p
  size_pos : 0 < pages.blockSize (pages.pageOf p)
  shift : pages.blockSizeShift (pages.pageOf p) ≠ 0 →
    pages.blockSize (pages.pageOf p) =
      2 ^ pages.blockSizeShift (pages.pageOf p)

theorem BatchPages.Live.ptrUnalign {pages : BatchPages} {p : Addr}
    (h : pages.Live p) :
    pages.ptrUnalign (pages.pageOf p) p = pages.blockOf p :=
  pagePtrUnalign_eq h.shift h.start_le

/-! ## Buckets -/

def pageBucketHalf : ℕ := 32

def pageBucketCount : ℕ := pageBucketHalf * 2

def pageBucketMask : ℕ := pageBucketHalf - 1

/-- The bucket of a page: the second half is for segments of other NUMA
nodes. -/
def BatchPages.bucketOf (pages : BatchPages) (localNode segment page : ℕ) :
    ℕ :=
  (if pages.nodeId segment ≠ localNode % 65536 then pageBucketHalf else 0) +
    ((page >>> 6) &&& pageBucketMask)

theorem BatchPages.bucketOf_lt (pages : BatchPages)
    (localNode segment page : ℕ) :
    pages.bucketOf localNode segment page < pageBucketCount := by
  have hmask : (page >>> 6) &&& pageBucketMask < pageBucketHalf :=
    Nat.and_lt_two_pow _ (show pageBucketMask < 2 ^ 5 by decide)
  unfold BatchPages.bucketOf
  unfold pageBucketCount pageBucketHalf at *
  split
  · omega
  · omega

/-- `palloc_page_bucket_t` with a page.  `blocks` is no field of the source:
it lists the blocks of the chain until they are handed over. -/
structure Bucket where
  page : ℕ
  head : Addr
  tail : Addr
  blocks : List Addr
  deriving DecidableEq, Repr

inductive Handed where
  /-- To `pa_free`. -/
  | freed (p : Addr)
  /-- To `xthread_free` of the page. -/
  | threadFree (page : ℕ) (blocks : List Addr)
  /-- To `thread_delayed_free` of the heap. -/
  | delayedFree (page heap : ℕ) (blocks : List Addr)
  /-- The array itself, to `pa_free`. -/
  | array (ptrs : Addr)
  deriving DecidableEq, Repr

def Handed.blocks (pages : BatchPages) : Handed → List Addr
  | .freed p => [pages.blockOf p]
  | .threadFree _ blocks => blocks
  | .delayedFree _ _ blocks => blocks
  | .array _ => []

/-! ## The call -/

/-- One step of `pa_flush_page_bucket` for the chain from `head` to `tail` of
`page`. -/
def flushStep (page : ℕ) (head tail : Addr) (fail : Bool)
    (mem : FreeMemory) : FreePc → FreePc × FreeMemory
  | .load => (.exchange (mem.xthreadFree page), mem)
  | .exchange tfree =>
      if tfree.delayed = .useDelayedFree then
        if mem.xthreadFree page = tfree ∧ fail = false then
          (.loadHeap,
            mem.setThreadFree page ⟨tfree.block, .delayedFreeing⟩)
        else (.exchange (mem.xthreadFree page), mem)
      else
        let mem := mem.setNext tail tfree.block
        if mem.xthreadFree page = tfree ∧ fail = false then
          (.done, mem.setThreadFree page ⟨some head, tfree.delayed⟩)
        else (.exchange (mem.xthreadFree page), mem)
  | .loadHeap =>
      match mem.xheap page with
      | some heap => (.loadDelayed heap, mem)
      | none => (.loadReset, mem)
  | .loadDelayed heap => (.pushDelayed heap (mem.threadDelayedFree heap), mem)
  | .pushDelayed heap dfree =>
      let mem := mem.setNext tail dfree
      if mem.threadDelayedFree heap = dfree ∧ fail = false then
        (.loadReset, mem.setDelayedFree heap (some head))
      else (.pushDelayed heap (mem.threadDelayedFree heap), mem)
  | .loadReset => (.reset (mem.xthreadFree page), mem)
  | .reset tfree =>
      if mem.xthreadFree page = tfree ∧ fail = false then
        (.done, mem.setThreadFree page ⟨tfree.block, .noDelayedFree⟩)
      else (.reset (mem.xthreadFree page), mem)
  | .done => (.done, mem)

def flushHanded (bucket : Bucket) : FreePc → FreePc → List Handed
  | .exchange _, .done => [.threadFree bucket.page bucket.blocks]
  | .pushDelayed heap _, .loadReset =>
      [.delayedFree bucket.page heap bucket.blocks]
  | _, _ => []

structure HeldUp where
  page : ℕ
  block : Addr
  rest : List (Option Addr)

/-- Where the call is: at the pointers `rest`, about to put a block into its
bucket, flushing a bucket, also before a block is put there, or at a bucket of
the last loop. -/
inductive BatchPc where
  | scan (rest : List (Option Addr))
  | insert (b : ℕ) (held : HeldUp)
  | flush (b : ℕ) (pc : FreePc) (heldUp : Option HeldUp)
  | drain (b : ℕ)
  | done

/-- Shared memory: the `thread_id` of the segments and the `has_aligned` flag
of the pages belong to it. -/
structure BatchMemory extends FreeMemory where
  threadId : ℕ → ℕ
  hasAligned : ℕ → Bool

structure BatchState where
  mem : BatchMemory
  buckets : ℕ → Option Bucket
  pc : BatchPc
  handed : List Handed

namespace BatchState

def setMem (st : BatchState) (mem : FreeMemory) : BatchState :=
  { st with mem := { st.mem with toFreeMemory := mem } }

def setBucket (st : BatchState) (b : ℕ) (bucket : Option Bucket) :
    BatchState :=
  { st with buckets := Function.update st.buckets b bucket }

def goto (st : BatchState) (pc : BatchPc) : BatchState :=
  { st with pc := pc }

def hand (st : BatchState) (handed : List Handed) : BatchState :=
  { st with handed := st.handed ++ handed }

/-- Put a block of `page` in front of the chain of a bucket that is empty or
has blocks of the page. -/
def insertBlock (st : BatchState) (b page : ℕ) (block : Addr) : BatchState :=
  match st.buckets b with
  | none =>
      (st.setMem (st.mem.setNext block none)).setBucket b
        (some ⟨page, block, block, [block]⟩)
  | some bucket =>
      (st.setMem (st.mem.setNext block (some bucket.head))).setBucket b
        (some { bucket with head := block, blocks := block :: bucket.blocks })

end BatchState

structure BatchCall where
  ptrs : Addr
  tid : ℕ
  localNode : ℕ

/-- One step of `pa_vector_batch_free`. -/
def batchStep (pages : BatchPages) (call : BatchCall) (fail : Bool)
    (st : BatchState) : BatchState :=
  match st.pc with
  | .scan [] => st.goto (.drain 0)
  | .scan (none :: rest) => st.goto (.scan rest)
  | .scan (some p :: rest) =>
      match segmentNumber p with
      | none => (st.hand [.freed p]).goto (.scan rest)
      | some segment =>
          if pages.kind segment = .huge then
            (st.hand [.freed p]).goto (.scan rest)
          else if call.tid = st.mem.threadId segment then
            (st.hand [.freed p]).goto (.scan rest)
          else
            let page := pages.pageOf p
            let block :=
              if st.mem.hasAligned page then pages.ptrUnalign page p else p
            let b := pages.bucketOf call.localNode segment page
            if (st.buckets b).any (fun bucket => bucket.page ≠ page) then
              st.goto (.flush b .load (some ⟨page, block, rest⟩))
            else st.goto (.insert b ⟨page, block, rest⟩)
  | .insert b held =>
      (st.insertBlock b held.page held.block).goto (.scan held.rest)
  | .flush b .done (some held) =>
      (st.setBucket b none).goto (.insert b held)
  | .flush b .done none => (st.setBucket b none).goto (.drain (b + 1))
  | .flush b pc heldUp =>
      match st.buckets b with
      | none => st.goto (.flush b .done heldUp)
      | some bucket =>
          let (pc', mem) := flushStep bucket.page bucket.head bucket.tail
            fail st.mem.toFreeMemory pc
          let handed := flushHanded bucket pc pc'
          let bucket :=
            if handed = [] then bucket else { bucket with blocks := [] }
          (((st.setMem mem).setBucket b (some bucket)).hand handed).goto
            (.flush b pc' heldUp)
  | .drain b =>
      if b < pageBucketCount then
        if st.buckets b = none then st.goto (.drain (b + 1))
        else st.goto (.flush b .load none)
      else (st.hand [.array call.ptrs]).goto .done
  | .done => st

def batchStart (mem : BatchMemory) (ptrs : List (Option Addr)) :
    BatchState :=
  ⟨mem, fun _ => none, .scan ptrs, []⟩

end Palloc
