import Palloc.AllocatorModel
import Palloc.LinkedChain
import Mathlib.Data.BitVec

/-!
# The block lists of a page

Every page keeps three lists of free blocks: `free`, from which blocks are
allocated, `local_free` with blocks its owner freed, and the block part of
`xthread_free` with blocks other threads freed.  This file embeds the
operations that move blocks between the lists and that carve new blocks.

The counters `used` and `capacity` are 16 bits wide.  A loop over a list that
the code does not bound takes fuel here and returns `none` when it runs out.
-/

namespace Palloc

/-- `pa_page_block_at`. -/
def pageBlockAt (pageArea blockSize i : ℕ) : Addr := pageArea + i * blockSize

/-- `pa_block_set_next`. -/
def PageFields.blockSetNext (page : PageFields) (block : Addr)
    (next : Option Addr) : PageFields :=
  { page with links := Function.update page.links block next }

/-! ## Allocating a block -/

/-- The link word of a fresh block after `_pa_page_finish_alloc`. -/
def pageFinishAlloc (cfg : Config) (page : PageFields) (block : Addr)
    (zero : Bool) : PageFields :=
  if zero ∨ cfg.secure ≠ 0 then page.blockSetNext block none else page

/-- `_pa_page_malloc_zero` when the free list is not empty; with an empty one
it goes to the generic allocation, here `none`. -/
def pageMallocZero (cfg : Config) (page : PageFields) (zero : Bool) :
    Option (Addr × PageFields) :=
  match page.free with
  | none => none
  | some block =>
      let page' :=
        { page with
          free := page.links block
          used := (page.used + 1) % 65536 }
      some (block, pageFinishAlloc cfg page' block zero)

/-! ## Collecting freed blocks -/

/-- The walk to the tail of the thread-free list: at most `remaining` more
links are followed. -/
def collectTail (links : Addr → Option Addr) :
    (remaining : ℕ) → (tail : Addr) → (count : ℕ) → Addr × ℕ
  | 0, tail, count => (tail, count)
  | remaining + 1, tail, count =>
      match links tail with
      | none => (tail, count)
      | some next => collectTail links remaining next (count + 1)

/-- On a chain that fits in the remaining links the walk ends at its last
node with the length added. -/
theorem collectTail_spec {links : Addr → Option Addr}
    (remaining count : ℕ) {tail : Addr} {rest : List Addr}
    (h : LinkedChain.IsChain links (links tail) rest)
    (hlength : rest.length ≤ remaining) :
    collectTail links remaining tail count =
      ((tail :: rest).getLast (by simp), count + rest.length) := by
  induction rest generalizing remaining tail count with
  | nil =>
      have hnone : links tail = none := h
      cases remaining <;> simp [collectTail, hnone]
  | cons next rest ih =>
      obtain ⟨hnext, hrest⟩ := h
      cases remaining with
      | zero => simp at hlength
      | succ remaining =>
          simp only [collectTail, hnext]
          rw [ih remaining (count + 1) hrest (by simpa using hlength)]
          simp only [List.getLast_cons_cons, List.length_cons]
          congr 1
          omega

/-- `_pa_page_thread_free_collect`.  The walk starts at count 1 and stops once
the count exceeds `capacity`, so it follows at most `capacity` links. -/
def pageThreadFreeCollect (page : PageFields) : PageFields :=
  let page' :=
    { page with xthreadFree := { page.xthreadFree with block := none } }
  match page.xthreadFree.block with
  | none => page'
  | some head =>
      let (tail, count) := collectTail page.links page.capacity head 1
      if page.capacity < count then page'
      else
        { page'.blockSetNext tail page.localFree with
          localFree := some head
          used := (page.used + 65536 - count % 65536) % 65536 }

/-- `_pa_page_free_collect`. -/
def pageFreeCollect (page : PageFields) (force : Bool) : Option PageFields :=
  let page :=
    if force ∨ page.xthreadFree.block ≠ none then pageThreadFreeCollect page
    else page
  match page.localFree with
  | none => some page
  | some head =>
      match page.free with
      | none =>
          some
            { page with
              free := page.localFree
              localFree := none
              freeIsZero := false }
      | some _ =>
          if force then
            match LinkedChain.lastNode page.links page.capacity head with
            | none => none
            | some tail =>
                some
                  { page.blockSetNext tail page.free with
                    free := page.localFree
                    localFree := none
                    freeIsZero := false }
          else some page

/-! ## Freeing a block -/

/-- The page part of `pa_free_block_local`: push on `local_free`, and collect
when the last used block is gone. -/
def freeBlockLocal (page : PageFields) (block : Addr) : Option PageFields :=
  let page := page.blockSetNext block page.localFree
  let page :=
    { page with
      localFree := some block
      used := (page.used + 65535) % 65536 }
  if page.used = 0 then pageFreeCollect page false else some page

/-- The usual case of `pa_free_block_delayed_mt`: the successful exchange that
puts the block on the thread-free list. -/
def freeBlockThread (page : PageFields) (block : Addr) : PageFields :=
  { page.blockSetNext block page.xthreadFree.block with
    xthreadFree := { page.xthreadFree with block := some block } }

/-! ## Extending the free list -/

/-- The loop of `pa_page_free_list_extend` over the blocks up to `last`. -/
def linkBlocks (blockSize last : ℕ) :
    (fuel : ℕ) → (block : Addr) → (Addr → Option Addr) →
      Option (Addr → Option Addr)
  | 0, _, _ => none
  | fuel + 1, block, links =>
      if block ≤ last then
        linkBlocks blockSize last fuel (block + blockSize)
          (Function.update links block (some (block + blockSize)))
      else some links

/-- `pa_page_free_list_extend`. -/
def pageFreeListExtend (page : PageFields) (blockSize extend : ℕ) :
    Option PageFields :=
  let start := pageBlockAt page.pageStart blockSize page.capacity
  let last := pageBlockAt page.pageStart blockSize (page.capacity + extend - 1)
  match linkBlocks blockSize last (extend + 1) start page.links with
  | none => none
  | some links =>
      some
        { { page with links := links }.blockSetNext last page.free with
          free := some start }

def maxSliceShift : ℕ := 6
def minSlices : ℕ := 2

/-- The number of slices to alternate between, as a shift. -/
def secureShift (extend : ℕ) : (shift : ℕ) → ℕ
  | 0 => 0
  | shift + 1 =>
      if extend >>> (shift + 1) = 0 then secureShift extend shift
      else shift + 1

/-- `_pa_random_shuffle`. -/
def randomShuffle (x : BitVec 64) : BitVec 64 :=
  let x := if x = 0 then 17 else x
  let x := x ^^^ (x >>> 30)
  let x := x * 0xbf58476d1ce4e5b9
  let x := x ^^^ (x >>> 27)
  let x := x * 0x94d049bb133111eb
  x ^^^ (x >>> 31)

def nextSlice (counts : ℕ → ℕ) (sliceCount : ℕ) :
    (fuel : ℕ) → (next : ℕ) → Option ℕ
  | 0, _ => none
  | fuel + 1, next =>
      if counts next = 0 then
        nextSlice counts sliceCount fuel
          (if next + 1 = sliceCount then 0 else next + 1)
      else some next

/-- The loop variables of `pa_page_free_list_extend_secure`. -/
structure SecureExtend where
  /-- First block of every slice that is not linked yet; of the current slice
  the block linked last. -/
  blocks : ℕ → Addr
  /-- Blocks of every slice that are not linked yet. -/
  counts : ℕ → ℕ
  current : ℕ
  rnd : BitVec 64
  links : Addr → Option Addr

/-- Round `i` of the loop of `pa_page_free_list_extend_secure`. -/
def secureRound (blockSize sliceCount i : ℕ) (st : SecureExtend) :
    Option SecureExtend :=
  let round := i % intptrSize
  let rnd := if round = 0 then randomShuffle st.rnd else st.rnd
  let start := (rnd >>> (8 * round)).toNat &&& (sliceCount - 1)
  match nextSlice st.counts sliceCount sliceCount start with
  | none => none
  | some next =>
      let block := st.blocks st.current
      let blocks := Function.update st.blocks st.current (block + blockSize)
      some
        { blocks := blocks
          counts := Function.update st.counts next (st.counts next - 1)
          current := next
          rnd := rnd
          links := Function.update st.links block (some (blocks next)) }

/-- The rounds from `i` on, `rounds` of them. -/
def secureRounds (blockSize sliceCount : ℕ) :
    (rounds : ℕ) → (i : ℕ) → SecureExtend → Option SecureExtend
  | 0, _, st => some st
  | rounds + 1, i, st =>
      match secureRound blockSize sliceCount i st with
      | none => none
      | some st' => secureRounds blockSize sliceCount rounds (i + 1) st'

def secureCounts (extend sliceCount : ℕ) (i : ℕ) : ℕ :=
  if i + 1 = sliceCount then extend / sliceCount + extend % sliceCount
  else extend / sliceCount

/-- `pa_page_free_list_extend_secure`; `r` is the number the heap's random
stream gives. -/
def pageFreeListExtendSecure (page : PageFields) (blockSize extend : ℕ)
    (r : BitVec 64) : Option PageFields :=
  let sliceCount := 1 <<< secureShift extend maxSliceShift
  let sliceExtend := extend / sliceCount
  let blocks := fun i => pageBlockAt page.pageStart blockSize
    (page.capacity + i * sliceExtend)
  let counts := secureCounts extend sliceCount
  let current := r.toNat % sliceCount
  let freeStart := blocks current
  let st : SecureExtend :=
    { blocks := blocks
      counts := Function.update counts current (counts current - 1)
      current := current
      rnd := randomShuffle (r ||| 1)
      links := page.links }
  match secureRounds blockSize sliceCount (extend - 1) 1 st with
  | none => none
  | some st' =>
      some
        { { page with links := st'.links }.blockSetNext
            (st'.blocks st'.current) page.free with
          free := some freeStart }

def maxExtendSize : ℕ := 4096

/-- `PA_MIN_EXTEND`. -/
def Config.minExtend (cfg : Config) : ℕ :=
  if 0 < cfg.secure then 8 * cfg.secure else 4

def extendCount (cfg : Config) (page : PageFields) : ℕ :=
  let maxExtend :=
    if maxExtendSize ≤ page.blockSize then cfg.minExtend
    else maxExtendSize / page.blockSize
  min (page.reserved - page.capacity) (max maxExtend cfg.minExtend)

/-- `pa_page_extend_free`. -/
def pageExtendFree (cfg : Config) (r : BitVec 64) (page : PageFields) :
    Option PageFields :=
  if cfg.secure ≤ 2 ∧ page.free ≠ none then some page
  else if page.reserved ≤ page.capacity then some page
  else
    let extend := extendCount cfg page
    let extended :=
      if extend < minSlices ∨ cfg.secure = 0 then
        pageFreeListExtend page page.blockSize extend
      else pageFreeListExtendSecure page page.blockSize extend r
    match extended with
    | none => none
    | some page' =>
        some { page' with capacity := (page.capacity + extend) % 65536 }

/-- `_pa_is_power_of_two`. -/
def isPowerOfTwo (x : ℕ) : Prop := x &&& (x - 1) = 0

instance (x : ℕ) : Decidable (isPowerOfTwo x) :=
  inferInstanceAs (Decidable (_ = _))

/-- `pa_page_init` on the page that starts at slice `idx` of `segment`, for
the heap `heap` with tag `heapTag`. -/
def pageInit (cfg : Config) (r : BitVec 64) (segment idx : ℕ)
    (heap heapTag blockSize : ℕ) (page : PageFields) : Option PageFields :=
  let area := segmentPageStartFromSlice segment idx page.sliceCount blockSize
  pageExtendFree cfg r
    { page with
      xheap := some heap
      heapTag := heapTag
      blockSize := blockSize
      pageStart := area.1
      reserved := area.2 / blockSize % 65536
      freeIsZero := page.isZeroInit
      blockSizeShift :=
        if 0 < blockSize ∧ isPowerOfTwo blockSize then Nat.log2 blockSize
        else 0 }

end Palloc
