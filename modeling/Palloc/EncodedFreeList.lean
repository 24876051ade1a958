import Palloc.AllocatorModel
import Palloc.LinkedChain
import Mathlib.Data.BitVec

/-!
# Encoded free lists

With `PA_ENCODE_FREELIST` the link of a free block is stored encoded with the
two keys of the list it is on, and the address of the list's owner stands for
the end of the list.  A page and a heap have different keys, so a link is only
read back correctly with the keys and the end marker it was written with.

A bucket of `pa_vector_batch_free` is a list of its page.  When the flag of
the page asks for it, `pa_flush_page_bucket` pushes the whole bucket on the
`thread_delayed_free` list of the heap, but it writes only the link of the
last block again.  The others keep the encoding of the page.
-/

namespace Palloc

open LinkedChain

abbrev UintPtr := BitVec 64

structure FreeListKeys where
  key0 : UintPtr
  key1 : UintPtr
  deriving Repr, DecidableEq

/-- `pa_rotl`. -/
def rotl (x shift : UintPtr) : UintPtr :=
  let shift := shift.toNat % 64
  if shift = 0 then x else x <<< shift ||| x >>> (64 - shift)

/-- `pa_rotr`. -/
def rotr (x shift : UintPtr) : UintPtr :=
  let shift := shift.toNat % 64
  if shift = 0 then x else x >>> shift ||| x <<< (64 - shift)

/-- `pa_ptr_decode`. -/
def ptrDecode (null x : UintPtr) (keys : FreeListKeys) : UintPtr :=
  let p := rotr (x - keys.key0) keys.key0 ^^^ keys.key1
  if p = null then 0 else p

/-- `pa_ptr_encode`. -/
def ptrEncode (null p : UintPtr) (keys : FreeListKeys) : UintPtr :=
  let x := if p = 0 then null else p
  rotl (x ^^^ keys.key1) keys.key0 + keys.key0

/-! ## Round trip -/

theorem rotl_eq_rotateLeft (x shift : UintPtr) :
    rotl x shift = x.rotateLeft shift.toNat := by
  unfold rotl
  rw [BitVec.rotateLeft_def]
  dsimp only
  split
  · next hzero =>
      rw [hzero, Nat.sub_zero, BitVec.shiftLeft_zero,
        BitVec.ushiftRight_eq_zero le_rfl, BitVec.or_zero]
  · rfl

theorem rotr_eq_rotateRight (x shift : UintPtr) :
    rotr x shift = x.rotateRight shift.toNat := by
  unfold rotr
  rw [BitVec.rotateRight_def]
  dsimp only
  split
  · next hzero => simp [hzero]
  · rfl

theorem rotr_rotl (x shift : UintPtr) : rotr (rotl x shift) shift = x := by
  rw [rotl_eq_rotateLeft, rotr_eq_rotateRight]
  apply BitVec.eq_of_getElem_eq
  intro i hi
  have hshift : shift.toNat % 64 < 64 := Nat.mod_lt _ (by decide)
  rw [BitVec.getElem_rotateRight]
  split
  · rw [BitVec.getElem_rotateLeft, dif_neg (by omega)]
    congr 1
    omega
  · rw [BitVec.getElem_rotateLeft, dif_pos (by omega)]
    congr 1
    omega

theorem ptrDecode_encoded (null x : UintPtr) (keys : FreeListKeys) :
    ptrDecode null (rotl (x ^^^ keys.key1) keys.key0 + keys.key0) keys =
      if x = null then 0 else x := by
  unfold ptrDecode
  dsimp only
  rw [BitVec.add_sub_cancel, rotr_rotl, BitVec.xor_assoc, BitVec.xor_self,
    BitVec.xor_zero]

/-- A pointer other than the end marker is read back with the keys it was
written with. -/
theorem ptrDecode_ptrEncode {null p : UintPtr} (keys : FreeListKeys)
    (hne : p ≠ null) : ptrDecode null (ptrEncode null p keys) keys = p := by
  unfold ptrEncode
  dsimp only
  rw [ptrDecode_encoded]
  by_cases hp : p = 0
  · rw [if_pos hp, if_pos rfl, hp]
  · rw [if_neg hp, if_neg hne]

/-! ## The lists -/

structure FreeListOwner where
  self : UintPtr
  keys : FreeListKeys
  deriving Repr, DecidableEq

/-- The words that a free of a block of one page touches: the stored links of
the blocks, the `xthread_free` list of the page with its flag, and the
`thread_delayed_free` list of its heap. -/
structure EncodedLists where
  next : UintPtr → UintPtr
  threadFree : UintPtr
  delayed : Delayed
  threadDelayedFree : UintPtr

/-- `pa_block_nextx`. -/
def blockNextx (next : UintPtr → UintPtr) (owner : FreeListOwner)
    (block : UintPtr) : UintPtr :=
  ptrDecode owner.self (next block) owner.keys

/-- `pa_block_set_nextx`; with the page as owner it is `pa_block_set_next`. -/
def blockSetNextx (next : UintPtr → UintPtr) (owner : FreeListOwner)
    (block target : UintPtr) : UintPtr → UintPtr :=
  Function.update next block (ptrEncode owner.self target owner.keys)

/-- `palloc_page_bucket_t` of a page. -/
structure ChainBucket where
  head : UintPtr
  tail : UintPtr
  deriving Repr, DecidableEq

/-- What `pa_vector_batch_free` does with a block of the page of a bucket. -/
def bucketAdd (page : FreeListOwner) (bucket : Option ChainBucket)
    (block : UintPtr) (lists : EncodedLists) :
    Option ChainBucket × EncodedLists :=
  match bucket with
  | none =>
      (some ⟨block, block⟩,
        { lists with next := blockSetNextx lists.next page block 0 })
  | some bucket =>
      (some ⟨block, bucket.tail⟩,
        { lists with next := blockSetNextx lists.next page block bucket.head })

/-- The bucket after the blocks of `frees` were added one after the other. -/
def bucketFill (page : FreeListOwner) :
    List UintPtr → Option ChainBucket → EncodedLists →
      Option ChainBucket × EncodedLists
  | [], bucket, lists => (bucket, lists)
  | block :: frees, bucket, lists =>
      let filled := bucketAdd page bucket block lists
      bucketFill page frees filled.1 filled.2

/-- Both kinds of free push blocks that are linked from `head` to `tail`: on
the page list, or on the delayed list of the heap when the flag of the page
asks for it. -/
def pushBlocks (page heap : FreeListOwner) (head tail : UintPtr)
    (lists : EncodedLists) : EncodedLists :=
  if lists.delayed = .useDelayedFree then
    if heap.self ≠ 0 then
      { lists with
        next := blockSetNextx lists.next heap tail lists.threadDelayedFree
        threadDelayedFree := head
        delayed := .noDelayedFree }
    else { lists with delayed := .noDelayedFree }
  else
    { lists with
      next := blockSetNextx lists.next page tail lists.threadFree
      threadFree := head }

/-- `pa_flush_page_bucket`. -/
def flushPageBucket (page heap : FreeListOwner) (bucket : Option ChainBucket)
    (lists : EncodedLists) : EncodedLists :=
  match bucket with
  | none => lists
  | some bucket => pushBlocks page heap bucket.head bucket.tail lists

/-- `pa_free_block_delayed_mt`. -/
def freeBlockDelayedMt (page heap : FreeListOwner) (block : UintPtr)
    (lists : EncodedLists) : EncodedLists :=
  pushBlocks page heap block block lists

/-- The blocks that the loop of `_pa_heap_delayed_free_partial` visits from
`block` on.  The link of a block is read before the block is freed; a free
puts the block on another list, or on this one again, and leaves some word
`freed` in it. -/
def delayedFreeVisits (heap : FreeListOwner) (freed : UintPtr → UintPtr) :
    ℕ → (UintPtr → UintPtr) → UintPtr → Option (List UintPtr)
  | 0, _, _ => none
  | fuel + 1, next, block =>
      if block = 0 then some []
      else
        let following := blockNextx next heap block
        (delayedFreeVisits heap freed fuel
          (Function.update next block (freed block)) following).map
          (block :: ·)

/-! ## Walking a list -/

/-- A pointer that is not `NULL`. -/
def nonNull (p : UintPtr) : Option UintPtr := if p = 0 then none else some p

@[simp] theorem nonNull_zero : nonNull 0 = none := rfl

theorem nonNull_eq_some {p q : UintPtr} :
    nonNull p = some q ↔ p ≠ 0 ∧ p = q := by
  unfold nonNull
  split <;> simp_all

theorem nonNull_eq_none {p : UintPtr} : nonNull p = none ↔ p = 0 := by
  unfold nonNull
  split <;> simp_all

theorem nonNull_of_ne {p : UintPtr} (hp : p ≠ 0) : nonNull p = some p := by
  rw [nonNull_eq_some]
  exact ⟨hp, rfl⟩

def FreeListOwner.link (owner : FreeListOwner) (next : UintPtr → UintPtr)
    (block : UintPtr) : Option UintPtr :=
  nonNull (blockNextx next owner block)

theorem FreeListOwner.link_congr (owner : FreeListOwner)
    {next next' : UintPtr → UintPtr} {block : UintPtr}
    (hword : next' block = next block) :
    owner.link next' block = owner.link next block := by
  unfold FreeListOwner.link blockNextx
  rw [hword]

theorem FreeListOwner.link_update_of_ne (owner : FreeListOwner)
    (next : UintPtr → UintPtr) {block other : UintPtr} (word : UintPtr)
    (hne : block ≠ other) :
    owner.link (Function.update next other word) block =
      owner.link next block :=
  owner.link_congr (Function.update_of_ne hne word next)

theorem FreeListOwner.link_setNextx (owner : FreeListOwner)
    (next : UintPtr → UintPtr) (block : UintPtr) {target : UintPtr}
    (hne : target ≠ owner.self) :
    owner.link (blockSetNextx next owner block target) block =
      nonNull target := by
  unfold FreeListOwner.link blockNextx blockSetNextx
  rw [Function.update_self, ptrDecode_ptrEncode owner.keys hne]

/-- What is written as a link is read back.  The end of a list and the pointer
to its owner share one word, and that word is read as the end. -/
theorem ptrDecode_ptrEncode_link (null p : UintPtr) (keys : FreeListKeys)
    (next : UintPtr → UintPtr) (block : UintPtr) :
    ptrDecode null (ptrEncode null p keys) keys =
      (if p = null then 0 else p) ∧
    ptrEncode null 0 keys = ptrEncode null null keys ∧
    blockNextx (blockSetNextx next ⟨null, keys⟩ block p) ⟨null, keys⟩ block =
      (if p = null then 0 else p) ∧
    ∀ other ≠ block,
      blockNextx (blockSetNextx next ⟨null, keys⟩ block p) ⟨null, keys⟩
        other = blockNextx next ⟨null, keys⟩ other := by
  have hend : ptrEncode null 0 keys = ptrEncode null null keys := by
    simp [ptrEncode]
  have hdecode : ptrDecode null (ptrEncode null p keys) keys =
      if p = null then 0 else p := by
    by_cases hp : p = null
    · -- the word is the one written for the end of the list
      rw [hp, ← hend, if_pos rfl]
      unfold ptrEncode
      dsimp only
      rw [if_pos rfl, ptrDecode_encoded, if_pos rfl]
    · rw [if_neg hp]
      exact ptrDecode_ptrEncode keys hp
  refine ⟨hdecode, hend, ?_, ?_⟩
  · unfold blockNextx blockSetNextx
    rw [Function.update_self]
    exact hdecode
  · intro other hother
    unfold blockNextx blockSetNextx
    rw [Function.update_of_ne hother]

theorem delayedFreeVisits_iff (heap : FreeListOwner) (freed : UintPtr → UintPtr)
    {next : UintPtr → UintPtr} {block : UintPtr} {l : List UintPtr}
    (hnodup : l.Nodup) :
    (∃ fuel, delayedFreeVisits heap freed fuel next block = some l) ↔
      IsChain (heap.link next) (nonNull block) l := by
  induction l generalizing next block with
  | nil =>
      rw [isChain_nil, nonNull_eq_none]
      constructor
      · rintro ⟨fuel, hvisits⟩
        cases fuel with
        | zero => simp [delayedFreeVisits] at hvisits
        | succ fuel =>
            by_contra hblock
            rw [delayedFreeVisits, if_neg hblock] at hvisits
            simp at hvisits
      · intro hblock
        exact ⟨1, by simp [delayedFreeVisits, hblock]⟩
  | cons first rest ih =>
      have hfirst : first ∉ rest := (List.nodup_cons.mp hnodup).1
      have hrest := (List.nodup_cons.mp hnodup).2
      -- freeing the first block does not touch the links of the others
      have hframe : IsChain
          (heap.link (Function.update next first (freed first)))
            (heap.link next first) rest ↔
          IsChain (heap.link next) (heap.link next first) rest := by
        have heq : ∀ other ∈ rest,
            heap.link (Function.update next first (freed first)) other =
              heap.link next other := by
          intro other hother
          apply heap.link_update_of_ne
          rintro rfl
          exact hfirst hother
        exact ⟨fun h => h.congr fun other hother => (heq other hother).symm,
          fun h => h.congr heq⟩
      rw [isChain_cons, nonNull_eq_some]
      constructor
      · rintro ⟨fuel, hvisits⟩
        cases fuel with
        | zero => simp [delayedFreeVisits] at hvisits
        | succ fuel =>
            by_cases hblock : block = 0
            · simp [delayedFreeVisits, hblock] at hvisits
            · simp only [delayedFreeVisits, hblock, if_false,
                Option.map_eq_some_iff, List.cons.injEq] at hvisits
              obtain ⟨visited, hvisited, rfl, rfl⟩ := hvisits
              exact ⟨⟨hblock, rfl⟩,
                hframe.mp ((ih hrest).mp ⟨fuel, hvisited⟩)⟩
      · rintro ⟨⟨hblock, rfl⟩, hchain⟩
        obtain ⟨fuel, hvisited⟩ := (ih hrest).mpr (hframe.mpr hchain)
        refine ⟨fuel + 1, ?_⟩
        simp only [delayedFreeVisits, hblock, if_false]
        rw [hvisited]
        rfl

end Palloc
