import Palloc.EncodedFreeList

/-!
# Encoded lists after a batch free

The blocks of a bucket are linked with the keys of their page
(`Holds`).  When the bucket goes to the delayed list of the heap, the owner
follows these links with the keys of the heap.  It visits the blocks of the
bucket, and then those that were on the list before, exactly when each block
but the first one is read back from the word that its predecessor holds.

Freeing the same blocks one by one has no such condition: only the first one
goes to the heap, by itself, and the other ones go to the page.
-/

namespace Palloc

open LinkedChain

/-! ## The chain of a bucket -/

/-- The stored links of the blocks `first :: rest`; the one of the last block
is not looked at. -/
def StoredLinks (page : FreeListOwner) (next : UintPtr → UintPtr) :
    UintPtr → List UintPtr → Prop
  | _, [] => True
  | first, second :: rest =>
      next first = ptrEncode page.self second page.keys ∧
        StoredLinks page next second rest

/-- The blocks of a bucket, in the order of its chain. -/
def Holds (page : FreeListOwner) (next : UintPtr → UintPtr) :
    Option ChainBucket → List UintPtr → Prop
  | none, blocks => blocks = []
  | some bucket, blocks =>
      ∃ rest, blocks = bucket.head :: rest ∧
        (bucket.head :: rest).getLast? = some bucket.tail ∧
        StoredLinks page next bucket.head rest

theorem StoredLinks.congr {page : FreeListOwner} {next next' : UintPtr → UintPtr}
    {first : UintPtr} {rest : List UintPtr} (h : StoredLinks page next first rest)
    (heq : ∀ block ∈ (first :: rest).dropLast, next' block = next block) :
    StoredLinks page next' first rest := by
  induction rest generalizing first with
  | nil => trivial
  | cons second rest ih =>
      constructor
      · rw [heq first (by simp)]
        exact h.1
      · apply ih h.2
        intro block hblock
        apply heq
        rw [List.dropLast_cons_cons]
        exact List.mem_cons_of_mem _ hblock

section Fill

variable {page : FreeListOwner} {lists : EncodedLists}

theorem Holds.bucketAdd {bucket : Option ChainBucket} {blocks : List UintPtr}
    (h : Holds page lists.next bucket blocks) {block : UintPtr}
    (hblock : block ∉ blocks) :
    Holds page (bucketAdd page bucket block lists).2.next
      (bucketAdd page bucket block lists).1 (block :: blocks) := by
  cases bucket with
  | none =>
      have hnil : blocks = [] := h
      subst hnil
      exact ⟨[], rfl, rfl, trivial⟩
  | some bucket =>
      obtain ⟨rest, rfl, hlast, hlinks⟩ := h
      refine ⟨bucket.head :: rest, rfl, ?_, ?_, ?_⟩
      · rw [List.getLast?_cons_cons]
        exact hlast
      · exact Function.update_self _ _ _
      · apply hlinks.congr
        intro other hother
        apply Function.update_of_ne
        rintro rfl
        exact hblock (List.mem_of_mem_dropLast hother)

theorem Holds.bucketFill {frees : List UintPtr} {bucket : Option ChainBucket}
    {blocks : List UintPtr} (h : Holds page lists.next bucket blocks)
    (hnodup : (frees.reverse ++ blocks).Nodup) :
    Holds page (bucketFill page frees bucket lists).2.next
      (bucketFill page frees bucket lists).1 (frees.reverse ++ blocks) := by
  induction frees generalizing bucket blocks lists with
  | nil => exact h
  | cons block frees ih =>
      rw [List.reverse_cons, List.append_assoc] at hnodup ⊢
      apply ih _ hnodup
      apply h.bucketAdd
      have hright := (List.nodup_append.mp hnodup).2.1
      exact (List.nodup_cons.mp hright).1

end Fill

/-! ## The delayed list after a flush -/

section Flush

variable {page heap : FreeListOwner} {next : UintPtr → UintPtr}

/-- The owner's walk over a chain with the links of the page. -/
theorem isChain_storedLinks_iff {first tail : UintPtr} {rest old : List UintPtr}
    (hlinks : StoredLinks page next first rest)
    (hlast : (first :: rest).getLast? = some tail)
    (hnonzero : 0 ∉ rest)
    (hold : IsChain (heap.link next) (heap.link next tail) old) :
    IsChain (heap.link next) (some first) (first :: rest ++ old) ↔
      ∀ block ∈ rest, ptrDecode heap.self
        (ptrEncode page.self block page.keys) heap.keys = block := by
  induction rest generalizing first with
  | nil =>
      have htail : first = tail := by simpa using hlast
      subst htail
      simp [hold]
  | cons second rest ih =>
      have hsecond : second ≠ 0 := by
        rintro rfl
        simp at hnonzero
      have hrest : 0 ∉ rest := by
        intro hmem
        exact hnonzero (List.mem_cons_of_mem _ hmem)
      have htail : (second :: rest).getLast? = some tail := by
        rw [List.getLast?_cons_cons] at hlast
        exact hlast
      have hlink : heap.link next first = nonNull (ptrDecode heap.self
          (ptrEncode page.self second page.keys) heap.keys) := by
        unfold FreeListOwner.link blockNextx
        rw [hlinks.1]
      have ih := ih hlinks.2 htail hrest
      rw [List.forall_mem_cons, ← ih]
      rw [List.cons_append, isChain_cons, List.cons_append, isChain_cons,
        isChain_cons, hlink, nonNull_eq_some]
      constructor
      · rintro ⟨_, ⟨_, hdecode⟩, hchain⟩
        exact ⟨hdecode, rfl, hchain⟩
      · rintro ⟨hdecode, _, hchain⟩
        exact ⟨rfl, ⟨by rw [hdecode]; exact hsecond, hdecode⟩, hchain⟩

/-- After a flush to the delayed list of the heap, the owner visits the blocks
of the bucket and then the older ones, if and only if each block but the first
is read back with the keys of the heap from the link that its page's keys
wrote. -/
theorem flush_visits_iff {lists : EncodedLists} {bucket : ChainBucket}
    {blocks old : List UintPtr} (freed : UintPtr → UintPtr)
    (hdelayed : lists.delayed = .useDelayedFree) (hheap : heap.self ≠ 0)
    (hbucket : Holds page lists.next (some bucket) blocks)
    (hold : IsChain (heap.link lists.next)
      (nonNull lists.threadDelayedFree) old)
    (hnonzero : 0 ∉ blocks) (hself : heap.self ∉ old)
    (hnodup : (blocks ++ old).Nodup) :
    (∃ fuel, delayedFreeVisits heap freed fuel
      (flushPageBucket page heap (some bucket) lists).next
      (flushPageBucket page heap (some bucket) lists).threadDelayedFree =
        some (blocks ++ old)) ↔
      ∀ block ∈ blocks.tail, ptrDecode heap.self
        (ptrEncode page.self block page.keys) heap.keys = block := by
  rw [delayedFreeVisits_iff heap freed hnodup]
  unfold flushPageBucket pushBlocks
  dsimp only
  rw [if_pos hdelayed, if_pos hheap]
  dsimp only
  obtain ⟨rest, rfl, hlast, hlinks⟩ := hbucket
  have hhead : bucket.head ≠ 0 := by
    intro hzero
    simp [hzero] at hnonzero
  have hblocks := (List.nodup_append.mp hnodup).1
  have htail_mem : bucket.tail ∈ bucket.head :: rest :=
    List.mem_of_getLast? hlast
  have htail_old : bucket.tail ∉ old := by
    intro hmem
    exact (List.nodup_append.mp hnodup).2.2 _ htail_mem _ hmem rfl
  have hdfree : lists.threadDelayedFree ≠ heap.self := by
    intro heq
    rw [heq, nonNull_of_ne hheap] at hold
    obtain ⟨rest, rfl, _⟩ := hold.exists_rest
    simp at hself
  rw [nonNull_of_ne hhead]
  apply isChain_storedLinks_iff
  · apply hlinks.congr
    intro block hblock
    apply Function.update_of_ne
    rintro rfl
    have hsplit := List.dropLast_append_getLast? bucket.tail hlast
    rw [← hsplit] at hblocks
    exact (List.nodup_append.mp hblocks).2.2 _ hblock _ (by simp) rfl
  · exact hlast
  · intro hmem
    exact hnonzero (List.mem_cons_of_mem _ hmem)
  · rw [heap.link_setNextx lists.next bucket.tail hdfree]
    apply hold.congr
    intro block hblock
    apply heap.link_update_of_ne
    rintro rfl
    exact htail_old hblock

end Flush

section MixedKeys

/-- A page, a heap with other keys, and two blocks of the page. -/
def keyedPage : FreeListOwner := ⟨0x2000000040, ⟨0x9e3779b9, 0x7f4a7c15⟩⟩

def keyedHeap : FreeListOwner := ⟨0x2000010000, ⟨0xbf58476d, 0x1ce4e5b9⟩⟩

def emptyLists : EncodedLists := ⟨fun _ => 0, 0, .useDelayedFree, 0⟩

/-- The lists after a batch free of the given blocks, all of one page. -/
def batchFreed (page heap : FreeListOwner) (frees : List UintPtr)
    (lists : EncodedLists) : EncodedLists :=
  let filled := bucketFill page frees none lists
  flushPageBucket page heap filled.1 filled.2

theorem ptrDecode_ptrEncode_sameKeys {null null' p : UintPtr}
    (keys : FreeListKeys) (hzero : p ≠ 0) (hne : p ≠ null) :
    ptrDecode null (ptrEncode null' p keys) keys = p := by
  unfold ptrEncode
  dsimp only
  rw [if_neg hzero, ptrDecode_encoded, if_neg hne]

def sameKeysHeap : FreeListOwner := ⟨0x2000010000, keyedPage.keys⟩

/-- The lists when the bucket of a batch of three blocks is full. -/
def threeFilled : EncodedLists :=
  (bucketFill keyedPage [0x2000020000, 0x2000020040, 0x2000020080] none
    emptyLists).2

/-- With the same keys a batch of three blocks is read back. -/
theorem flush_visits_three :
    ∃ fuel, delayedFreeVisits sameKeysHeap (fun _ => 0) fuel
      (flushPageBucket keyedPage sameKeysHeap
        (some ⟨0x2000020080, 0x2000020000⟩) threeFilled).next
      (flushPageBucket keyedPage sameKeysHeap
        (some ⟨0x2000020080, 0x2000020000⟩) threeFilled).threadDelayedFree =
        some ([0x2000020080, 0x2000020040, 0x2000020000] ++ []) := by
  have hnodup : (List.reverse [0x2000020000, 0x2000020040, 0x2000020080] ++
      ([] : List UintPtr)).Nodup := by decide
  have hbucket := @Holds.bucketFill keyedPage emptyLists _ none [] rfl hnodup
  have hread : ∀ block ∈ [0x2000020040, 0x2000020000],
      ptrDecode sameKeysHeap.self
        (ptrEncode keyedPage.self block keyedPage.keys) sameKeysHeap.keys =
          block := by
    intro block hblock
    have hblock : block = 0x2000020040 ∨ block = 0x2000020000 := by
      simpa using hblock
    apply ptrDecode_ptrEncode_sameKeys
    · rcases hblock with rfl | rfl <;> decide
    · rcases hblock with rfl | rfl <;> decide
  have hhead :
      (bucketFill keyedPage [0x2000020000, 0x2000020040, 0x2000020080] none
        emptyLists).1 = some ⟨0x2000020080, 0x2000020000⟩ := rfl
  rw [hhead] at hbucket
  have hold : nonNull threeFilled.threadDelayedFree = none := nonNull_zero
  have hiff := @flush_visits_iff keyedPage sameKeysHeap threeFilled
    ⟨0x2000020080, 0x2000020000⟩
    [0x2000020080, 0x2000020040, 0x2000020000] [] (fun _ => 0) rfl
    (by decide) hbucket hold (by decide) List.not_mem_nil (by decide)
  exact hiff.mpr hread

/-- The owner loses a block of a batch of two. -/
theorem batch_of_two_lost :
    ¬ ∃ fuel, delayedFreeVisits keyedHeap (fun _ => 0) fuel
      (batchFreed keyedPage keyedHeap [0x2000020000, 0x2000020040]
        emptyLists).next
      (batchFreed keyedPage keyedHeap [0x2000020000, 0x2000020040]
        emptyLists).threadDelayedFree = some [0x2000020040, 0x2000020000] := by
  rw [delayedFreeVisits_iff keyedHeap (fun _ => 0) (by decide)]
  rintro ⟨_, hlink, _⟩
  revert hlink
  decide +kernel

end MixedKeys

/-! ## Freeing one block at a time -/

section Single

variable {page heap : FreeListOwner} {lists : EncodedLists}
  {block : UintPtr} {old pageOld : List UintPtr}

/-- The first free, on the delayed list of the heap. -/
theorem freeBlockDelayedMt_delayed
    (hdelayed : lists.delayed = .useDelayedFree) (hheap : heap.self ≠ 0)
    (hold : IsChain (heap.link lists.next)
      (nonNull lists.threadDelayedFree) old)
    (hpage : IsChain (page.link lists.next) (nonNull lists.threadFree) pageOld)
    (hself : heap.self ∉ old) (hzero : block ≠ 0) (hblock : block ∉ old)
    (hother : block ∉ pageOld) :
    let freed := freeBlockDelayedMt page heap block lists
    IsChain (heap.link freed.next) (nonNull freed.threadDelayedFree)
        (block :: old) ∧
      IsChain (page.link freed.next) (nonNull freed.threadFree) pageOld ∧
      freed.delayed = .noDelayedFree := by
  unfold freeBlockDelayedMt pushBlocks
  rw [if_pos hdelayed, if_pos hheap]
  have hdfree : lists.threadDelayedFree ≠ heap.self := by
    intro heq
    rw [heq, nonNull_of_ne hheap] at hold
    obtain ⟨rest, rfl, _⟩ := hold.exists_rest
    simp at hself
  refine ⟨⟨nonNull_of_ne hzero, ?_⟩, ?_, rfl⟩
  · rw [heap.link_setNextx lists.next block hdfree]
    apply hold.congr
    intro other hmem
    apply heap.link_update_of_ne
    rintro rfl
    exact hblock hmem
  · apply hpage.congr
    intro other hmem
    apply page.link_update_of_ne
    rintro rfl
    exact hother hmem

/-- Every later free, on the list of the page. -/
theorem freeBlockDelayedMt_page
    (hdelayed : lists.delayed = .noDelayedFree) (hpage0 : page.self ≠ 0)
    (hold : IsChain (heap.link lists.next)
      (nonNull lists.threadDelayedFree) old)
    (hpage : IsChain (page.link lists.next) (nonNull lists.threadFree) pageOld)
    (hself : page.self ∉ pageOld) (hzero : block ≠ 0) (hblock : block ∉ old)
    (hother : block ∉ pageOld) :
    let freed := freeBlockDelayedMt page heap block lists
    IsChain (heap.link freed.next) (nonNull freed.threadDelayedFree) old ∧
      IsChain (page.link freed.next) (nonNull freed.threadFree)
        (block :: pageOld) ∧
      freed.delayed = .noDelayedFree := by
  unfold freeBlockDelayedMt pushBlocks
  rw [if_neg (by rw [hdelayed]; decide)]
  have hdfree : lists.threadFree ≠ page.self := by
    intro heq
    rw [heq, nonNull_of_ne hpage0] at hpage
    obtain ⟨rest, rfl, _⟩ := hpage.exists_rest
    simp at hself
  refine ⟨?_, ⟨nonNull_of_ne hzero, ?_⟩, hdelayed⟩
  · apply hold.congr
    intro other hmem
    apply heap.link_update_of_ne
    rintro rfl
    exact hblock hmem
  · rw [page.link_setNextx lists.next block hdfree]
    apply hpage.congr
    intro other hmem
    apply page.link_update_of_ne
    rintro rfl
    exact hother hmem

/-- Blocks of a page that are freed one after the other. -/
def freeEach (page heap : FreeListOwner) :
    List UintPtr → EncodedLists → EncodedLists
  | [], lists => lists
  | block :: frees, lists =>
      freeEach page heap frees (freeBlockDelayedMt page heap block lists)

theorem freeEach_page {frees : List UintPtr}
    (hdelayed : lists.delayed = .noDelayedFree) (hpage0 : page.self ≠ 0)
    (hold : IsChain (heap.link lists.next)
      (nonNull lists.threadDelayedFree) old)
    (hpage : IsChain (page.link lists.next) (nonNull lists.threadFree) pageOld)
    (hself : page.self ∉ frees ++ pageOld) (hzero : 0 ∉ frees)
    (hnodup : (frees ++ pageOld).Nodup) (hdisjoint : frees.Disjoint old) :
    let freed := freeEach page heap frees lists
    IsChain (heap.link freed.next) (nonNull freed.threadDelayedFree) old ∧
      IsChain (page.link freed.next) (nonNull freed.threadFree)
        (frees.reverse ++ pageOld) := by
  induction frees generalizing lists pageOld with
  | nil => exact ⟨hold, hpage⟩
  | cons block frees ih =>
      rw [List.cons_append, List.mem_cons, not_or] at hself
      rw [List.mem_cons, not_or] at hzero
      have hmove : (frees ++ block :: pageOld).Perm
          (block :: (frees ++ pageOld)) := List.perm_middle
      have hblock := List.nodup_cons.mp hnodup
      have hstep := @freeBlockDelayedMt_page page heap lists block old
        pageOld hdelayed hpage0 hold hpage (fun h => hself.2 (by simp [h]))
        (Ne.symm hzero.1) (hdisjoint (by simp)) (fun h => hblock.1 (by simp [h]))
      rw [List.reverse_cons, List.append_assoc]
      apply ih hstep.2.2 hstep.1 hstep.2.1 _ hzero.2
      · exact hmove.nodup_iff.mpr hnodup
      · exact fun other hother => hdisjoint (List.mem_cons_of_mem _ hother)
      · intro hmem
        rcases List.mem_cons.mp (hmove.mem_iff.mp hmem) with heq | hmem
        · exact hself.1 heq
        · exact hself.2 hmem

/-- Freed one by one, every block can be reached: the first one from the heap
and the others from their page. -/
theorem freeEach_visits {frees : List UintPtr} (freed : UintPtr → UintPtr)
    (hdelayed : lists.delayed = .useDelayedFree)
    (hheap : heap.self ≠ 0) (hpage0 : page.self ≠ 0)
    (hold : IsChain (heap.link lists.next)
      (nonNull lists.threadDelayedFree) old)
    (hpage : IsChain (page.link lists.next) (nonNull lists.threadFree) pageOld)
    (hheapOld : heap.self ∉ old) (hself : page.self ∉ frees ++ pageOld)
    (hzero : 0 ∉ block :: frees) (hnodup : (block :: frees ++ pageOld).Nodup)
    (hdisjoint : (block :: frees).Disjoint old) :
    let after := freeEach page heap (block :: frees) lists
    (∃ fuel, delayedFreeVisits heap freed fuel after.next
      after.threadDelayedFree = some (block :: old)) ∧
      IsChain (page.link after.next) (nonNull after.threadFree)
        (frees.reverse ++ pageOld) := by
  rw [List.mem_cons, not_or] at hzero
  have hblock := List.nodup_cons.mp hnodup
  have hblockOld : block ∉ old := hdisjoint (by simp)
  have hfirst := @freeBlockDelayedMt_delayed page heap lists block old
    pageOld hdelayed hheap hold hpage hheapOld (Ne.symm hzero.1) hblockOld
    (fun h => hblock.1 (by simp [h]))
  have hrest := @freeEach_page page heap _ _ _ frees hfirst.2.2 hpage0 hfirst.1
    hfirst.2.1 hself hzero.2 hblock.2 (by
      intro other hother hmem
      rcases List.mem_cons.mp hmem with rfl | hmem
      · exact hblock.1 (by simp [hother])
      · exact hdisjoint (List.mem_cons_of_mem _ hother) hmem)
  refine ⟨?_, hrest.2⟩
  have hchainNodup : (block :: old).Nodup :=
    List.nodup_cons.mpr ⟨hblockOld, hold.nodup⟩
  exact (delayedFreeVisits_iff heap freed hchainNodup).mpr hrest.1

end Single

end Palloc
