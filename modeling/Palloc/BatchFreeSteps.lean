import Palloc.BatchFreeInvariant

/-!
# The steps of freeing an array

Each kind of step keeps the invariant, and the lists of the other threads
only gain what it hands over.
-/

namespace Palloc

open LinkedChain

namespace BatchInvariant

variable {pages : BatchPages} {heapsOf : ℕ → Set ℕ}
  {ptrs : List (Option Addr)} {st st' : BatchState}

theorem listsGrow_refl (mem : FreeMemory) : ListsGrow [] mem mem := by
  constructor
  · intro page l hl
    exact hl
  · intro heap l hl
    exact hl

/-- Only where the call is changes. -/
theorem goto (h : BatchInvariant pages heapsOf ptrs st) {pc : BatchPc}
    (hblocks : pc.blocks pages = st.pc.blocks pages)
    (hrest : ∀ p ∈ pc.rest, p ∈ st.pc.rest)
    (hnow : ∀ b pc heldUp, st.pc ≠ .flush b pc heldUp)
    (hflush : ∀ b pc' heldUp, pc = .flush b pc' heldUp →
      pc' = .load ∧ st.buckets b ≠ none)
    (hheldUp : ∀ b pc' held, pc = .flush b pc' (some held) →
      OwnPage pages ptrs held.page held.block)
    (hinsert : ∀ b held, pc = .insert b held →
      OwnPage pages ptrs held.page held.block ∧ b < pageBucketCount ∧
        ∀ bucket, st.buckets b = some bucket → bucket.page = held.page)
    (hdrained : ∀ b, pc = .drain b ∨ (∃ pc', pc = .flush b pc' none) →
      ∀ b' < b, st.buckets b' = none)
    (hdone : pc ≠ .done) : BatchKept pages heapsOf ptrs st (st.goto pc) := by
  have hne : ∀ b bucket, st.buckets b = some bucket → bucket.blocks ≠ [] :=
    fun b bucket hbucket => h.blocks_ne_nil hnow hbucket
  refine ⟨?_, [], (List.append_nil _).symm, listsGrow_refl _⟩
  constructor
  · intro x
    have hcounted := h.counted x
    rw [← hblocks] at hcounted
    exact hcounted
  · exact h.bound
  · exact h.chains
  · exact h.ownPage
  · intro b pc' heldUp hpc
    rcases hflush b pc' heldUp hpc with ⟨rfl, hsome⟩
    rcases Option.ne_none_iff_exists'.mp hsome with ⟨bucket, hbucket⟩
    refine ⟨bucket, hbucket, ?_, trivial⟩
    simp [FreePc.past, hne b bucket hbucket]
  · intro b bucket hbucket hnil
    exact absurd hnil (hne b bucket hbucket)
  · exact hheldUp
  · exact hinsert
  · intro p hp
    exact h.rest p (hrest p hp)
  · exact hdrained
  · intro hpc
    exact absurd hpc hdone
  · exact h.own
  · apply h.fits.congr _ (fun _ _ => rfl) (fun _ => rfl) (fun _ hu => hu) rfl
      rfl rfl hrest
    · intro b heldUp bucket hpc
      have hload := (hflush b _ heldUp hpc).1
      cases hload
    · intro x hx
      unfold BatchState.Held at hx ⊢
      rw [← hblocks]
      exact hx

theorem skip (h : BatchInvariant pages heapsOf ptrs st)
    {rest : List (Option Addr)} (hpc : st.pc = .scan (none :: rest)) :
    BatchKept pages heapsOf ptrs st (st.goto (.scan rest)) := by
  apply h.goto
  · rw [hpc]
    rfl
  · intro p hp
    rw [hpc]
    exact List.mem_cons_of_mem _ hp
  · intro b pc heldUp heq
    rw [hpc] at heq
    cases heq
  · intro b pc heldUp heq
    cases heq
  · intro b pc held heq
    cases heq
  · intro b held heq
    cases heq
  · intro b hdrain
    rcases hdrain with hdrain | ⟨pc, hflush⟩
    · cases hdrain
    · cases hflush
  · intro hdone
    cases hdone

/-- A pointer of another thread's segment: its bucket takes the block, after
a flush when the bucket belongs to another page. -/
theorem place (h : BatchInvariant pages heapsOf ptrs st) {p : Addr}
    {rest : List (Option Addr)} (hpc : st.pc = .scan (some p :: rest))
    {b : ℕ} (hb : b < pageBucketCount) :
    let held : HeldUp := ⟨pages.pageOf p, pages.blockOf p, rest⟩
    BatchKept pages heapsOf ptrs st
      (if (st.buckets b).any (fun bucket => bucket.page ≠ pages.pageOf p) then
        st.goto (.flush b .load (some held))
      else st.goto (.insert b held)) := by
  intro held
  have hown : OwnPage pages ptrs held.page held.block := by
    refine ⟨p, h.rest (some p) ?_, rfl, rfl⟩
    rw [hpc]
    exact List.mem_cons_self
  have hrest : ∀ q ∈ rest, q ∈ st.pc.rest := by
    intro q hq
    rw [hpc]
    exact List.mem_cons_of_mem _ hq
  have hnow : ∀ b' pc heldUp, st.pc ≠ .flush b' pc heldUp := by
    intro b' pc heldUp heq
    rw [hpc] at heq
    cases heq
  split
  · rename_i hany
    apply h.goto (by rw [hpc]; rfl) _ hnow
    · intro b' pc heldUp heq
      cases heq
      refine ⟨rfl, ?_⟩
      intro hnone
      rw [hnone] at hany
      cases hany
    · intro b' pc held' heq
      cases heq
      exact hown
    · intro b' held' heq
      cases heq
    · intro b' hdrain
      rcases hdrain with hdrain | ⟨pc, hflush⟩
      · cases hdrain
      · cases hflush
    · intro hdone
      cases hdone
    · exact hrest
  · rename_i hsame
    apply h.goto (by rw [hpc]; rfl) _ hnow
    · intro b' pc heldUp heq
      cases heq
    · intro b' pc held' heq
      cases heq
    · intro b' held' heq
      cases heq
      refine ⟨hown, hb, ?_⟩
      intro bucket hbucket
      rw [hbucket] at hsame
      simpa using hsame
    · intro b' hdrain
      rcases hdrain with hdrain | ⟨pc, hflush⟩
      · cases hdrain
      · cases hflush
    · intro hdone
      cases hdone
    · exact hrest

/-- A pointer goes to `pa_free`. -/
theorem free (h : BatchInvariant pages heapsOf ptrs st) {p : Addr}
    {rest : List (Option Addr)} (hpc : st.pc = .scan (some p :: rest)) :
    BatchKept pages heapsOf ptrs st
      ((st.hand [.freed p]).goto (.scan rest)) := by
  have hblocks : st.pc.blocks pages =
      pages.blockOf p :: pages.arrayBlocks rest := by
    rw [hpc]
    rfl
  have hrest : ∀ q ∈ ((st.hand [.freed p]).goto (.scan rest)).pc.rest,
      q ∈ st.pc.rest := by
    intro q hq
    rw [hpc]
    exact List.mem_cons_of_mem _ hq
  have hne : ∀ b bucket, st.buckets b = some bucket → bucket.blocks ≠ [] := by
    intro b bucket hbucket
    apply h.blocks_ne_nil _ hbucket
    intro b' pc heldUp heq
    rw [hpc] at heq
    cases heq
  refine ⟨?_, [.freed p], rfl, ?_⟩
  · constructor
    · intro x
      have hcounted := h.counted x
      rw [hblocks] at hcounted
      have hhanded : ((st.hand [.freed p]).goto
          (.scan rest)).handedBlocks pages =
            st.handedBlocks pages ++ [pages.blockOf p] := by
        simp [BatchState.handedBlocks, BatchState.hand, BatchState.goto,
          Handed.blocks]
      rw [hhanded, List.count_append]
      rw [← List.singleton_append, List.count_append] at hcounted
      change _ + st.bucketCount x + (pages.arrayBlocks rest).count x = _
      omega
    · exact h.bound
    · exact h.chains
    · exact h.ownPage
    · intro b pc heldUp hflush
      cases hflush
    · intro b bucket hbucket hnil
      exact absurd hnil (hne b bucket hbucket)
    · intro b pc held hflush
      cases hflush
    · intro b held hinsert
      cases hinsert
    · intro q hq
      exact h.rest q (hrest q hq)
    · intro b hdrain
      rcases hdrain with hdrain | ⟨pc, hflush⟩
      · cases hdrain
      · cases hflush
    · intro hdone
      cases hdone
    · intro entry hentry
      rcases List.mem_append.mp hentry with hold | hnew
      · exact h.own entry hold
      · rw [List.mem_singleton.mp hnew]
        apply h.rest
        rw [hpc]
        exact List.mem_cons_self
    · apply h.fits.congr _ (fun _ _ => rfl) (fun _ => rfl) (fun _ hu => hu)
        rfl rfl rfl hrest
      · intro b heldUp bucket hflush
        cases hflush
      · intro x hx
        rcases hx with hx | hx
        · refine Or.inl ?_
          rw [hblocks]
          exact List.mem_cons_of_mem _ hx
        · exact Or.inr hx
  · exact h.fits.listsGrow (fun _ _ => rfl) (fun _ => rfl) rfl
      (fun _ => rfl) (fun _ => rfl)

/-- The bucket after a block was put in front of its chain. -/
theorem insertBlock_eq (st : BatchState) {b page : ℕ} {block : Addr}
    (hpage : ∀ bucket, st.buckets b = some bucket → bucket.page = page) :
    ∃ bucket' target,
      st.insertBlock b page block =
        (st.setMem (st.mem.setNext block target)).setBucket b
          (some bucket') ∧
      bucket'.page = page ∧
      bucket'.blocks = block :: bucketBlocks (st.buckets b) ∧
      ((∀ bucket, st.buckets b = some bucket →
        ChainOk st.mem.next bucket ∧ block ∉ bucket.blocks) →
          ChainOk (st.mem.setNext block target).next bucket') := by
  unfold BatchState.insertBlock
  cases hbucket : st.buckets b with
  | none =>
      refine ⟨⟨page, block, block, [block]⟩, none, rfl, rfl, rfl, ?_⟩
      intro _
      exact ChainOk.single _ page block
  | some bucket =>
      refine ⟨{ bucket with head := block, blocks := block :: bucket.blocks },
        some bucket.head, rfl, hpage bucket hbucket, rfl, ?_⟩
      intro hchain
      rcases hchain bucket rfl with ⟨hok, hnew⟩
      exact hok.push hnew

theorem insert (h : BatchInvariant pages heapsOf ptrs st)
    (hnodup : (pages.arrayBlocks ptrs).Nodup) {b : ℕ} {held : HeldUp}
    (hpc : st.pc = .insert b held) :
    BatchKept pages heapsOf ptrs st
      ((st.insertBlock b held.page held.block).goto (.scan held.rest)) := by
  rcases h.inserting b held hpc with ⟨hown, hb, hpage⟩
  have hblocks : st.pc.blocks pages =
      held.block :: pages.arrayBlocks held.rest := by
    rw [hpc]
    rfl
  have hfront : held.block ∈ st.pc.blocks pages := by
    rw [hblocks]
    exact List.mem_cons_self
  have hne : ∀ b' bucket, st.buckets b' = some bucket →
      bucket.blocks ≠ [] := by
    intro b' bucket hbucket
    apply h.blocks_ne_nil _ hbucket
    intro b'' pc heldUp heq
    rw [hpc] at heq
    cases heq
  rcases insertBlock_eq st hpage with
    ⟨bucket', target, heq, hpage', hblocks', hchain⟩
  have hchain' := hchain fun bucket hbucket =>
    ⟨h.chains b bucket hbucket (hne b bucket hbucket),
      h.notMem_bucket hnodup hfront hbucket⟩
  rw [heq]
  set st' := ((st.setMem (st.mem.setNext held.block target)).setBucket b
    (some bucket')).goto (.scan held.rest) with hst'
  have hnext : ∀ x, x ≠ held.block → st'.mem.next x = st.mem.next x := by
    intro x hx
    exact Function.update_of_ne hx _ _
  have hself : st'.buckets b = some bucket' := Function.update_self _ _ _
  have hother : ∀ b', b' ≠ b → st'.buckets b' = st.buckets b' := by
    intro b' hb'
    exact Function.update_of_ne hb' _ _
  have hheld : ∀ x, ¬ st.Held pages x →
      st'.mem.next x = st.mem.next x := by
    intro x hx
    apply hnext
    intro heq
    rw [heq] at hx
    exact hx (Or.inl hfront)
  refine ⟨?_, [], (List.append_nil _).symm, ?_⟩
  · constructor
    · intro x
      have hcounted := h.counted x
      have hset := (st.setMem (st.mem.setNext held.block
        target)).bucketCount_setBucket hb (some bucket') x
      change _ + (bucketBlocks (st.buckets b)).count x = st.bucketCount x +
        bucket'.blocks.count x at hset
      rw [hblocks'] at hset
      rw [hblocks] at hcounted
      rw [List.count_cons] at hset hcounted
      change (st.handedBlocks pages).count x + _ +
        (pages.arrayBlocks held.rest).count x = _
      change st'.bucketCount x + _ = _ at hset
      omega
    · intro b' bucket hbucket
      by_cases hcase : b' = b
      · rw [hcase]
        exact hb
      · rw [hother b' hcase] at hbucket
        exact h.bound b' bucket hbucket
    · intro b' bucket hbucket hnil
      by_cases hcase : b' = b
      · rw [hcase, hself, Option.some.injEq] at hbucket
        rw [← hbucket]
        exact hchain'
      · rw [hother b' hcase] at hbucket
        apply (h.chains b' bucket hbucket hnil).congr
        intro x hx _
        apply hnext
        intro heq
        rw [heq] at hx
        exact h.notMem_bucket hnodup hfront hbucket hx
    · intro b' bucket hbucket x hx
      by_cases hcase : b' = b
      · rw [hcase, hself, Option.some.injEq] at hbucket
        rw [← hbucket, hblocks'] at hx
        rw [← hbucket, hpage']
        rcases List.mem_cons.mp hx with rfl | hx
        · exact hown
        · cases hold : st.buckets b with
          | none =>
              rw [hold] at hx
              cases hx
          | some bucket =>
              rw [hold] at hx
              rw [← hpage bucket hold]
              exact h.ownPage b bucket hold x hx
      · rw [hother b' hcase] at hbucket
        exact h.ownPage b' bucket hbucket x hx
    · intro b' pc heldUp hflush
      cases hflush
    · intro b' bucket hbucket hnil
      by_cases hcase : b' = b
      · rw [hcase, hself, Option.some.injEq] at hbucket
        rw [← hbucket, hblocks'] at hnil
        cases hnil
      · rw [hother b' hcase] at hbucket
        exact absurd hnil (hne b' bucket hbucket)
    · intro b' pc held' hflush
      cases hflush
    · intro b' held' hinsert
      cases hinsert
    · intro p hp
      apply h.rest
      rw [hpc]
      exact hp
    · intro b' hdrain
      rcases hdrain with hdrain | ⟨pc, hflush⟩
      · cases hdrain
      · cases hflush
    · intro hdone
      cases hdone
    · exact h.own
    · apply h.fits.congr _ hheld (fun _ => rfl) (fun _ hu => hu) rfl rfl rfl
      · intro p hp
        rw [hpc]
        exact hp
      · intro b' heldUp bucket hflush
        cases hflush
      · intro x hx
        rcases hx with hx | ⟨b', hx⟩
        · refine Or.inl ?_
          rw [hblocks]
          exact List.mem_cons_of_mem _ hx
        · by_cases hcase : b' = b
          · rw [hcase, hself] at hx
            change x ∈ bucket'.blocks at hx
            rw [hblocks'] at hx
            rcases List.mem_cons.mp hx with rfl | hx
            · exact Or.inl hfront
            · exact Or.inr ⟨b, hx⟩
          · rw [hother b' hcase] at hx
            exact Or.inr ⟨b', hx⟩
  · exact h.fits.listsGrow hheld (fun _ => rfl) rfl (fun _ => rfl)
      (fun _ => rfl)

end BatchInvariant

/-! ## Flushing -/

theorem flushStep_past (page : ℕ) (head tail : Addr) (fail : Bool)
    (mem : FreeMemory) {pc : FreePc} (hpast : pc.past = true) :
    (flushStep page head tail fail mem pc).2.next = mem.next := by
  cases pc with
  | load => cases hpast
  | exchange tfree => cases hpast
  | loadHeap => cases hpast
  | loadDelayed heap => cases hpast
  | pushDelayed heap dfree => cases hpast
  | loadReset => rfl
  | reset tfree =>
      unfold flushStep
      dsimp only
      split
      · rfl
      · rfl
  | done => rfl

section Effect

variable {bucket : Bucket} {mem mem' : FreeMemory} {handed : List Handed}

theorem FlushEffect.next_ne (h : FlushEffect bucket mem mem' handed)
    {x : Addr} (hx : x ≠ bucket.tail) : mem'.next x = mem.next x := by
  cases h with
  | quiet hnext => exact hnext x hx
  | page delayed hflag => exact Function.update_of_ne hx _ _
  | heap heap => exact Function.update_of_ne hx _ _

theorem FlushEffect.xheap_eq (h : FlushEffect bucket mem mem' handed) :
    mem'.xheap = mem.xheap := by
  cases h with
  | quiet _ _ _ _ hxheap => exact hxheap
  | page delayed hflag => rfl
  | heap heap => rfl

theorem FlushEffect.useFlag (h : FlushEffect bucket mem mem' handed)
    {page : ℕ} (huse : (mem'.xthreadFree page).delayed = .useDelayedFree) :
    (mem.xthreadFree page).delayed = .useDelayedFree := by
  cases h with
  | quiet _ _ hflags => exact hflags page huse
  | page delayed hflag =>
      by_cases hpage : page = bucket.page
      · subst hpage
        simp only [FreeMemory.setThreadFree, Function.update_self] at huse
        rw [← hflag]
        exact huse
      · simp only [FreeMemory.setThreadFree,
          Function.update_of_ne hpage] at huse
        exact huse
  | heap heap => exact huse

theorem FlushEffect.blocks_eq (h : FlushEffect bucket mem mem' handed)
    (pages : BatchPages) :
    handed.flatMap (Handed.blocks pages) =
      if handed = [] then [] else bucket.blocks := by
  cases h with
  | quiet => rfl
  | page delayed hflag => simp [Handed.blocks]
  | heap heap => simp [Handed.blocks]

/-- The lists gain the chain. -/
theorem FlushEffect.listsGrow {pages : BatchPages} {heapsOf : ℕ → Set ℕ}
    {st : BatchState} {old : BatchMemory}
    (h : FlushEffect bucket old.toFreeMemory mem' handed)
    (hfits : Fits pages heapsOf st old)
    (hnext : ∀ x, ¬ st.Held pages x → mem'.next x = old.next x)
    (hchain : handed ≠ [] →
      ChainOk old.next bucket ∧ st.Held pages bucket.tail) :
    ListsGrow handed old.toFreeMemory mem' := by
  have hout : ∀ {head : Option Addr} {l : List Addr},
      Listed old.next head (st.Held pages) → IsChain old.next head l →
        st.Held pages bucket.tail → bucket.tail ∉ l := by
    intro head l hlisted hl htail hmem
    rcases hlisted with ⟨l', hl', hall⟩
    rw [hl.unique hl'] at hmem
    exact hall _ hmem htail
  cases h with
  | quiet _ hpages _ hheaps =>
      exact hfits.listsGrow hnext hpages hheaps (fun _ => rfl) (fun _ => rfl)
  | page delayed hflag =>
      rcases hchain (by simp) with ⟨hok, htail⟩
      constructor
      · intro page l hl
        by_cases hpage : page = bucket.page
        · subst hpage
          have hnew := hok.splice hl
            (hout (hfits.pageLists bucket.page) hl htail)
          simpa [FreeMemory.setThreadFree, FreeMemory.setNext,
            Handed.onPage] using hnew
        · have hkept := (hfits.pageLists page).chain_congr hnext hl
          simpa [FreeMemory.setThreadFree, FreeMemory.setNext,
            Handed.onPage, hpage, Ne.symm hpage] using hkept
      · intro heap l hl
        have hkept := (hfits.heapLists heap).chain_congr hnext hl
        simpa [FreeMemory.setThreadFree, FreeMemory.setNext,
          Handed.onHeap] using hkept
  | heap heap =>
      rcases hchain (by simp) with ⟨hok, htail⟩
      constructor
      · intro page l hl
        have hkept := (hfits.pageLists page).chain_congr hnext hl
        simpa [FreeMemory.setDelayedFree, FreeMemory.setNext,
          Handed.onPage] using hkept
      · intro heap' l hl
        by_cases hheap : heap' = heap
        · subst hheap
          have hnew := hok.splice hl
            (hout (hfits.heapLists heap') hl htail)
          simpa [FreeMemory.setDelayedFree, FreeMemory.setNext,
            Handed.onHeap] using hnew
        · have hkept := (hfits.heapLists heap').chain_congr hnext hl
          simpa [FreeMemory.setDelayedFree, FreeMemory.setNext,
            Handed.onHeap, hheap, Ne.symm hheap] using hkept

end Effect

/-- The lists that have gained something still hold no held block. -/
theorem ListsGrow.fits {pages : BatchPages} {heapsOf : ℕ → Set ℕ}
    {st st' : BatchState} {mem mem' : BatchMemory} {handed : List Handed}
    (h : ListsGrow handed mem.toFreeMemory mem'.toFreeMemory)
    (hfits : Fits pages heapsOf st mem)
    (hheld : ∀ x, st'.Held pages x → st.Held pages x)
    (hgone : ∀ x ∈ handed.flatMap (Handed.blocks pages),
      ¬ st'.Held pages x)
    (hflags : ∀ page, (mem'.xthreadFree page).delayed = .useDelayedFree →
      (mem.xthreadFree page).delayed = .useDelayedFree)
    (hxheap : mem'.xheap = mem.xheap)
    (haligned : mem'.hasAligned = mem.hasAligned)
    (hrest : ∀ p ∈ st'.pc.rest, p ∈ st.pc.rest)
    (hbusy : ∀ b heldUp bucket, st'.pc = .flush b .loadHeap heldUp →
      st'.buckets b = some bucket →
        (mem.xthreadFree bucket.page).delayed = .useDelayedFree) :
    Fits pages heapsOf st' mem' := by
  constructor
  · intro page
    rcases hfits.pageLists page with ⟨l, hl, hout⟩
    refine ⟨_, h.pages page l hl, ?_⟩
    intro x hx
    rcases List.mem_append.mp hx with hx | hx
    · rcases List.mem_flatMap.mp hx with ⟨entry, hentry, hmem⟩
      apply hgone x
      refine List.mem_flatMap.mpr ⟨entry, hentry, ?_⟩
      cases entry with
      | threadFree page' blocks =>
          unfold Handed.onPage at hmem
          dsimp only at hmem
          split at hmem
          · exact hmem
          · cases hmem
      | freed p => cases hmem
      | delayedFree page' heap blocks => cases hmem
      | array ptrs => cases hmem
    · exact fun hx' => hout x hx (hheld x hx')
  · intro heap
    rcases hfits.heapLists heap with ⟨l, hl, hout⟩
    refine ⟨_, h.heaps heap l hl, ?_⟩
    intro x hx
    rcases List.mem_append.mp hx with hx | hx
    · rcases List.mem_flatMap.mp hx with ⟨entry, hentry, hmem⟩
      apply hgone x
      refine List.mem_flatMap.mpr ⟨entry, hentry, ?_⟩
      cases entry with
      | delayedFree page' heap' blocks =>
          unfold Handed.onHeap at hmem
          dsimp only at hmem
          split at hmem
          · exact hmem
          · cases hmem
      | freed p => cases hmem
      | threadFree page' blocks => cases hmem
      | array ptrs => cases hmem
    · exact fun hx' => hout x hx (hheld x hx')
  · intro page huse
    rw [hxheap]
    exact hfits.useHeap page (hflags page huse)
  · intro b heldUp bucket hpc hbucket
    rw [hxheap]
    exact hfits.useHeap bucket.page (hbusy b heldUp bucket hpc hbucket)
  · rw [hxheap]
    exact hfits.heaps
  · intro p hp hne
    rw [haligned]
    exact hfits.aligned p (hrest (some p) hp) hne

namespace BatchInvariant

variable {pages : BatchPages} {heapsOf : ℕ → Set ℕ}
  {ptrs : List (Option Addr)} {st : BatchState}

/-- A step of the flush of a bucket. -/
theorem flush (h : BatchInvariant pages heapsOf ptrs st)
    (hnodup : (pages.arrayBlocks ptrs).Nodup) {b : ℕ} {pc : FreePc}
    {heldUp : Option HeldUp} (hpc : st.pc = .flush b pc heldUp)
    {bucket : Bucket} (hbucket : st.buckets b = some bucket)
    {pc' : FreePc} {mem' : FreeMemory} {handed : List Handed}
    {bucket' : Bucket}
    (heffect : FlushEffect bucket st.mem.toFreeMemory mem' handed)
    (hnext : FlushNext bucket st.mem.toFreeMemory (heapsOf bucket.page) pc
      pc' handed)
    (hlinks : pc.past = true → mem'.next = st.mem.next)
    (hbucket' : bucket' =
      if handed = [] then bucket else { bucket with blocks := [] })
    (hown : ∀ entry ∈ handed, entry.Own pages heapsOf ptrs) :
    BatchKept pages heapsOf ptrs st
      ((((st.setMem mem').setBucket b (some bucket')).hand handed).goto
        (.flush b pc' heldUp)) := by
  set st' := (((st.setMem mem').setBucket b (some bucket')).hand
    handed).goto (.flush b pc' heldUp) with hst'
  have hb := h.bound b bucket hbucket
  rcases h.flushing b pc heldUp hpc with ⟨found, hfound, hempty, -⟩
  rw [hbucket, Option.some.injEq] at hfound
  subst hfound
  have hself : st'.buckets b = some bucket' := Function.update_self _ _ _
  have hother : ∀ b', b' ≠ b → st'.buckets b' = st.buckets b' := by
    intro b' hb'
    exact Function.update_of_ne hb' _ _
  have hblocks : st'.pc.blocks pages = st.pc.blocks pages := by
    rw [hpc]
    cases heldUp with
    | none => rfl
    | some held => rfl
  have hrest : st'.pc.rest = st.pc.rest := by
    rw [hpc]
    cases heldUp with
    | none => rfl
    | some held => rfl
  have hpage : bucket'.page = bucket.page := by
    rw [hbucket']
    split
    · rfl
    · rfl
  have hcut : bucket'.blocks = if handed = [] then bucket.blocks else [] := by
    rw [hbucket']
    split
    · rfl
    · rfl
  have hsub : ∀ x, x ∈ bucket'.blocks → x ∈ bucket.blocks := by
    intro x hx
    rw [hcut] at hx
    split at hx
    · exact hx
    · cases hx
  -- the tail is held as long as its link is written
  have hok : pc.past = false → ChainOk st.mem.next bucket := by
    intro hpast
    apply h.chains b bucket hbucket
    intro hnil
    rw [hempty.mp hnil] at hpast
    cases hpast
  have htail : pc.past = false → st.Held pages bucket.tail := by
    intro hpast
    exact held_of_bucket hbucket (hok hpast).tail_mem
  have hfree : ∀ x, ¬ st.Held pages x → mem'.next x = st.mem.next x := by
    intro x hx
    cases hpast : pc.past with
    | true => rw [hlinks hpast]
    | false =>
        apply heffect.next_ne
        intro heq
        rw [heq] at hx
        exact hx (htail hpast)
  have hfirst : handed ≠ [] → pc.past = false := by
    intro hsome
    rw [← Bool.not_eq_true]
    exact fun hpast => hsome (hnext.once hpast)
  have hgrow : ListsGrow handed st.mem.toFreeMemory
      st'.mem.toFreeMemory :=
    heffect.listsGrow h.fits hfree fun hsome =>
      ⟨hok (hfirst hsome), htail (hfirst hsome)⟩
  have hheld : ∀ x, st'.Held pages x → st.Held pages x := by
    intro x hx
    rcases hx with hx | ⟨b', hx⟩
    · rw [hblocks] at hx
      exact Or.inl hx
    · by_cases hcase : b' = b
      · rw [hcase, hself] at hx
        exact held_of_bucket hbucket (hsub x hx)
      · rw [hother b' hcase] at hx
        exact Or.inr ⟨b', hx⟩
  have hgone : ∀ x ∈ handed.flatMap (Handed.blocks pages),
      ¬ st'.Held pages x := by
    intro x hx hheld'
    rw [heffect.blocks_eq] at hx
    split at hx
    · cases hx
    · rename_i hsome
      rcases hheld' with hx' | ⟨b', hx'⟩
      · rw [hblocks] at hx'
        exact h.notMem_bucket hnodup hx' hbucket hx
      · by_cases hcase : b' = b
        · rw [hcase, hself] at hx'
          change x ∈ bucket'.blocks at hx'
          rw [hcut, if_neg hsome] at hx'
          cases hx'
        · rw [hother b' hcase] at hx'
          cases hold : st.buckets b' with
          | none =>
              rw [hold] at hx'
              cases hx'
          | some other =>
              rw [hold] at hx'
              exact h.notMem_other hnodup hbucket hold (Ne.symm hcase) hx hx'
  refine ⟨?_, handed, rfl, hgrow⟩
  constructor
  · intro x
    have hcounted := h.counted x
    have hset := (st.setMem mem').bucketCount_setBucket hb (some bucket') x
    change st'.bucketCount x + (bucketBlocks (st.buckets b)).count x =
      st.bucketCount x + bucket'.blocks.count x at hset
    rw [hbucket] at hset
    have hhanded : st'.handedBlocks pages =
        st.handedBlocks pages ++ handed.flatMap (Handed.blocks pages) := by
      unfold BatchState.handedBlocks
      exact List.flatMap_append
    rw [hhanded, hblocks, List.count_append, heffect.blocks_eq]
    rw [hcut] at hset
    change st'.bucketCount x + bucket.blocks.count x = _ at hset
    split
    · rename_i hnil
      rw [if_pos hnil] at hset
      rw [List.count_nil]
      omega
    · rename_i hsome
      rw [if_neg hsome, List.count_nil] at hset
      omega
  · intro b' found hfound
    by_cases hcase : b' = b
    · rw [hcase]
      exact hb
    · rw [hother b' hcase] at hfound
      exact h.bound b' found hfound
  · intro b' found hfound hnil
    by_cases hcase : b' = b
    · rw [hcase, hself, Option.some.injEq] at hfound
      subst hfound
      have hnone : handed = [] := by
        by_contra hsome
        rw [hcut, if_neg hsome] at hnil
        exact hnil rfl
      rw [hbucket', if_pos hnone] at hnil ⊢
      apply (h.chains b bucket hbucket hnil).congr
      intro x _ hx
      exact heffect.next_ne hx
    · rw [hother b' hcase] at hfound
      apply (h.chains b' found hfound hnil).congr
      intro x hx _
      cases hpast : pc.past with
      | true => exact congrFun (hlinks hpast) x
      | false =>
          apply heffect.next_ne
          intro heq
          rw [heq] at hx
          exact h.notMem_other hnodup hbucket hfound (Ne.symm hcase)
            (hok hpast).tail_mem hx
  · intro b' found hfound x hx
    by_cases hcase : b' = b
    · rw [hcase, hself, Option.some.injEq] at hfound
      subst hfound
      rw [hpage]
      exact h.ownPage b bucket hbucket x (hsub x hx)
    · rw [hother b' hcase] at hfound
      exact h.ownPage b' found hfound x hx
  · intro b' pc'' heldUp' hflush
    cases hflush
    refine ⟨bucket', hself, ?_, ?_⟩
    · rw [hcut, hnext.past]
      split
      · rename_i hnone
        rw [hempty]
        simp [hnone]
      · rename_i hsome
        simp [hsome]
    · rw [hpage]
      exact hnext.heapIn
  · intro b' found hfound hnil
    by_cases hcase : b' = b
    · rw [hcase]
      exact ⟨pc', heldUp, rfl⟩
    · rw [hother b' hcase] at hfound
      rcases h.flushed b' found hfound hnil with ⟨pc'', heldUp', heq⟩
      rw [hpc] at heq
      cases heq
      exact absurd rfl hcase
  · intro b' pc'' held hflush
    cases hflush
    exact h.heldUp b pc held hpc
  · intro b' held hinsert
    cases hinsert
  · intro p hp
    rw [hrest] at hp
    exact h.rest p hp
  · intro b' hdrain b'' hlt
    rcases hdrain with hdrain | ⟨pc'', hflush⟩
    · cases hdrain
    · cases hflush
      have hne : b'' ≠ b := by omega
      rw [hother b'' hne]
      exact h.drained b (Or.inr ⟨pc, hpc⟩) b'' hlt
  · intro hdone
    cases hdone
  · intro entry hentry
    rcases List.mem_append.mp hentry with hold | hnew
    · exact h.own entry hold
    · exact hown entry hnew
  · apply hgrow.fits h.fits hheld hgone (fun _ => heffect.useFlag)
      heffect.xheap_eq rfl
    · intro p hp
      rw [hrest] at hp
      exact hp
    · intro b' heldUp' found hflush hfound
      cases hflush
      rw [hself, Option.some.injEq] at hfound
      rw [← hfound, hpage]
      exact hnext.loadHeap rfl

/-- The bucket is emptied after its flush. -/
theorem clear (h : BatchInvariant pages heapsOf ptrs st) {b : ℕ}
    {heldUp : Option HeldUp} (hpc : st.pc = .flush b .done heldUp)
    {pc : BatchPc} (hblocks : pc.blocks pages = st.pc.blocks pages)
    (hrest : pc.rest = st.pc.rest)
    (hnext : pc = .drain (b + 1) ∧ heldUp = none ∨
      ∃ held, pc = .insert b held ∧ heldUp = some held) :
    BatchKept pages heapsOf ptrs st ((st.setBucket b none).goto pc) := by
  rcases h.flushing b .done heldUp hpc with ⟨bucket, hbucket, hempty, -⟩
  have hnil : bucket.blocks = [] := hempty.mpr rfl
  have hb := h.bound b bucket hbucket
  set st' := (st.setBucket b none).goto pc with hst'
  have hself : st'.buckets b = none := Function.update_self _ _ _
  have hother : ∀ b', b' ≠ b → st'.buckets b' = st.buckets b' := by
    intro b' hb'
    exact Function.update_of_ne hb' _ _
  have hold : ∀ b' found, st'.buckets b' = some found →
      b' ≠ b ∧ st.buckets b' = some found := by
    intro b' found hfound
    have hne : b' ≠ b := by
      intro heq
      rw [heq, hself] at hfound
      cases hfound
    rw [hother b' hne] at hfound
    exact ⟨hne, hfound⟩
  have hflush : ∀ b' pc' heldUp', pc ≠ .flush b' pc' heldUp' := by
    intro b' pc' heldUp' heq
    rcases hnext with ⟨hdrain, -⟩ | ⟨held, hinsert, -⟩
    · rw [hdrain] at heq
      cases heq
    · rw [hinsert] at heq
      cases heq
  refine ⟨?_, [], (List.append_nil _).symm, listsGrow_refl _⟩
  constructor
  · intro x
    have hcounted := h.counted x
    have hset := st.bucketCount_setBucket hb none x
    change st'.bucketCount x + (bucketBlocks (st.buckets b)).count x =
      st.bucketCount x + 0 at hset
    rw [hbucket] at hset
    change st'.bucketCount x + bucket.blocks.count x = _ at hset
    rw [hnil, List.count_nil] at hset
    change (st.handedBlocks pages).count x + st'.bucketCount x +
      (pc.blocks pages).count x = _
    rw [hblocks]
    omega
  · intro b' found hfound
    exact h.bound b' found (hold b' found hfound).2
  · intro b' found hfound
    exact h.chains b' found (hold b' found hfound).2
  · intro b' found hfound
    exact h.ownPage b' found (hold b' found hfound).2
  · intro b' pc' heldUp' heq
    exact absurd heq (hflush b' pc' heldUp')
  · intro b' found hfound hfoundNil
    rcases hold b' found hfound with ⟨hne, hfound'⟩
    rcases h.flushed b' found hfound' hfoundNil with ⟨pc', heldUp', heq⟩
    rw [hpc] at heq
    cases heq
    exact absurd rfl hne
  · intro b' pc' held heq
    exact absurd heq (hflush b' pc' (some held))
  · intro b' held heq
    rcases hnext with ⟨hdrain, -⟩ | ⟨held', hinsert, hsome⟩
    · have hpc' : pc = .insert b' held := heq
      rw [hdrain] at hpc'
      cases hpc'
    · have hpc' : pc = .insert b' held := heq
      rw [hinsert] at hpc'
      cases hpc'
      rw [hsome] at hpc
      refine ⟨h.heldUp b .done _ hpc, hb, ?_⟩
      intro found hfound
      rw [hself] at hfound
      cases hfound
  · intro p hp
    have hp' : p ∈ pc.rest := hp
    rw [hrest] at hp'
    exact h.rest p hp'
  · intro b' hdrain b'' hlt
    rcases hdrain with hdrain | ⟨pc', heq⟩
    · have hpc' : pc = .drain b' := hdrain
      rcases hnext with ⟨hdrain', hnone⟩ | ⟨held', hinsert, -⟩
      · rw [hdrain'] at hpc'
        cases hpc'
        by_cases hcase : b'' = b
        · rw [hcase]
          exact hself
        · rw [hother b'' hcase]
          rw [hnone] at hpc
          exact h.drained b (Or.inr ⟨.done, hpc⟩) b'' (by omega)
      · rw [hinsert] at hpc'
        cases hpc'
    · exact absurd heq (hflush b' pc' none)
  · intro hdone
    have hpc' : pc = .done := hdone
    rcases hnext with ⟨hdrain, -⟩ | ⟨held', hinsert, -⟩
    · rw [hdrain] at hpc'
      cases hpc'
    · rw [hinsert] at hpc'
      cases hpc'
  · exact h.own
  · apply h.fits.congr _ (fun _ _ => rfl) (fun _ => rfl) (fun _ hu => hu) rfl
      rfl rfl
    · intro p hp
      have hp' : p ∈ pc.rest := hp
      rw [hrest] at hp'
      exact hp'
    · intro b' heldUp' found heq
      exact absurd heq (hflush b' _ heldUp')
    · intro x hx
      rcases hx with hx | ⟨b', hx⟩
      · have hx' : x ∈ pc.blocks pages := hx
        rw [hblocks] at hx'
        exact Or.inl hx'
      · cases hcase : st'.buckets b' with
        | none =>
            rw [hcase] at hx
            cases hx
        | some found =>
            rw [hcase] at hx
            exact held_of_bucket (hold b' found hcase).2 hx

theorem finish (h : BatchInvariant pages heapsOf ptrs st) {b : ℕ}
    (hpc : st.pc = .drain b) (hb : ¬ b < pageBucketCount) (array : Addr) :
    BatchKept pages heapsOf ptrs st
      ((st.hand [.array array]).goto .done) := by
  have hnone : ∀ b', st.buckets b' = none := by
    intro b'
    cases hcase : st.buckets b' with
    | none => rfl
    | some bucket =>
        have hlt := h.bound b' bucket hcase
        have hempty := h.drained b (Or.inl hpc) b' (by omega)
        rw [hcase] at hempty
        cases hempty
  refine ⟨?_, [.array array], rfl, ?_⟩
  · constructor
    · intro x
      have hcounted := h.counted x
      rw [hpc] at hcounted
      have hhanded : ((st.hand [.array array]).goto .done).handedBlocks
          pages = st.handedBlocks pages := by
        simp [BatchState.handedBlocks, BatchState.hand, BatchState.goto,
          Handed.blocks]
      rw [hhanded]
      exact hcounted
    · exact h.bound
    · exact h.chains
    · exact h.ownPage
    · intro b' pc heldUp hflush
      cases hflush
    · intro b' bucket hbucket
      exact absurd (hbucket.symm.trans (hnone b')) (by simp)
    · intro b' pc held hflush
      cases hflush
    · intro b' held hinsert
      cases hinsert
    · intro p hp
      cases hp
    · intro b' hdrain
      rcases hdrain with hdrain | ⟨pc, hflush⟩
      · cases hdrain
      · cases hflush
    · intro _
      exact hnone
    · intro entry hentry
      rcases List.mem_append.mp hentry with hold | hnew
      · exact h.own entry hold
      · rw [List.mem_singleton.mp hnew]
        trivial
    · apply h.fits.congr _ (fun _ _ => rfl) (fun _ => rfl) (fun _ hu => hu)
        rfl rfl rfl
      · intro p hp
        cases hp
      · intro b' heldUp bucket hflush
        cases hflush
      · intro x hx
        rcases hx with hx | hx
        · cases hx
        · exact Or.inr hx
  · exact h.fits.listsGrow (fun _ _ => rfl) (fun _ => rfl) rfl
      (fun _ => rfl) (fun _ => rfl)

theorem other (h : BatchInvariant pages heapsOf ptrs st) {mem : BatchMemory}
    (hother : Interferes pages heapsOf st mem) :
    BatchInvariant pages heapsOf ptrs { st with mem := mem } := by
  constructor
  · exact h.counted
  · exact h.bound
  · intro b bucket hbucket hnil
    apply (h.chains b bucket hbucket hnil).congr
    intro x hx _
    exact hother.links b bucket hbucket x hx
  · exact h.ownPage
  · exact h.flushing
  · exact h.flushed
  · exact h.heldUp
  · exact h.inserting
  · exact h.rest
  · exact h.drained
  · exact h.done
  · exact h.own
  · exact ⟨hother.fits.pageLists, hother.fits.heapLists,
      hother.fits.useHeap, hother.fits.busyHeap, hother.fits.heaps,
      hother.fits.aligned⟩

end BatchInvariant

end Palloc
