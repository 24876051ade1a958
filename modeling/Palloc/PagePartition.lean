import Palloc.FreeListExtension
import Mathlib.Data.List.Count
import Mathlib.Data.List.Perm.Lattice

/-!
# The blocks of a page are partitioned

At any time each carved block of a page is in exactly one of four places: it
is live, or it is on one of the three lists.  `PagePartition` names the four
lists; every operation of the page moves blocks between them and keeps the
partition, so it holds along every run that starts with `pa_page_init`.

The block addresses of an inactive list are only what the link words say.  A
live block belongs to the program, which may write anything into it; this
includes the link that another thread writes when it puts the block on the
heap's delayed list.
-/

namespace Palloc

open LinkedChain

/-- The four places of the carved blocks: the `capacity` blocks from
`page_start` on. -/
structure PagePartition (page : PageFields)
    (live free localFree thread : List Addr) : Prop where
  free_chain : IsChain page.links page.free free
  local_chain : IsChain page.links page.localFree localFree
  thread_chain : IsChain page.links page.xthreadFree.block thread
  blocks : (live ++ free ++ localFree ++ thread).Perm
    (blockRun page.blockSize page.pageStart page.capacity)
  used_eq : page.used = live.length + thread.length
  capacity_le : page.capacity ≤ page.reserved
  reserved_lt : page.reserved < 65536
  blockSize_pos : 0 < page.blockSize

namespace PagePartition

variable {cfg : Config} {page page' : PageFields}
  {live free localFree thread : List Addr}

/-! ## What a partition implies -/

theorem nodup (h : PagePartition page live free localFree thread) :
    (live ++ free ++ localFree ++ thread).Nodup :=
  h.blocks.nodup_iff.mpr (nodup_blockRun h.blockSize_pos _ _)

theorem length_eq (h : PagePartition page live free localFree thread) :
    live.length + free.length + localFree.length + thread.length =
      page.capacity := by
  have hlength := h.blocks.length_eq
  simp only [List.length_append, List.length_range'] at hlength
  exact hlength

theorem used_add (h : PagePartition page live free localFree thread) :
    page.used + free.length + localFree.length = page.capacity := by
  have hlength := h.length_eq
  have hused := h.used_eq
  omega

theorem notMem_lists (h : PagePartition page live free localFree thread)
    {block : Addr} (hblock : block ∈ live) :
    block ∉ free ∧ block ∉ localFree ∧ block ∉ thread := by
  have hnodup := h.nodup
  simp only [List.nodup_append, List.mem_append] at hnodup
  obtain ⟨⟨⟨_, _, hfree⟩, _, hlocal⟩, _, hthread⟩ := hnodup
  exact ⟨fun hmem => hfree block hblock block hmem rfl,
    fun hmem => hlocal block (.inl hblock) block hmem rfl,
    fun hmem => hthread block (.inl (.inl hblock)) block hmem rfl⟩

theorem apart (h : PagePartition page live free localFree thread) :
    (live ++ free ++ localFree ++ thread).Pairwise fun a b =>
      a + page.blockSize ≤ b ∨ b + page.blockSize ≤ a := by
  have hrun : ∀ start count, (blockRun page.blockSize start count).Pairwise
      fun a b => a + page.blockSize ≤ b ∨ b + page.blockSize ≤ a := by
    intro start count
    induction count generalizing start with
    | zero => simp
    | succ count ih =>
        rw [blockRun_succ, List.pairwise_cons]
        refine ⟨?_, ih _⟩
        intro other hother
        rw [List.mem_range'] at hother
        obtain ⟨i, _, rfl⟩ := hother
        left
        omega
  refine (h.blocks.pairwise_iff ?_).mpr (hrun _ _)
  intro a b hab
  exact hab.symm

theorem congr (h : PagePartition page live free localFree thread)
    (hlinks : ∀ addr, addr ∉ live → page'.links addr = page.links addr)
    (hfields : page' = { page with links := page'.links }) :
    PagePartition page' live free localFree thread := by
  have hout : ∀ addr, addr ∈ free ∨ addr ∈ localFree ∨ addr ∈ thread →
      page'.links addr = page.links addr := by
    intro addr haddr
    apply hlinks
    intro hlive
    obtain ⟨hfree, hlocal, hthread⟩ := h.notMem_lists hlive
    tauto
  rw [hfields]
  exact
    { free_chain := h.free_chain.congr fun addr haddr =>
        hout addr (.inl haddr)
      local_chain := h.local_chain.congr fun addr haddr =>
        hout addr (.inr (.inl haddr))
      thread_chain := h.thread_chain.congr fun addr haddr =>
        hout addr (.inr (.inr haddr))
      blocks := h.blocks
      used_eq := h.used_eq
      capacity_le := h.capacity_le
      reserved_lt := h.reserved_lt
      blockSize_pos := h.blockSize_pos }

/-! ## Allocation -/

theorem finishAlloc (h : PagePartition page live free localFree thread)
    {block : Addr} (hblock : block ∈ live) (zero : Bool) :
    PagePartition (pageFinishAlloc cfg page block zero) live free localFree
      thread := by
  unfold pageFinishAlloc
  split
  · apply h.congr
    · intro addr haddr
      apply Function.update_of_ne
      rintro rfl
      exact haddr hblock
    · rfl
  · exact h

theorem malloc (h : PagePartition page live free localFree thread)
    {zero : Bool} {block : Addr}
    (hmalloc : pageMallocZero cfg page zero = some (block, page')) :
    ∃ rest, free = block :: rest ∧
      PagePartition page' (block :: live) rest localFree thread := by
  unfold pageMallocZero at hmalloc
  cases hfree : page.free with
  | none => simp [hfree] at hmalloc
  | some first =>
      simp only [hfree, Option.some.injEq, Prod.mk.injEq] at hmalloc
      obtain ⟨rfl, rfl⟩ := hmalloc
      have hchain := h.free_chain
      rw [hfree] at hchain
      obtain ⟨rest, rfl, hrest⟩ := hchain.exists_rest
      refine ⟨rest, rfl, ?_⟩
      have hlength := h.length_eq
      have hused := h.used_eq
      have hcapacity := h.capacity_le
      have hreserved := h.reserved_lt
      simp only [List.length_cons] at hlength
      refine finishAlloc ?_ (by simp) zero
      exact
        { free_chain := hrest
          local_chain := h.local_chain
          thread_chain := h.thread_chain
          blocks := by
            refine List.Perm.trans ?_ h.blocks
            simp only [List.cons_append, List.append_assoc]
            exact List.perm_middle.symm
          used_eq := by
            simp only [List.length_cons]
            rw [Nat.mod_eq_of_lt (by omega)]
            omega
          capacity_le := hcapacity
          reserved_lt := hreserved
          blockSize_pos := h.blockSize_pos }

/-! ## Collection -/

/-- The thread-free list moves in front of the local free list, and `used`
drops by its length. -/
theorem threadFreeCollect
    (h : PagePartition page live free localFree thread) :
    PagePartition (pageThreadFreeCollect page) live free
      (thread ++ localFree) [] := by
  have hblocks : (live ++ free ++ (thread ++ localFree) ++ []).Perm
      (blockRun page.blockSize page.pageStart page.capacity) := by
    refine List.Perm.trans ?_ h.blocks
    rw [List.append_nil, List.append_assoc (live ++ free)]
    exact List.perm_append_comm.append_left _
  unfold pageThreadFreeCollect
  cases hhead : page.xthreadFree.block with
  | none =>
      have hnil : thread = [] := by
        have hchain := h.thread_chain
        rw [hhead] at hchain
        exact hchain.eq_nil
      subst hnil
      exact
        { free_chain := h.free_chain
          local_chain := by simpa using h.local_chain
          thread_chain := rfl
          blocks := hblocks
          used_eq := h.used_eq
          capacity_le := h.capacity_le
          reserved_lt := h.reserved_lt
          blockSize_pos := h.blockSize_pos }
  | some head =>
      have hchain := h.thread_chain
      rw [hhead] at hchain
      obtain ⟨rest, rfl, hrest⟩ := hchain.exists_rest
      have hlength := h.length_eq
      have hused := h.used_eq
      have hcapacity := h.capacity_le
      have hreserved := h.reserved_lt
      simp only [List.length_cons] at hlength hused
      have hwalk := collectTail_spec page.capacity 1 hrest (by omega)
      have hcount : ¬ page.capacity < 1 + rest.length := by omega
      simp only [hwalk, hcount, if_false]
      set last := (head :: rest).getLast (by simp) with hlast
      have hsplit : head :: rest = (head :: rest).dropLast ++ [last] :=
        (List.dropLast_append_getLast (by simp)).symm
      have hnodup := h.nodup
      simp only [List.nodup_append, List.mem_append] at hnodup
      obtain ⟨⟨_, _, hfreeLocal⟩, _, hthread⟩ := hnodup
      have hlastMem : last ∈ head :: rest := List.getLast_mem _
      have hlastFree : last ∉ free := fun hmem =>
        hthread last (.inl (.inr hmem)) last hlastMem rfl
      have hlastLocal : last ∉ localFree := fun hmem =>
        hthread last (.inr hmem) last hlastMem rfl
      exact
        { free_chain := h.free_chain.update_of_notMem hlastFree _
          local_chain := by
            have hthreadChain : IsChain page.links (some head)
                ((head :: rest).dropLast ++ [last]) := by
              rw [← hsplit]
              exact ⟨rfl, hrest⟩
            have hspliced :=
              hthreadChain.splice h.local_chain hlastLocal
            rw [hsplit, List.append_assoc]
            exact hspliced
          thread_chain := rfl
          blocks := hblocks
          used_eq := by
            simp only [List.length_nil, Nat.add_zero]
            rw [Nat.mod_eq_of_lt (a := 1 + rest.length) (by omega)]
            rw [show page.used + 65536 - (1 + rest.length) =
              live.length + 65536 by omega, Nat.add_mod_right,
              Nat.mod_eq_of_lt (by omega)]
          capacity_le := hcapacity
          reserved_lt := hreserved
          blockSize_pos := h.blockSize_pos }

/-- Collection returns, empties the thread-free list, and leaves nothing on
the local free list when the free list would otherwise be empty or the
collection is forced. -/
theorem freeCollect (h : PagePartition page live free localFree thread)
    (force : Bool) :
    ∃ page' free' localFree', pageFreeCollect page force = some page' ∧
      PagePartition page' live free' localFree' [] ∧
        (force = true ∨ free' = [] → localFree' = []) := by
  have hthread : ∃ page₁ localFree₁,
      (if force ∨ page.xthreadFree.block ≠ none then
        pageThreadFreeCollect page else page) = page₁ ∧
        PagePartition page₁ live free localFree₁ [] := by
    by_cases hcollect : force ∨ page.xthreadFree.block ≠ none
    · exact ⟨_, _, if_pos hcollect, h.threadFreeCollect⟩
    · rw [if_neg hcollect]
      push Not at hcollect
      have hnil : thread = [] := by
        have hchain := h.thread_chain
        rw [hcollect.2] at hchain
        exact hchain.eq_nil
      subst hnil
      exact ⟨page, localFree, rfl, h⟩
  obtain ⟨page₁, localFree₁, hpage₁, h₁⟩ := hthread
  simp only [pageFreeCollect, hpage₁]
  cases hlocal : page₁.localFree with
  | none =>
      have hnil : localFree₁ = [] := by
        have hchain := h₁.local_chain
        rw [hlocal] at hchain
        exact hchain.eq_nil
      subst hnil
      exact ⟨page₁, free, [], rfl, h₁, fun _ => rfl⟩
  | some head =>
      have hchain := h₁.local_chain
      rw [hlocal] at hchain
      cases hfree : page₁.free with
      | none =>
          have hnil : free = [] := by
            have hfreeChain := h₁.free_chain
            rw [hfree] at hfreeChain
            exact hfreeChain.eq_nil
          subst hnil
          refine ⟨_, localFree₁, [], rfl, ?_, fun _ => rfl⟩
          exact
            { free_chain := hchain
              local_chain := rfl
              thread_chain := h₁.thread_chain
              blocks := by
                have hblocks := h₁.blocks
                rw [List.append_nil live] at hblocks
                rw [List.append_nil (live ++ localFree₁)]
                exact hblocks
              used_eq := h₁.used_eq
              capacity_le := h₁.capacity_le
              reserved_lt := h₁.reserved_lt
              blockSize_pos := h₁.blockSize_pos }
      | some first =>
          cases force with
          | false =>
              refine ⟨page₁, free, localFree₁, by simp, h₁, ?_⟩
              rintro (hforce | hnil)
              · simp at hforce
              · have hfreeChain := h₁.free_chain
                rw [hnil, hfree] at hfreeChain
                simp at hfreeChain
          | true =>
              have hlength := h₁.length_eq
              have htail := hchain.lastNode_eq
                (by omega : localFree₁.length ≤ page₁.capacity)
              obtain ⟨rest, hcons, _⟩ := hchain.exists_rest
              obtain ⟨before, last, hsplit⟩ :
                  ∃ before last, localFree₁ = before ++ [last] :=
                ⟨_, _, (List.dropLast_append_getLast
                  (by rw [hcons]; simp)).symm⟩
              rw [hsplit, List.getLast?_concat] at htail
              simp only [htail, if_true]
              have hnodup := h₁.nodup
              simp only [List.nodup_append, List.mem_append] at hnodup
              obtain ⟨⟨_, _, hfreeLocal⟩, _, _⟩ := hnodup
              have hlastMem : last ∈ localFree₁ := by simp [hsplit]
              have hlastFree : last ∉ free := fun hmem =>
                hfreeLocal last (.inr hmem) last hlastMem rfl
              refine ⟨_, localFree₁ ++ free, [], rfl, ?_, fun _ => rfl⟩
              exact
                { free_chain := by
                    rw [hsplit] at hchain ⊢
                    have hspliced := hchain.splice h₁.free_chain hlastFree
                    rw [hfree] at hspliced
                    rw [List.append_assoc]
                    exact hspliced
                  local_chain := rfl
                  thread_chain := by
                    have hnone := h₁.thread_chain
                    exact hnone
                  blocks := by
                    refine List.Perm.trans ?_ h₁.blocks
                    simp only [List.append_assoc, List.append_nil]
                    exact List.perm_append_comm.append_left _
                  used_eq := h₁.used_eq
                  capacity_le := h₁.capacity_le
                  reserved_lt := h₁.reserved_lt
                  blockSize_pos := h₁.blockSize_pos }

/-! ## Freeing -/

private theorem perm_erase {block : Addr} (hblock : block ∈ live)
    (l l' : List Addr) :
    (live.erase block ++ l ++ (block :: l')).Perm (live ++ l ++ l') := by
  have hlive := List.perm_cons_erase hblock
  calc (live.erase block ++ l ++ (block :: l')).Perm
        (block :: (live.erase block ++ l ++ l')) := List.perm_middle
    _ = block :: live.erase block ++ l ++ l' := by simp
    List.Perm _ (live ++ l ++ l') :=
      (hlive.symm.append_right l).append_right l'

/-- A local free moves the block to the local free list, and collects when
nothing of the page is in use any more. -/
theorem freeLocal (h : PagePartition page live free localFree thread)
    {block : Addr} (hblock : block ∈ live) :
    ∃ page' free' localFree' thread',
      freeBlockLocal page block = some page' ∧
        PagePartition page' (live.erase block) free' localFree' thread' := by
  obtain ⟨hfree, hlocal, hthread⟩ := h.notMem_lists hblock
  have hlength := h.length_eq
  have hused := h.used_eq
  have hcapacity := h.capacity_le
  have hreserved := h.reserved_lt
  have herase := List.length_erase_of_mem hblock
  have hlivePos := List.length_pos_of_mem hblock
  have hpush : PagePartition
      { page.blockSetNext block page.localFree with
        localFree := some block
        used := (page.used + 65535) % 65536 }
      (live.erase block) free (block :: localFree) thread :=
    { free_chain := h.free_chain.update_of_notMem hfree _
      local_chain := h.local_chain.push hlocal
      thread_chain := h.thread_chain.update_of_notMem hthread _
      blocks := ((perm_erase hblock free localFree).append_right _).trans
        h.blocks
      used_eq := by
        change (page.used + 65535) % 65536 =
          (live.erase block).length + thread.length
        rw [show page.used + 65535 = page.used - 1 + 65536 by omega,
          Nat.add_mod_right, Nat.mod_eq_of_lt (by omega)]
        omega
      capacity_le := hcapacity
      reserved_lt := hreserved
      blockSize_pos := h.blockSize_pos }
  simp only [freeBlockLocal]
  split
  · obtain ⟨page', free', localFree', hcollect, hpage', _⟩ :=
      hpush.freeCollect false
    exact ⟨page', free', localFree', [], hcollect, hpage'⟩
  · exact ⟨_, _, _, _, rfl, hpush⟩

/-- A free by another thread moves the block to the thread-free list; it
still counts as used. -/
theorem freeThread (h : PagePartition page live free localFree thread)
    {block : Addr} (hblock : block ∈ live) :
    PagePartition (freeBlockThread page block) (live.erase block) free
      localFree (block :: thread) := by
  obtain ⟨hfree, hlocal, hthread⟩ := h.notMem_lists hblock
  have herase := List.length_erase_of_mem hblock
  have hlivePos := List.length_pos_of_mem hblock
  have hused := h.used_eq
  exact
    { free_chain := h.free_chain.update_of_notMem hfree _
      local_chain := h.local_chain.update_of_notMem hlocal _
      thread_chain := h.thread_chain.push hthread
      blocks := by
        refine List.Perm.trans ?_ h.blocks
        have hperm := perm_erase hblock (free ++ localFree) thread
        simpa only [List.append_assoc] using hperm
      used_eq := by
        simp only [freeBlockThread, PageFields.blockSetNext,
          List.length_cons]
        omega
      capacity_le := h.capacity_le
      reserved_lt := h.reserved_lt
      blockSize_pos := h.blockSize_pos }

/-! ## Extension -/

theorem minExtend_pos (cfg : Config) : 0 < cfg.minExtend := by
  unfold Config.minExtend
  split <;> omega

/-- Linking the next blocks in front of the free list. -/
theorem extended (h : PagePartition page live free localFree thread)
    {extend : ℕ} {l : List Addr}
    (hperm : l.Perm (newBlocks page page.blockSize extend))
    (hext : FreeListExtended page page' l)
    (hfits : page.capacity + extend ≤ page.reserved) :
    PagePartition
      { page' with capacity := (page.capacity + extend) % 65536 } live
      (l ++ free) localFree thread := by
  have hreserved := h.reserved_lt
  have hcapacity : (page.capacity + extend) % 65536 =
      page.capacity + extend := Nat.mod_eq_of_lt (by omega)
  have hnew : ∀ addr, addr ∈ live ++ free ++ localFree ++ thread →
      addr ∉ l := by
    intro addr haddr hmem
    have hnodup := nodup_blockRun h.blockSize_pos page.pageStart
      (page.capacity + extend)
    rw [← blockRun_append, List.nodup_append] at hnodup
    exact hnodup.2.2 addr (h.blocks.mem_iff.mp haddr) addr
      (hperm.mem_iff.mp hmem) rfl
  have hframe : ∀ addr, addr ∈ live ++ free ++ localFree ++ thread →
      page'.links addr = page.links addr := fun addr haddr =>
    hext.frame addr (hnew addr haddr)
  rw [hext.fields, hcapacity]
  exact
    { free_chain := hext.chain free h.free_chain fun addr haddr =>
        hnew addr (by simp [haddr])
      local_chain := h.local_chain.congr fun addr haddr =>
        hframe addr (by simp [haddr])
      thread_chain := h.thread_chain.congr fun addr haddr =>
        hframe addr (by simp [haddr])
      blocks := by
        rw [← blockRun_append]
        have hsum := h.blocks.append hperm
        refine List.Perm.trans ?_ hsum
        rw [List.perm_iff_count]
        intro addr
        simp only [List.count_append]
        omega
      used_eq := h.used_eq
      capacity_le := hfits
      reserved_lt := hreserved
      blockSize_pos := h.blockSize_pos }

theorem extendFree (cfg : Config)
    (h : PagePartition page live free localFree thread) (r : BitVec 64) :
    ∃ page' l, pageExtendFree cfg r page = some page' ∧
      PagePartition page' live (l ++ free) localFree thread ∧
        (page.capacity < page.reserved → l ++ free ≠ []) := by
  unfold pageExtendFree
  by_cases hskip : cfg.secure ≤ 2 ∧ page.free ≠ none
  · refine ⟨page, [], if_pos hskip, h, fun _ hnil => hskip.2 ?_⟩
    have hchain := h.free_chain
    rw [show free = [] from hnil] at hchain
    exact hchain
  · rw [if_neg hskip]
    by_cases hfull : page.reserved ≤ page.capacity
    · exact ⟨page, [], if_pos hfull, h, fun hlt => absurd hfull (by omega)⟩
    · rw [if_neg hfull]
      have hmin := minExtend_pos cfg
      have hextend : 0 < extendCount cfg page := by
        simp only [extendCount]
        omega
      have hfits : page.capacity + extendCount cfg page ≤ page.reserved := by
        simp only [extendCount]
        omega
      have hnonempty : ∀ {l : List Addr},
          l.Perm (newBlocks page page.blockSize (extendCount cfg page)) →
          l ++ free ≠ [] := by
        intro l hperm hnil
        have hlength := hperm.length_eq
        rw [(List.append_eq_nil_iff.mp hnil).1] at hlength
        simp [newBlocks] at hlength
        omega
      by_cases hplain : extendCount cfg page < minSlices ∨ cfg.secure = 0
      · obtain ⟨page', hrun, hext⟩ :=
          pageFreeListExtend_spec h.blockSize_pos hextend
        exact ⟨_, _, by simp only [if_pos hplain, hrun],
          h.extended (List.Perm.refl _) hext hfits,
          fun _ => hnonempty (List.Perm.refl _)⟩
      · obtain ⟨page', l, hrun, hperm, hext⟩ :=
          pageFreeListExtendSecure_spec r h.blockSize_pos hextend
        exact ⟨_, l, by simp only [if_neg hplain, hrun],
          h.extended hperm hext hfits, fun _ => hnonempty hperm⟩

end PagePartition

/-! ## Fresh pages -/

/-- The fields `pa_page_init` finds in a page it is given. -/
structure FreshPage (page : PageFields) : Prop where
  capacity : page.capacity = 0
  used : page.used = 0
  free : page.free = none
  localFree : page.localFree = none
  xthreadFree : page.xthreadFree.block = none

theorem pageInit_partition (cfg : Config) {page : PageFields}
    (hfresh : FreshPage page) {blockSize : ℕ} (hpos : 0 < blockSize)
    (r : BitVec 64) (segment idx heap heapTag : ℕ) :
    ∃ page' free,
      pageInit cfg r segment idx heap heapTag blockSize page = some page' ∧
        PagePartition page' [] free [] [] := by
  simp only [pageInit]
  set area := segmentPageStartFromSlice segment idx page.sliceCount blockSize
  have hstart : PagePartition
      { page with
        xheap := some heap
        heapTag := heapTag
        blockSize := blockSize
        pageStart := area.1
        reserved := area.2 / blockSize % 65536
        freeIsZero := page.isZeroInit
        blockSizeShift :=
          if 0 < blockSize ∧ isPowerOfTwo blockSize then Nat.log2 blockSize
          else 0 } [] [] [] [] :=
    { free_chain := hfresh.free
      local_chain := hfresh.localFree
      thread_chain := hfresh.xthreadFree
      blocks := by simp [hfresh.capacity]
      used_eq := by simp [hfresh.used]
      capacity_le := by simp [hfresh.capacity]
      reserved_lt := Nat.mod_lt _ (by norm_num)
      blockSize_pos := hpos }
  obtain ⟨page', l, hrun, hpage', -⟩ := hstart.extendFree cfg r
  exact ⟨page', _, hrun, hpage'⟩

/-! ## Runs -/

inductive PageStep (cfg : Config) :
    PageFields → List Addr → PageFields → List Addr → Prop where
  | malloc {page page' : PageFields} {live : List Addr} {zero : Bool}
      {block : Addr}
      (hmalloc : pageMallocZero cfg page zero = some (block, page')) :
      PageStep cfg page live page' (block :: live)
  | write {page : PageFields} {live : List Addr} {block : Addr}
      (hblock : block ∈ live) {links : Addr → Option Addr}
      (hlinks : ∀ addr, addr < block ∨ block + page.blockSize ≤ addr →
        links addr = page.links addr) :
      PageStep cfg page live { page with links := links } live
  | freeLocal {page page' : PageFields} {live : List Addr} {block : Addr}
      (hblock : block ∈ live)
      (hfree : freeBlockLocal page block = some page') :
      PageStep cfg page live page' (live.erase block)
  | freeThread {page : PageFields} {live : List Addr} {block : Addr}
      (hblock : block ∈ live)
      (hdelayed : page.xthreadFree.delayed ≠ .useDelayedFree) :
      PageStep cfg page live (freeBlockThread page block)
        (live.erase block)
  | setDelayed {page : PageFields} {live : List Addr} (delayed : Delayed) :
      PageStep cfg page live
        { page with xthreadFree := { page.xthreadFree with
            delayed := delayed } } live
  | threadFreeCollect {page : PageFields} {live : List Addr} :
      PageStep cfg page live (pageThreadFreeCollect page) live
  | freeCollect {page page' : PageFields} {live : List Addr} {force : Bool}
      (hcollect : pageFreeCollect page force = some page') :
      PageStep cfg page live page' live
  | extendFree {page page' : PageFields} {live : List Addr} {r : BitVec 64}
      (hextend : pageExtendFree cfg r page = some page') :
      PageStep cfg page live page' live

/-- The states of a page since `pa_page_init`. -/
inductive PageReachable (cfg : Config) : PageFields → List Addr → Prop where
  | init {page page' : PageFields} {blockSize : ℕ} {r : BitVec 64}
      {segment idx heap heapTag : ℕ} (hfresh : FreshPage page)
      (hpos : 0 < blockSize)
      (hinit : pageInit cfg r segment idx heap heapTag blockSize page =
        some page') :
      PageReachable cfg page' []
  | step {page page' : PageFields} {live live' : List Addr}
      (hreach : PageReachable cfg page live)
      (hstep : PageStep cfg page live page' live') :
      PageReachable cfg page' live'

theorem PageStep.partition {cfg : Config} {page page' : PageFields}
    {live live' free localFree thread : List Addr}
    (hstep : PageStep cfg page live page' live')
    (h : PagePartition page live free localFree thread) :
    ∃ free' localFree' thread',
      PagePartition page' live' free' localFree' thread' := by
  cases hstep with
  | malloc hmalloc =>
      obtain ⟨rest, _, hpage'⟩ := h.malloc hmalloc
      exact ⟨_, _, _, hpage'⟩
  | write hblock hlinks =>
      refine ⟨free, localFree, thread, ?_⟩
      -- the program writes inside its block, and no list block starts there
      have hapart := h.apart
      have hpos := h.blockSize_pos
      simp only [List.pairwise_append, List.mem_append] at hapart
      obtain ⟨⟨⟨_, _, hfree⟩, _, hlocal⟩, _, hthread⟩ := hapart
      have houtside : ∀ {block addr : ℕ},
          block + page.blockSize ≤ addr ∨ addr + page.blockSize ≤ block →
            addr < block ∨ block + page.blockSize ≤ addr := by
        intro block addr hcase
        omega
      have hout := fun addr (haddr : addr ∈ free ∨ addr ∈ localFree ∨
          addr ∈ thread) => hlinks addr (by
        rcases haddr with haddr | haddr | haddr
        · exact houtside (hfree _ hblock addr haddr)
        · exact houtside (hlocal _ (.inl hblock) addr haddr)
        · exact houtside (hthread _ (.inl (.inl hblock)) addr haddr))
      exact
        { free_chain := h.free_chain.congr fun addr haddr =>
            hout addr (.inl haddr)
          local_chain := h.local_chain.congr fun addr haddr =>
            hout addr (.inr (.inl haddr))
          thread_chain := h.thread_chain.congr fun addr haddr =>
            hout addr (.inr (.inr haddr))
          blocks := h.blocks
          used_eq := h.used_eq
          capacity_le := h.capacity_le
          reserved_lt := h.reserved_lt
          blockSize_pos := h.blockSize_pos }
  | freeLocal hblock hfree =>
      obtain ⟨page₁, free', localFree', thread', hrun, hpage'⟩ :=
        h.freeLocal hblock
      rw [hfree, Option.some.injEq] at hrun
      subst hrun
      exact ⟨_, _, _, hpage'⟩
  | freeThread hblock _ => exact ⟨_, _, _, h.freeThread hblock⟩
  | setDelayed delayed =>
      exact ⟨free, localFree, thread,
        { free_chain := h.free_chain
          local_chain := h.local_chain
          thread_chain := h.thread_chain
          blocks := h.blocks
          used_eq := h.used_eq
          capacity_le := h.capacity_le
          reserved_lt := h.reserved_lt
          blockSize_pos := h.blockSize_pos }⟩
  | threadFreeCollect => exact ⟨_, _, _, h.threadFreeCollect⟩
  | freeCollect hcollect =>
      obtain ⟨page₁, free', localFree', hrun, hpage', _⟩ := h.freeCollect _
      rw [hcollect, Option.some.injEq] at hrun
      subst hrun
      exact ⟨_, _, _, hpage'⟩
  | extendFree hextend =>
      obtain ⟨page₁, l, hrun, hpage', -⟩ := h.extendFree cfg _
      rw [hextend, Option.some.injEq] at hrun
      subst hrun
      exact ⟨_, _, _, hpage'⟩

theorem PageReachable.partition {cfg : Config} {page : PageFields}
    {live : List Addr} (hreach : PageReachable cfg page live) :
    ∃ free localFree thread,
      PagePartition page live free localFree thread := by
  induction hreach with
  | init hfresh hpos hinit =>
      obtain ⟨page', free, hrun, hpage'⟩ :=
        pageInit_partition cfg hfresh hpos _ _ _ _ _
      rw [hinit, Option.some.injEq] at hrun
      subst hrun
      exact ⟨_, _, _, hpage'⟩
  | step _ hstep ih =>
      obtain ⟨free, localFree, thread, h⟩ := ih
      exact hstep.partition h

/-- In every reachable state of a page the carved blocks are partitioned into
the live blocks and the three lists, the counters count them, allocation
returns a block that is not live, and every operation returns. -/
theorem page_block_partition {cfg : Config} {page : PageFields}
    {live : List Addr} (hreach : PageReachable cfg page live) :
    ∃ free localFree thread,
      PagePartition page live free localFree thread ∧
        (live ++ free ++ localFree ++ thread).Nodup ∧
        (live ++ free ++ localFree ++ thread).Pairwise (fun a b =>
          a + page.blockSize ≤ b ∨ b + page.blockSize ≤ a) ∧
        page.used = live.length + thread.length ∧
        page.used + free.length + localFree.length = page.capacity ∧
        page.capacity ≤ page.reserved ∧
        (∀ zero block page',
          pageMallocZero cfg page zero = some (block, page') →
            block ∉ live) ∧
        (∀ block ∈ live, (freeBlockLocal page block).isSome) ∧
        (∀ force, (pageFreeCollect page force).isSome) ∧
        ∀ r, (pageExtendFree cfg r page).isSome := by
  obtain ⟨free, localFree, thread, h⟩ := hreach.partition
  refine ⟨free, localFree, thread, h, h.nodup, h.apart, h.used_eq,
    h.used_add, h.capacity_le, ?_, ?_, ?_, ?_⟩
  · intro zero block page' hmalloc hlive
    obtain ⟨rest, hfree, _⟩ := h.malloc hmalloc
    apply (h.notMem_lists hlive).1
    simp [hfree]
  · intro block hblock
    obtain ⟨page', _, _, _, hrun, _⟩ := h.freeLocal hblock
    simp [hrun]
  · intro force
    obtain ⟨page', _, _, hrun, _⟩ := h.freeCollect force
    simp [hrun]
  · intro r
    obtain ⟨page', _, hrun, _⟩ := h.extendFree cfg r
    simp [hrun]

def clearedPage : PageFields := { PageFields.zero with sliceCount := 1 }

/-- The page with 8 KiB blocks, as `pa_page_init` leaves it. -/
def firstPage : PageFields :=
  (pageInit {} 0 1 1 0 0 8192 clearedPage).getD clearedPage

theorem firstPage_reachable : PageReachable {} firstPage [] := by
  have hfresh : FreshPage clearedPage := ⟨rfl, rfl, rfl, rfl, rfl⟩
  have hpos : 0 < 8192 := by decide
  obtain ⟨page', _, hrun, _⟩ :=
    pageInit_partition {} hfresh hpos 0 1 1 0 0
  have hfirst : firstPage = page' := by
    rw [firstPage, hrun]
    rfl
  rw [hfirst]
  exact .init hfresh hpos hrun

/-- Three blocks of the first page are taken, the thread frees one of them and
another thread one, and the page is collected. -/
def collectedPage : Option (PageFields × List Addr) := do
  let (a, page) ← pageMallocZero {} firstPage false
  let (b, page) ← pageMallocZero {} page false
  let (c, page) ← pageMallocZero {} page false
  let page ← freeBlockLocal page a
  let page := { page with xthreadFree :=
    { page.xthreadFree with delayed := .noDelayedFree } }
  let page ← pageFreeCollect (freeBlockThread page b) true
  some (page, ([c, b, a].erase a).erase b)

theorem page_block_partition_collected :
    ∃ page live free localFree thread, collectedPage = some (page, live) ∧
      PagePartition page live free localFree thread ∧
        page.used + free.length + localFree.length = 4 := by
  have hsome : collectedPage.isSome = true := by decide +kernel
  obtain ⟨⟨page, live⟩, hresult⟩ := Option.isSome_iff_exists.mp hsome
  have hrun := hresult
  simp only [collectedPage, Option.bind_eq_bind, Option.bind_eq_some_iff,
    Prod.exists] at hrun
  obtain ⟨a, page₁, ha, b, page₂, hb, c, page₃, hc, page₄, hlocal, page₅,
    hcollect, hlast⟩ := hrun
  cases hlast
  have h₁ : PageReachable {} page₁ [a] :=
    .step firstPage_reachable (.malloc ha)
  have h₂ : PageReachable {} page₂ [b, a] := .step h₁ (.malloc hb)
  have hne : b ≠ a := by
    obtain ⟨-, -, -, -, -, -, -, -, -, hfresh, -⟩ := page_block_partition h₁
    simpa using hfresh _ _ _ hb
  have h₃ : PageReachable {} page₄ ([c, b, a].erase a) :=
    .step (.step h₂ (.malloc hc)) (.freeLocal (by simp) hlocal)
  have hreach : PageReachable {} page (([c, b, a].erase a).erase b) :=
    .step (.step (.step h₃ (.setDelayed .noDelayedFree))
      (.freeThread (by simp [List.mem_erase_of_ne hne]) (by simp)))
      (.freeCollect hcollect)
  obtain ⟨free, localFree, thread, hpage, -, -, -, hcount, -⟩ :=
    page_block_partition hreach
  have hcapacity : collectedPage.map (·.1.capacity) = some 4 := by
    decide +kernel
  rw [hresult] at hcapacity
  exact ⟨_, _, free, localFree, thread, hresult, hpage,
    hcount.trans (Option.some.inj hcapacity)⟩

end Palloc
