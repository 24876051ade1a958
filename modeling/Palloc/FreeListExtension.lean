import Palloc.PageFreeLists
import Mathlib.Data.List.Perm.Basic
import Mathlib.Tactic.Ring

/-!
# Extending the free list of a page

Both ways to carve new blocks, the sequential one and the randomized one of
secure builds, meet one specification: every new block is linked exactly once
in front of the old free list, and nothing else of the page changes.

For the randomized extension the argument keeps a pool of the blocks that are
not linked yet, one run of blocks per slice.  A round takes the first block of
some run, so the linked blocks followed by the pool are always a permutation
of the new blocks.
-/

namespace Palloc

open LinkedChain

/-- `count` block starts from `start` on. -/
abbrev blockRun (blockSize : ℕ) (start : Addr) (count : ℕ) : List Addr :=
  List.range' start count blockSize

theorem nodup_blockRun {blockSize : ℕ} (hpos : 0 < blockSize)
    (start count : ℕ) : (blockRun blockSize start count).Nodup :=
  List.nodup_range' blockSize hpos

theorem blockRun_append (blockSize start m n : ℕ) :
    blockRun blockSize start m ++
        blockRun blockSize (start + m * blockSize) n =
      blockRun blockSize start (m + n) := by
  rw [Nat.mul_comm m blockSize]
  exact List.range'_append

theorem blockRun_succ (blockSize start count : ℕ) :
    blockRun blockSize start (count + 1) =
      start :: blockRun blockSize (start + blockSize) count :=
  List.range'_succ

/-- The blocks that an extension by `extend` carves. -/
def newBlocks (page : PageFields) (blockSize extend : ℕ) : List Addr :=
  blockRun blockSize
    (pageBlockAt page.pageStart blockSize page.capacity) extend

structure FreeListExtended (page page' : PageFields) (l : List Addr) :
    Prop where
  fields : page' = { page with links := page'.links, free := page'.free }
  frame : ∀ addr, addr ∉ l → page'.links addr = page.links addr
  chain : ∀ rest, IsChain page.links page.free rest →
    (∀ addr ∈ rest, addr ∉ l) →
      IsChain page'.links page'.free (l ++ rest)

/-! ## The sequential extension -/

theorem linkBlocks_spec {blockSize last fuel : ℕ} (block n : ℕ)
    (links : Addr → Option Addr) (hpos : 0 < blockSize)
    (hlast : last + blockSize = block + n * blockSize) (hfuel : n < fuel) :
    ∃ links', linkBlocks blockSize last fuel block links = some links' ∧
      (∀ addr ∈ blockRun blockSize block n,
        links' addr = some (addr + blockSize)) ∧
      ∀ addr, addr ∉ blockRun blockSize block n →
        links' addr = links addr := by
  induction fuel generalizing block n links with
  | zero => omega
  | succ fuel ih =>
      cases n with
      | zero =>
          have hstop : ¬ block ≤ last := by omega
          exact ⟨links, by simp [linkBlocks, hstop], by simp, by simp⟩
      | succ n =>
          have hexpand : (n + 1) * blockSize = n * blockSize + blockSize := by
            ring
          have hgo : block ≤ last := by omega
          obtain ⟨links', hrun, hlinked, hframe⟩ :=
            ih (block + blockSize) n
              (Function.update links block (some (block + blockSize)))
              (by omega) (by omega)
          have hfirst : block ∉ blockRun blockSize (block + blockSize) n := by
            have hnodup := nodup_blockRun hpos block (n + 1)
            rw [blockRun_succ] at hnodup
            exact (List.nodup_cons.mp hnodup).1
          refine ⟨links', by simpa [linkBlocks, hgo] using hrun, ?_, ?_⟩
          · intro addr haddr
            rw [blockRun_succ, List.mem_cons] at haddr
            rcases haddr with rfl | haddr
            · rw [hframe addr hfirst, Function.update_self]
            · exact hlinked addr haddr
          · intro addr haddr
            rw [blockRun_succ, List.mem_cons, not_or] at haddr
            rw [hframe addr haddr.2, Function.update_of_ne haddr.1]

/-- A run of blocks whose links lead to the next block, and whose last link
leads to another chain. -/
theorem isChain_blockRun {next : Addr → Option Addr} {blockSize start n : ℕ}
    {head : Option Addr} {rest : List Addr}
    (hnext : ∀ addr ∈ blockRun blockSize start n,
      next addr = some (addr + blockSize))
    (hlast : next (start + n * blockSize) = head)
    (hrest : IsChain next head rest) :
    IsChain next (some start) (blockRun blockSize start (n + 1) ++ rest) := by
  induction n generalizing start with
  | zero =>
      have hlast' : next start = head := by simpa using hlast
      refine ⟨rfl, ?_⟩
      rw [hlast']
      exact hrest
  | succ n ih =>
      rw [blockRun_succ] at hnext ⊢
      refine ⟨rfl, ?_⟩
      rw [hnext start (by simp)]
      apply ih
      · intro addr haddr
        exact hnext addr (by simp [haddr])
      · rw [← hlast]
        congr 1
        ring

theorem pageFreeListExtend_spec {page : PageFields} {extend : ℕ}
    (hpos : 0 < page.blockSize) (hextend : 0 < extend) :
    ∃ page', pageFreeListExtend page page.blockSize extend = some page' ∧
      FreeListExtended page page' (newBlocks page page.blockSize extend) := by
  obtain ⟨n, rfl⟩ : ∃ n, extend = n + 1 := ⟨extend - 1, by omega⟩
  set blockSize := page.blockSize with hsize
  set start := pageBlockAt page.pageStart blockSize page.capacity with hstart
  have hlast : pageBlockAt page.pageStart blockSize
      (page.capacity + (n + 1) - 1) = start + n * blockSize := by
    simp only [hstart, pageBlockAt]
    rw [show page.capacity + (n + 1) - 1 = page.capacity + n by omega]
    ring
  obtain ⟨links, hrun, hlinked, hframe⟩ :=
    linkBlocks_spec start (n + 1) page.links hpos
      (by ring : start + n * blockSize + blockSize =
        start + (n + 1) * blockSize)
      (by omega : n + 1 < n + 1 + 1)
  have hrunAppend : blockRun blockSize start (n + 1) =
      blockRun blockSize start n ++ [start + n * blockSize] := by
    rw [← blockRun_append]
    rfl
  refine ⟨_, by
    simp only [pageFreeListExtend]
    rw [← hstart, hlast, hrun], ?_⟩
  refine ⟨rfl, ?_, ?_⟩
  · intro addr haddr
    rw [newBlocks, ← hstart, hrunAppend, List.mem_append, not_or,
      List.mem_singleton] at haddr
    simp only [PageFields.blockSetNext]
    rw [Function.update_of_ne haddr.2, hframe]
    rw [hrunAppend, List.mem_append, not_or, List.mem_singleton]
    exact haddr
  · intro rest hrest hdisjoint
    have hnodup := nodup_blockRun hpos start (n + 1)
    rw [hrunAppend, List.nodup_append] at hnodup
    simp only [PageFields.blockSetNext, newBlocks, ← hstart]
    have hrest' : IsChain (Function.update links (start + n * blockSize)
        page.free) page.free rest := by
      apply hrest.congr
      intro addr haddr
      have hout := hdisjoint addr haddr
      rw [newBlocks, ← hstart] at hout
      rw [Function.update_of_ne, hframe addr hout]
      intro heq
      apply hout
      rw [hrunAppend, heq]
      simp
    refine isChain_blockRun ?_ (Function.update_self _ _ _) hrest'
    intro addr haddr
    have hne : addr ≠ start + n * blockSize := fun heq =>
      hnodup.2.2 addr haddr _ (by simp) heq
    rw [Function.update_of_ne hne]
    apply hlinked
    rw [hrunAppend]
    exact List.mem_append_left _ haddr

/-! ## The randomized extension -/

theorem secureShift_spec {extend : ℕ} (hpos : 0 < extend) (shift : ℕ) :
    extend >>> secureShift extend shift ≠ 0 := by
  induction shift with
  | zero =>
      simp [secureShift]
      omega
  | succ shift ih =>
      simp only [secureShift]
      split
      · exact ih
      · assumption

theorem nextSlice_spec {counts : ℕ → ℕ} {sliceCount fuel next j : ℕ}
    (hnext : next < sliceCount) (hj : j < fuel)
    (hcount : counts ((next + j) % sliceCount) ≠ 0) :
    ∃ found, nextSlice counts sliceCount fuel next = some found ∧
      found < sliceCount ∧ counts found ≠ 0 := by
  induction fuel generalizing next j with
  | zero => omega
  | succ fuel ih =>
      by_cases hzero : counts next = 0
      · cases j with
        | zero =>
            rw [Nat.add_zero, Nat.mod_eq_of_lt hnext] at hcount
            exact absurd hzero hcount
        | succ j =>
            simp only [nextSlice, hzero, if_true]
            by_cases hwrap : next + 1 = sliceCount
            · rw [if_pos hwrap]
              apply ih (by omega) (by omega : j < fuel)
              have hmod : (next + (j + 1)) % sliceCount =
                  (0 + j) % sliceCount := by
                rw [show next + (j + 1) = (0 + j) + sliceCount by omega,
                  Nat.add_mod_right]
              rwa [← hmod]
            · rw [if_neg hwrap]
              apply ih (by omega) (by omega : j < fuel)
              rwa [show next + 1 + j = next + (j + 1) by omega]
      · exact ⟨next, by simp [nextSlice, hzero], hnext, hzero⟩

/-- The blocks not linked yet: a run of `counts s` blocks from `starts s` on
for every slice `s`. -/
def pool (blockSize : ℕ) (starts counts : ℕ → ℕ) (sliceCount : ℕ) :
    List Addr :=
  (List.range sliceCount).flatMap fun s =>
    blockRun blockSize (starts s) (counts s)

theorem pool_succ (blockSize : ℕ) (starts counts : ℕ → ℕ) (n : ℕ) :
    pool blockSize starts counts (n + 1) =
      pool blockSize starts counts n ++
        blockRun blockSize (starts n) (counts n) := by
  simp [pool, List.range_succ]

theorem pool_congr {blockSize : ℕ} {starts starts' counts counts' : ℕ → ℕ}
    {n : ℕ} (hstarts : ∀ s < n, starts' s = starts s)
    (hcounts : ∀ s < n, counts' s = counts s) :
    pool blockSize starts' counts' n = pool blockSize starts counts n := by
  induction n with
  | zero => rfl
  | succ n ih =>
      rw [pool_succ, pool_succ, hstarts n (by omega), hcounts n (by omega),
        ih (fun s hs => hstarts s (by omega))
          (fun s hs => hcounts s (by omega))]

/-- Taking the first block of a run out of the pool. -/
theorem pool_pick (blockSize : ℕ) (starts : ℕ → ℕ) {counts : ℕ → ℕ}
    {n s : ℕ} (hs : s < n) (hcount : counts s ≠ 0) :
    (pool blockSize starts counts n).Perm
      (starts s :: pool blockSize
        (Function.update starts s (starts s + blockSize))
        (Function.update counts s (counts s - 1)) n) := by
  induction n with
  | zero => omega
  | succ n ih =>
      rw [pool_succ, pool_succ]
      by_cases hsn : s = n
      · subst hsn
        obtain ⟨k, hk⟩ : ∃ k, counts s = k + 1 :=
          ⟨counts s - 1, by omega⟩
        have hsame : pool blockSize
            (Function.update starts s (starts s + blockSize))
            (Function.update counts s (counts s - 1)) s =
              pool blockSize starts counts s := by
          apply pool_congr
          · intro t ht
            exact Function.update_of_ne (by omega) _ _
          · intro t ht
            exact Function.update_of_ne (by omega) _ _
        rw [hsame, Function.update_self, Function.update_self, hk,
          blockRun_succ, Nat.add_sub_cancel]
        exact List.perm_middle
      · rw [Function.update_of_ne (Ne.symm hsn),
          Function.update_of_ne (Ne.symm hsn)]
        exact (ih (by omega)).append_right _

theorem exists_count_of_pool {blockSize : ℕ} {starts counts : ℕ → ℕ} {n : ℕ}
    (hpool : pool blockSize starts counts n ≠ []) :
    ∃ s < n, counts s ≠ 0 := by
  by_contra hnone
  push Not at hnone
  apply hpool
  simp only [pool, List.flatMap_eq_nil_iff, List.mem_range]
  intro s hs
  rw [hnone s hs]
  rfl

/-- The slices together hold the new blocks. -/
theorem pool_initial (blockSize start sliceExtend extra n : ℕ)
    {starts counts : ℕ → ℕ}
    (hstarts : ∀ s, starts s = start + s * sliceExtend * blockSize)
    (hcounts : ∀ s < n, counts s = sliceExtend)
    (hfinal : counts n = sliceExtend + extra) :
    pool blockSize starts counts (n + 1) =
      blockRun blockSize start ((n + 1) * sliceExtend + extra) := by
  have hprefix : ∀ m ≤ n, pool blockSize starts counts m =
      blockRun blockSize start (m * sliceExtend) := by
    intro m hm
    induction m with
    | zero => simp [pool]
    | succ m ih =>
        rw [pool_succ, ih (by omega), hstarts, hcounts m (by omega),
          blockRun_append]
        congr 1
        ring
  rw [pool_succ, hprefix n le_rfl, hstarts, hfinal, blockRun_append]
  congr 1
  ring

def SecureExtend.starts (st : SecureExtend) (blockSize : ℕ) : ℕ → Addr :=
  Function.update st.blocks st.current (st.blocks st.current + blockSize)

structure SecureProgress (blockSize sliceCount : ℕ)
    (links : Addr → Option Addr) (freeStart : Addr) (new : List Addr)
    (st : SecureExtend) (linked : List Addr) : Prop where
  current_lt : st.current < sliceCount
  last : ∃ before, linked = before ++ [st.blocks st.current]
  chain : IsChain (Function.update st.links (st.blocks st.current) none)
    (some freeStart) linked
  blocks : (linked ++ pool blockSize (st.starts blockSize) st.counts
    sliceCount).Perm new
  frame : ∀ addr, addr ∉ linked → st.links addr = links addr

theorem SecureProgress.round {blockSize sliceCount : ℕ} (i : ℕ)
    {links : Addr → Option Addr} {freeStart : Addr} {new : List Addr}
    {st : SecureExtend} {linked : List Addr}
    (h : SecureProgress blockSize sliceCount links freeStart new st linked)
    (hnodup : new.Nodup) (hmore : linked.length < new.length) :
    ∃ st' block, secureRound blockSize sliceCount i st = some st' ∧
      SecureProgress blockSize sliceCount links freeStart new st'
        (linked ++ [block]) := by
  have hpool : pool blockSize (st.starts blockSize) st.counts sliceCount ≠
      [] := by
    intro hnil
    have hlength := h.blocks.length_eq
    rw [hnil, List.append_nil] at hlength
    omega
  obtain ⟨s, hs, hcount⟩ := exists_count_of_pool hpool
  have hcountPos : 0 < sliceCount := by omega
  let rnd := if i % intptrSize = 0 then randomShuffle st.rnd else st.rnd
  let start := (rnd >>> (8 * (i % intptrSize))).toNat &&& (sliceCount - 1)
  have hstart : start < sliceCount := by
    have hle : start ≤ sliceCount - 1 := Nat.and_le_right
    omega
  have hreach : (start + (s + sliceCount - start) % sliceCount) % sliceCount
      = s := by
    rw [Nat.add_mod_mod, show start + (s + sliceCount - start) =
      s + sliceCount by omega, Nat.add_mod_right, Nat.mod_eq_of_lt hs]
  obtain ⟨next, hsearch, hnext, hnextCount⟩ :=
    nextSlice_spec hstart (Nat.mod_lt _ hcountPos)
      (by rw [hreach]; exact hcount)
  set cur := st.blocks st.current with hcur
  set block := st.starts blockSize next with hblock
  have hpick :=
    pool_pick blockSize (st.starts blockSize) hnext hnextCount
  have hperm : (linked ++ [block] ++ pool blockSize
      (Function.update (st.starts blockSize) next (block + blockSize))
      (Function.update st.counts next (st.counts next - 1))
      sliceCount).Perm new := by
    refine List.Perm.trans ?_ h.blocks
    rw [List.append_assoc]
    exact (hpick.symm).append_left linked
  have hlinkedNodup : (linked ++ [block]).Nodup :=
    (List.nodup_append.mp (hperm.nodup_iff.mpr hnodup)).1
  have hblockNot : block ∉ linked := by
    intro hmem
    exact (List.nodup_append.mp hlinkedNodup).2.2 block hmem block
      (by simp) rfl
  obtain ⟨before, hbefore⟩ := h.last
  have hcurMem : cur ∈ linked := by
    rw [hbefore, hcur]
    simp
  have hne : cur ≠ block := by
    intro heq
    exact hblockNot (heq ▸ hcurMem)
  refine ⟨_, block, by
    simp only [secureRound]
    rw [hsearch], ?_⟩
  refine ⟨hnext, ⟨linked, rfl⟩, ?_, hperm, ?_⟩
  · -- put an end mark behind the new block, then redirect the old last link
    have hends : IsChain (Function.update (Function.update st.links cur none)
        block none) (some freeStart) (before ++ [cur]) := by
      rw [hbefore] at h hblockNot
      exact h.chain.update_of_notMem hblockNot none
    have hsingle : IsChain (Function.update
        (Function.update st.links cur none) block none) (some block)
        [block] := by
      refine ⟨rfl, ?_⟩
      rw [Function.update_self]
      rfl
    have hspliced := hends.splice hsingle (by simpa using hne)
    change IsChain (Function.update
      (Function.update st.links cur (some block)) block none)
        (some freeStart) (linked ++ [block])
    rw [hbefore, List.append_assoc]
    apply hspliced.congr
    intro addr haddr
    by_cases hcase : addr = block
    · subst hcase
      rw [Function.update_self, Function.update_of_ne hne.symm,
        Function.update_self]
    · rw [Function.update_of_ne hcase]
      by_cases hcase' : addr = cur
      · subst hcase'
        rw [Function.update_self, Function.update_self]
      · rw [Function.update_of_ne hcase', Function.update_of_ne hcase',
          Function.update_of_ne hcase, Function.update_of_ne hcase']
  · intro addr haddr
    rw [List.mem_append, not_or] at haddr
    have hneCur : addr ≠ cur := by
      rintro rfl
      exact haddr.1 hcurMem
    simp only
    rw [Function.update_of_ne hneCur]
    exact h.frame addr haddr.1

theorem SecureProgress.rounds {blockSize sliceCount : ℕ} (rounds i : ℕ)
    {links : Addr → Option Addr} {freeStart : Addr} {new : List Addr}
    {st : SecureExtend} {linked : List Addr}
    (h : SecureProgress blockSize sliceCount links freeStart new st linked)
    (hnodup : new.Nodup) (hlength : linked.length + rounds = new.length) :
    ∃ st' all, secureRounds blockSize sliceCount rounds i st = some st' ∧
      SecureProgress blockSize sliceCount links freeStart new st' all ∧
        all.length = new.length := by
  induction rounds generalizing i st linked with
  | zero => exact ⟨st, linked, rfl, h, by simpa using hlength⟩
  | succ rounds ih =>
      obtain ⟨st', block, hround, h'⟩ := h.round i hnodup (by omega)
      obtain ⟨final, all, hrounds, hfinal, hall⟩ :=
        ih (i + 1) h' (by
          rw [List.length_append, List.length_singleton]
          omega)
      exact ⟨final, all, by simpa [secureRounds, hround] using hrounds,
        hfinal, hall⟩

theorem pageFreeListExtendSecure_spec {page : PageFields} {extend : ℕ}
    (r : BitVec 64) (hpos : 0 < page.blockSize) (hextend : 0 < extend) :
    ∃ page' l,
      pageFreeListExtendSecure page page.blockSize extend r = some page' ∧
        l.Perm (newBlocks page page.blockSize extend) ∧
          FreeListExtended page page' l := by
  set blockSize := page.blockSize with hsize
  set sliceCount := 1 <<< secureShift extend maxSliceShift with hslice
  have hsliceEq : sliceCount = 2 ^ secureShift extend maxSliceShift := by
    rw [hslice, Nat.shiftLeft_eq, Nat.one_mul]
  have hslicePos : 0 < sliceCount := by
    rw [hsliceEq]
    exact Nat.two_pow_pos _
  have hsliceExtend : extend / sliceCount ≠ 0 := by
    have hshift := secureShift_spec hextend maxSliceShift
    rwa [Nat.shiftRight_eq_div_pow, ← hsliceEq] at hshift
  obtain ⟨n, hn⟩ : ∃ n, sliceCount = n + 1 := ⟨sliceCount - 1, by omega⟩
  let blocks := fun i => pageBlockAt page.pageStart blockSize
    (page.capacity + i * (extend / sliceCount))
  let counts := secureCounts extend sliceCount
  let current := r.toNat % sliceCount
  have hcurrent : current < sliceCount := Nat.mod_lt _ hslicePos
  have hcount : counts current ≠ 0 := by
    simp only [counts, secureCounts]
    split
    · exact fun hsum =>
        hsliceExtend (Nat.eq_zero_of_add_eq_zero_right hsum)
    · exact hsliceExtend
  have hinitial : pool blockSize blocks counts sliceCount =
      newBlocks page blockSize extend := by
    rw [hn, pool_initial blockSize
      (pageBlockAt page.pageStart blockSize page.capacity)
      (extend / sliceCount) (extend % sliceCount) n]
    · rw [newBlocks, ← hn, Nat.div_add_mod]
    · intro s
      simp only [blocks, pageBlockAt]
      ring
    · intro s hs
      simp only [counts, secureCounts]
      rw [if_neg (by omega)]
    · simp only [counts, secureCounts]
      rw [if_pos (by omega)]
  have hnodup : (newBlocks page blockSize extend).Nodup :=
    nodup_blockRun hpos _ _
  have hlength : (newBlocks page blockSize extend).length = extend := by
    simp [newBlocks]
  let st : SecureExtend :=
    { blocks := blocks
      counts := Function.update counts current (counts current - 1)
      current := current
      rnd := randomShuffle (r ||| 1)
      links := page.links }
  have hstart : SecureProgress blockSize sliceCount page.links
      (blocks current) (newBlocks page blockSize extend) st
        [blocks current] := by
    refine ⟨hcurrent, ⟨[], rfl⟩, ?_, ?_, fun _ _ => rfl⟩
    · refine ⟨rfl, ?_⟩
      rw [Function.update_self]
      rfl
    · rw [← hinitial]
      exact (pool_pick blockSize blocks hcurrent hcount).symm
  obtain ⟨st', l, hrounds, hdone, hall⟩ :=
    hstart.rounds (extend - 1) 1 hnodup (by
      rw [hlength, List.length_singleton]
      omega)
  have hperm : l.Perm (newBlocks page blockSize extend) := by
    have hpool : pool blockSize (st'.starts blockSize) st'.counts sliceCount
        = [] := by
      have hsum := hdone.blocks.length_eq
      rw [List.length_append] at hsum
      exact List.eq_nil_of_length_eq_zero (by omega)
    have hblocks := hdone.blocks
    rwa [hpool, List.append_nil] at hblocks
  obtain ⟨before, hbefore⟩ := hdone.last
  have hlastMem : st'.blocks st'.current ∈ l := by
    rw [hbefore]
    simp
  refine ⟨_, l, by
    simp only [pageFreeListExtendSecure]
    rw [← hslice, hrounds], hperm, rfl, ?_, ?_⟩
  · intro addr haddr
    simp only [PageFields.blockSetNext]
    rw [Function.update_of_ne, hdone.frame addr haddr]
    rintro rfl
    exact haddr hlastMem
  · intro rest hrest hdisjoint
    have hrest' : IsChain
        (Function.update st'.links (st'.blocks st'.current) none)
          page.free rest := by
      apply hrest.congr
      intro addr haddr
      have hout := hdisjoint addr haddr
      rw [Function.update_of_ne, hdone.frame addr hout]
      rintro rfl
      exact hout hlastMem
    have hlastNot : st'.blocks st'.current ∉ rest := fun hmem =>
      hdisjoint _ hmem hlastMem
    have hchain := hdone.chain
    rw [hbefore] at hchain ⊢
    have hspliced := hchain.splice hrest' hlastNot
    rw [Function.update_idem] at hspliced
    simp only [List.append_assoc, List.singleton_append]
    exact hspliced

/-- For every random number the randomized extension returns, and the new free
list has every new block once, and behind them the old list. -/
theorem secure_extension_permutes {page : PageFields} {extend : ℕ}
    {rest : List Addr} (r : BitVec 64) (hpos : 0 < page.blockSize)
    (hextend : 0 < extend) (hchain : IsChain page.links page.free rest)
    (hrest : ∀ block ∈ rest, ∃ i < page.capacity,
      block = pageBlockAt page.pageStart page.blockSize i) :
    ∃ page' new,
      pageFreeListExtendSecure page page.blockSize extend r = some page' ∧
        new.Perm ((List.range extend).map fun i =>
          pageBlockAt page.pageStart page.blockSize (page.capacity + i)) ∧
        IsChain page'.links page'.free (new ++ rest) ∧
        (new ++ rest).Nodup ∧
        (∀ block ∉ new, page'.links block = page.links block) ∧
        page' = { page with links := page'.links, free := page'.free } := by
  obtain ⟨page', new, hrun, hperm, hextended⟩ :=
    pageFreeListExtendSecure_spec r hpos hextend
  have hblocks : newBlocks page page.blockSize extend =
      (List.range extend).map fun i =>
        pageBlockAt page.pageStart page.blockSize (page.capacity + i) := by
    unfold newBlocks blockRun
    apply List.ext_getElem
    · simp
    · intro i _ _
      rw [List.getElem_range', List.getElem_map, List.getElem_range]
      unfold pageBlockAt
      ring
  have hdisjoint : ∀ block ∈ rest, block ∉ new := by
    intro block hblock hnew
    obtain ⟨i, hi, rfl⟩ := hrest block hblock
    rw [hperm.mem_iff, hblocks] at hnew
    obtain ⟨k, -, hk⟩ := List.mem_map.mp hnew
    have hindex := Nat.eq_of_mul_eq_mul_right hpos (Nat.add_left_cancel hk)
    omega
  have hnewChain := hextended.chain rest hchain hdisjoint
  rw [hblocks] at hperm
  exact ⟨page', new, hrun, hperm, hnewChain, hnewChain.nodup,
    hextended.frame, hextended.fields⟩

/-- Ten blocks behind one that is free. -/
theorem secure_extension_permutes_ten :
    let page := { PageFields.zero with
      capacity := 1, reserved := 11, blockSize := 16, free := some 0 }
    ∃ page' new,
      pageFreeListExtendSecure page 16 10 5 = some page' ∧
        new.Perm [16, 32, 48, 64, 80, 96, 112, 128, 144, 160] ∧
        IsChain page'.links page'.free (new ++ [0]) := by
  intro page
  have hchain : IsChain page.links page.free [0] := ⟨rfl, rfl⟩
  have hrest : ∀ block ∈ [0], ∃ i < page.capacity,
      block = pageBlockAt page.pageStart page.blockSize i := by
    intro block hblock
    exact ⟨0, by decide, List.mem_singleton.mp hblock⟩
  obtain ⟨page', new, hrun, hperm, hnew, -⟩ :=
    @secure_extension_permutes page 10 [0] 5 (by decide) (by decide) hchain
      hrest
  exact ⟨page', new, hrun, hperm, hnew⟩

end Palloc
