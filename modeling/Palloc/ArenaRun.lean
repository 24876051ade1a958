import Palloc.ArenaOwnership

/-!
# Runs of the arenas

Registering, allocating, freeing and purging in any order: the blocks in use
are those of the live allocations and the leftover bits.
-/

namespace Palloc

open BitFields MachineWord

variable {arena arena' : Arena} {st : Arenas} {index : ℕ}

/-! ## The operations in terms of ownership -/

theorem manageOsMemory_spec {area : OsArea} {exclusive metaOk : Bool}
    (hmanage : manageOsMemory area exclusive metaOk = some arena) :
    arena.fieldCount = divideUp arena.blockCount 64 ∧
    (∀ b, bit arena.blocksInuse b = true ↔
      arena.blockCount ≤ b ∧ b < 64 * arena.fieldCount) := by
  unfold manageOsMemory at hmanage
  split at hmanage
  · cases hmanage
  dsimp only at hmanage
  split at hmanage
  · cases hmanage
  split at hmanage
  · cases hmanage
  injection hmanage with hmanage
  subst hmanage
  refine ⟨rfl, ?_⟩
  generalize (if area.start % arenaBlockSize ≠ 0 then
    area.size - (wordAlignUp area.start arenaBlockSize - area.start)
    else area.size) / arenaBlockSize = bcount
  intro b
  have hempty : bit (fun _ => 0) b = false := BitVec.getLsbD_zero
  have hfields : bcount ≤ divideUp bcount 64 * 64 ∧
      divideUp bcount 64 * 64 < bcount + 64 := by
    unfold divideUp
    omega
  dsimp only
  by_cases hpost : 0 < divideUp bcount 64 * 64 - bcount
  · rw [if_pos hpost]
    have hstart : 64 * (divideUp bcount 64 - 1) +
        (64 - (divideUp bcount 64 * 64 - bcount)) = bcount := by omega
    rw [hstart]
    have hsets := @bitmapClaim_spec (divideUp bcount 64 * 64 - bcount) bcount
      (fun _ => 0) (by omega)
    have hend : bcount + (divideUp bcount 64 * 64 - bcount) =
        64 * divideUp bcount 64 := by omega
    rw [hsets b, hempty, Bool.false_or, decide_eq_true_eq, hend]
  · rw [if_neg hpost, hempty]
    simp only [Bool.false_eq_true, false_iff, not_and, not_lt]
    omega

/-- An allocation fails without a trace, or claims the range that its address
and `memid` denote. -/
theorem Arena.tryAllocAt_spec (arena : Arena) {blocks : ℕ} (hpos : 0 < blocks)
    (commit commitOk commitZero : Bool) :
    (∃ arena', arena.tryAllocAt blocks commit commitOk commitZero =
        (none, arena') ∧ arena'.view = arena.view ∧
      ¬ SearchedRun arena.blocksInuse arena.fieldCount blocks) ∨
    ∃ p memid arena' inuse,
      arena.tryAllocAt blocks commit commitOk commitZero =
        (some (p, memid), arena') ∧
      p = arena.blockStart memid.blockIndex ∧
      memid.arenaId = arena.id ∧
      arena'.view = { arena.view with blocksInuse := inuse } ∧
      Claimed arena.fieldCount blocks memid.blockIndex arena.blocksInuse
        inuse := by
  unfold tryAllocAt tryClaim
  rcases tryFindFromClaimAcross_spec arena.blocksInuse arena.fieldCount 0 hpos
    with ⟨heq, hnone⟩ | ⟨b, inuse, heq, hclaimed⟩
  · rw [heq]
    exact Or.inl ⟨_, rfl, rfl, hnone⟩
  · rw [heq]
    exact Or.inr ⟨_, _, _, inuse, rfl, rfl, rfl, rfl, hclaimed⟩

theorem Arenas.setArena_arenas (st : Arenas) (index : ℕ) (arena : Arena) :
    (st.setArena index arena).arenas.map Arena.view =
      (st.arenas.map Arena.view).set index arena.view := by
  show (st.arenas.set index arena).map Arena.view = _
  rw [List.map_set]

theorem getElem?_view (harena : st.arenas[index]? = some arena) :
    (st.arenas.map Arena.view)[index]? = some arena.view := by
  rw [List.getElem?_map, harena]
  rfl

theorem exists_of_view {view : ArenaView}
    (hview : (st.arenas.map Arena.view)[index]? = some view) :
    ∃ arena, st.arenas[index]? = some arena ∧ arena.view = view := by
  rw [List.getElem?_map] at hview
  exact Option.map_eq_some_iff.mp hview

/-- Freeing clears the freed range of the blocks in use, whatever is purged
meanwhile. -/
theorem Arenas.free_spec (st : Arenas) (env envPass : ArenaEnv)
    {size blocks : ℕ} (committedSize : ℕ) {memid : ArenaMemid}
    (hsize : size ≠ 0)
    (hblocks : divideUp size arenaBlockSize = blocks)
    (harena : st.arenas[memid.arenaId - 1]? = some arena)
    (hfield : memid.blockIndex / 64 < arena.fieldCount) :
    ∃ inuse, Clears arena.blocksInuse inuse memid.blockIndex
        (memid.blockIndex + blocks) ∧
      (st.free env envPass size committedSize memid).arenas.map Arena.view =
        (st.arenas.map Arena.view).set (memid.arenaId - 1)
          { arena.view with blocksInuse := inuse } := by
  refine ⟨(bitmapUnclaimAcross arena.blocksInuse blocks memid.blockIndex).2,
    (bitmapUnclaimAcross_spec _ _ _).1, ?_⟩
  unfold Arenas.free
  rw [hblocks]
  dsimp only
  rw [if_neg hsize, harena]
  dsimp only
  rw [if_neg (not_le.mpr hfield)]
  generalize hst₁ : (if arena.isPinned ∨ arena.blocksCommitted.isNone then st
    else _) = st₁
  have hview : st₁.arenas.map Arena.view = st.arenas.map Arena.view := by
    rw [← hst₁]
    split
    · rfl
    · generalize hfreed : (if committedSize = size then arena
        else _) = freed
      have hfreedView : freed.view = arena.view := by
        rw [← hfreed]
        split <;> rfl
      have hset : (st.setArena (memid.arenaId - 1) freed).arenas[
          memid.arenaId - 1]? = some freed := by
        have hlt := (List.getElem?_eq_some_iff.mp harena).1
        show (st.arenas.set _ freed)[memid.arenaId - 1]? = _
        simp [hlt]
      rw [Arenas.schedulePurge_view _ env _ _ hset rfl,
        st.setArena_view harena hfreedView]
  have hthere : (st₁.arenas.map Arena.view)[memid.arenaId - 1]? =
      some arena.view := by
    rw [hview]
    exact getElem?_view harena
  rcases exists_of_view hthere with ⟨arena₁, harena₁, hview₁⟩
  have hinuse : arena₁.blocksInuse = arena.blocksInuse :=
    congrArg ArenaView.blocksInuse hview₁
  rw [harena₁]
  dsimp only
  rw [hinuse]
  have hresult : ∀ inuse, (st₁.setArena (memid.arenaId - 1)
      { arena₁ with blocksInuse := inuse }).arenas.map Arena.view =
        (st.arenas.map Arena.view).set (memid.arenaId - 1)
          { arena.view with blocksInuse := inuse } := by
    intro inuse
    rw [Arenas.setArena_arenas, hview, ← hview₁]
    rfl
  split
  · exact hresult _
  · rw [Arenas.tryPurge_view]
    exact hresult _

/-! ## Runs -/

structure ArenaRun where
  st : Arenas
  live : List LiveBlocks

inductive ArenaCall where
  | manage (area : OsArea) (exclusive metaOk : Bool)
  | alloc (index size : ℕ) (commit commitOk commitZero : Bool)
  | free (k size committedSize : ℕ) (env envPass : ArenaEnv)
  | tryPurge (env : ArenaEnv) (force visitAll : Bool)

def ArenaRun.call (run : ArenaRun) : ArenaCall → ArenaRun
  | .manage area exclusive metaOk =>
      { run with st := run.st.manage area exclusive metaOk }
  | .alloc index size commit commitOk commitZero =>
      match run.st.arenas[index]? with
      | none => run
      | some arena =>
          if size = 0 then run
          else
            let blocks := divideUp size arenaBlockSize
            match arena.tryAllocAt blocks commit commitOk commitZero with
            | (none, arena) =>
                { run with st := run.st.setArena index arena }
            | (some (p, memid), arena) =>
                ⟨run.st.setArena index arena, ⟨p, memid, blocks⟩ :: run.live⟩
  | .free k size committedSize env envPass =>
      match run.live[k]? with
      | none => run
      | some l =>
          if size = 0 ∨ divideUp size arenaBlockSize ≠ l.blocks then run
          else
            ⟨run.st.free env envPass size committedSize l.memid,
              run.live.eraseIdx k⟩
  | .tryPurge env force visitAll =>
      { run with st := run.st.tryPurge env force visitAll }

def ArenaRun.Owned (run : ArenaRun) : Prop :=
  Ownership (run.st.arenas.map Arena.view) run.live

variable {run : ArenaRun}

theorem divideUp_pos {size divider : ℕ} (hsize : size ≠ 0)
    (hdivider : 0 < divider) : 0 < divideUp size divider := by
  unfold divideUp
  exact Nat.div_pos (by omega) hdivider

theorem ArenaRun.Owned.placed (howned : run.Owned) {l : LiveBlocks}
    (hl : l ∈ run.live) :
    ∃ arena, run.st.arenas[l.memid.arenaId - 1]? = some arena ∧
      l.Placed (l.memid.arenaId - 1) arena.view := by
  rcases Ownership.placed howned l hl with ⟨i, view, hview, hplaced⟩
  rcases exists_of_view hview with ⟨arena, harena, rfl⟩
  have hi : l.memid.arenaId - 1 = i := by
    rw [hplaced.arenaId_eq, Nat.add_sub_cancel]
  rw [hi]
  exact ⟨arena, harena, hplaced⟩

theorem LiveBlocks.Placed.field_lt {l : LiveBlocks} {i : ℕ}
    (hplaced : l.Placed i arena.view)
    (hfields : arena.fieldCount = divideUp arena.blockCount 64) :
    l.memid.blockIndex / 64 < arena.fieldCount := by
  have hpos := hplaced.pos
  have hinside : l.memid.blockIndex + l.blocks ≤ arena.blockCount :=
    hplaced.inside
  rw [hfields]
  unfold divideUp
  omega

theorem ArenaRun.Owned.call (howned : run.Owned) (call : ArenaCall) :
    (run.call call).Owned := by
  cases call with
  | manage area exclusive metaOk =>
      show Ownership ((run.st.manage area exclusive metaOk).arenas.map _) _
      unfold Arenas.manage
      cases hmanage : manageOsMemory area exclusive metaOk with
      | none => exact howned
      | some arena =>
          dsimp only
          split
          · rw [List.map_append]
            rcases manageOsMemory_spec hmanage with ⟨hfields, hinuse⟩
            refine Ownership.manage howned ?_ hfields hinuse
            rw [List.length_map]
            rfl
          · exact howned
  | alloc index size commit commitOk commitZero =>
      unfold ArenaRun.call
      dsimp only
      cases harena : run.st.arenas[index]? with
      | none => exact howned
      | some arena =>
          dsimp only
          by_cases hsize : size = 0
          · rw [if_pos hsize]
            exact howned
          rw [if_neg hsize]
          have hpos : 0 < divideUp size arenaBlockSize :=
            divideUp_pos hsize (by decide)
          generalize divideUp size arenaBlockSize = blocks at hpos ⊢
          have hview := getElem?_view harena
          rcases arena.tryAllocAt_spec hpos commit commitOk commitZero with
            ⟨arena', heq, hsame, -⟩ |
            ⟨p, memid, arena', inuse, heq, hp, hid, hsame, hclaimed⟩
          · rw [heq]
            show Ownership ((run.st.setArena index arena').arenas.map _) _
            rw [run.st.setArena_view harena hsame]
            exact howned
          · rw [heq]
            show Ownership ((run.st.setArena index arena').arenas.map _) _
            rw [Arenas.setArena_arenas, hsame]
            refine Ownership.alloc howned hview hpos hclaimed ?_ rfl rfl hp
            rw [hid]
            exact Ownership.id_eq howned index arena.view hview
  | free k size committedSize env envPass =>
      unfold ArenaRun.call
      dsimp only
      cases hl : run.live[k]? with
      | none => exact howned
      | some l =>
          dsimp only
          by_cases hguard : size = 0 ∨
              divideUp size arenaBlockSize ≠ l.blocks
          · rw [if_pos hguard]
            exact howned
          rw [if_neg hguard]
          rcases not_or.mp hguard with ⟨hsize, hblocks⟩
          rcases howned.placed (List.mem_of_getElem? hl) with
            ⟨arena, harena, hplaced⟩
          have hview := getElem?_view harena
          have hfields : arena.fieldCount = divideUp arena.blockCount 64 :=
            Ownership.fields_eq howned _ arena.view hview
          rcases run.st.free_spec env envPass committedSize hsize
            (not_not.mp hblocks) harena (hplaced.field_lt hfields) with
            ⟨inuse, hclears, heq⟩
          show Ownership ((run.st.free env envPass size committedSize
            l.memid).arenas.map _) _
          rw [heq]
          exact Ownership.free howned hl hview hplaced.arenaId_eq hclears
  | tryPurge env force visitAll =>
      show Ownership ((run.st.tryPurge env force visitAll).arenas.map _) _
      rw [Arenas.tryPurge_view]
      exact howned

def runArenas (calls : List ArenaCall) : ArenaRun :=
  calls.foldl ArenaRun.call ⟨⟨[], 0⟩, []⟩

theorem ArenaRun.Owned.afterCalls (howned : run.Owned) (calls : List ArenaCall) :
    (calls.foldl ArenaRun.call run).Owned := by
  induction calls generalizing run with
  | nil => exact howned
  | cons call calls ih => exact ih (howned.call call)

/-- After any calls the live allocations own disjoint ranges of blocks, which
their addresses and `memid`s denote, the blocks in use are theirs and the
leftover bits, and freeing one of them clears exactly its range. -/
theorem arena_blocks_run (calls : List ArenaCall) (run : ArenaRun)
    (hrun : run = runArenas calls) :
    (∀ l ∈ run.live, ∃ arena,
      run.st.arenas[l.memid.arenaId - 1]? = some arena ∧
      l.memid.arenaId = arena.id ∧
      l.p = arena.blockStart l.memid.blockIndex ∧ 0 < l.blocks ∧
      l.memid.blockIndex + l.blocks ≤ arena.blockCount) ∧
    run.live.Pairwise LiveBlocks.Apart ∧
    (∀ (i : ℕ) (arena : Arena), run.st.arenas[i]? = some arena →
      arena.id = i + 1 ∧ arena.blockCount ≤ 64 * arena.fieldCount ∧
      ∀ b, bit arena.blocksInuse b = true ↔
        (∃ l ∈ run.live, l.Covers arena.id b) ∨
          (arena.blockCount ≤ b ∧ b < 64 * arena.fieldCount)) ∧
    (∀ (k : ℕ) (l : LiveBlocks) (size committedSize : ℕ)
      (env envPass : ArenaEnv) (i : ℕ) (arena arena' : Arena),
      run.live[k]? = some l → size ≠ 0 →
      divideUp size arenaBlockSize = l.blocks →
      run.st.arenas[i]? = some arena →
      (run.st.free env envPass size committedSize l.memid).arenas[i]? =
        some arena' →
      if arena.id = l.memid.arenaId then
        Clears arena.blocksInuse arena'.blocksInuse l.memid.blockIndex
          (l.memid.blockIndex + l.blocks)
      else arena'.blocksInuse = arena.blocksInuse) := by
  have howned : run.Owned := by
    have hstart : ArenaRun.Owned ⟨⟨[], 0⟩, []⟩ := Ownership.initial
    rw [hrun]
    exact hstart.afterCalls calls
  have hid : ∀ {i : ℕ} {arena : Arena}, run.st.arenas[i]? = some arena →
      arena.id = i + 1 := fun harena =>
    Ownership.id_eq howned _ _ (getElem?_view harena)
  refine ⟨?_, howned.apart, ?_, ?_⟩
  · intro l hl
    rcases howned.placed hl with ⟨arena, harena, hplaced⟩
    exact ⟨arena, harena, hplaced.arenaId_eq.trans (hid harena).symm,
      hplaced.p_eq, hplaced.pos, hplaced.inside⟩
  · intro i arena harena
    have hview := getElem?_view harena
    refine ⟨hid harena, Ownership.blockCount_le howned hview, ?_⟩
    intro b
    rw [hid harena]
    exact Ownership.inuse howned i arena.view hview b
  · intro k l size committedSize env envPass i arena arena' hl hsize hblocks
      harena harena'
    rcases howned.placed (List.mem_of_getElem? hl) with
      ⟨owner, howner, hplaced⟩
    have hfields : owner.fieldCount = divideUp owner.blockCount 64 :=
      Ownership.fields_eq howned _ owner.view (getElem?_view howner)
    rcases run.st.free_spec env envPass committedSize hsize hblocks howner
      (hplaced.field_lt hfields) with ⟨inuse, hclears, heq⟩
    have hview' := getElem?_view harena'
    rw [heq, getElem?_set_view (getElem?_view howner)] at hview'
    have harenaId := hplaced.arenaId_eq
    have hidi := hid harena
    rcases hview' with ⟨hi, hview'⟩ | ⟨hne, hview'⟩
    · subst hi
      rw [harena] at howner
      cases howner
      rw [if_pos (hidi.trans harenaId.symm)]
      have hinuse : arena'.blocksInuse = inuse :=
        congrArg ArenaView.blocksInuse hview'
      rw [hinuse]
      exact hclears
    · rw [if_neg (by omega)]
      rw [getElem?_view harena] at hview'
      injection hview' with hview'
      exact congrArg ArenaView.blocksInuse hview'.symm

def threeBlocks : OsArea where
  start := 3 * 1024 * 1024 * 1024
  size := 3 * arenaBlockSize
  initiallyCommitted := false
  initiallyZero := true
  isPinned := false
  end_le := by decide

def promptEnv : ArenaEnv := ⟨0, false, 0, fun _ => 0, fun _ _ _ => true⟩

/-- Two blocks are freed, and the next two allocations take the lower one and
the upper one again. -/
theorem arena_blocks_run_threeBlocks :
    ∃ run : ArenaRun, run.live.map (fun l => (l.memid.blockIndex, l.blocks)) =
        [(1, 1), (0, 1), (2, 1)] ∧ run.live.Pairwise LiveBlocks.Apart :=
  ⟨_, by decide +kernel, (arena_blocks_run
    [.manage threeBlocks false true,
      .alloc 0 (2 * arenaBlockSize) true true true,
      .alloc 0 arenaBlockSize true false true,
      .free 1 (2 * arenaBlockSize) (2 * arenaBlockSize) promptEnv promptEnv,
      .tryPurge promptEnv true true,
      .alloc 0 arenaBlockSize true true true,
      .alloc 0 arenaBlockSize true true true] _ rfl).2.1⟩

/-! ## Searching -/

/-- With nobody else at work, the search claims a clear run, fails without a
trace, and does not fail if there is a run of those it is made for; so neither
does an allocation. -/
theorem bitmap_search_finds (bitmap : Fields)
    (bitmapFields startFieldIdx count : ℕ) (hpos : 0 < count) :
    let result :=
      tryFindFromClaimAcross bitmap bitmapFields startFieldIdx count
    (SearchedRun bitmap bitmapFields count → result.1.isSome = true) ∧
    (∀ b, result.1 = some b → Clear bitmap b (b + count) ∧
      b + count ≤ 64 * bitmapFields ∧ Sets bitmap result.2 b (b + count)) ∧
    (result.1 = none → result.2 = bitmap) ∧
    (∀ (arena : Arena) (commit commitOk commitZero : Bool),
      SearchedRun arena.blocksInuse arena.fieldCount count →
        (arena.tryAllocAt count commit commitOk commitZero).1.isSome =
          true) := by
  intro result
  refine ⟨?_, ?_, ?_, ?_⟩
  · intro hrun
    rcases tryFindFromClaimAcross_spec bitmap bitmapFields startFieldIdx hpos
      with ⟨-, hnone⟩ | ⟨b, bitmap', heq, -⟩
    · exact absurd hrun hnone
    · show result.1.isSome = true
      rw [show result = _ from heq]
      rfl
  · intro b hb
    rcases tryFindFromClaimAcross_spec bitmap bitmapFields startFieldIdx hpos
      with ⟨heq, -⟩ | ⟨b', bitmap', heq, hclaimed⟩
    · rw [show result = _ from heq] at hb
      cases hb
    · rw [show result = _ from heq] at hb ⊢
      cases hb
      exact ⟨hclaimed.clear, hclaimed.inside, hclaimed.sets⟩
  · intro hnone
    rcases tryFindFromClaimAcross_spec bitmap bitmapFields startFieldIdx hpos
      with ⟨heq, -⟩ | ⟨b, bitmap', heq, -⟩
    · exact congrArg Prod.snd heq
    · rw [show result = _ from heq] at hnone
      cases hnone
  · intro arena commit commitOk commitZero hrun
    rcases arena.tryAllocAt_spec hpos commit commitOk commitZero with
      ⟨arena', -, -, hnone⟩ | ⟨p, memid, arena', inuse, heq, -⟩
    · exact absurd hrun hnone
    · rw [heq]
      rfl

/-- The last bit of the first field and the first bit of the second are
clear. -/
def crossingBitmap : Fields := fun i =>
  if i = 0 then 0x7FFFFFFFFFFFFFFF#64
  else if i = 1 then 0xFFFFFFFFFFFFFFFE#64
  else 0

/-- The last two bits of the first field and the first bit of the second are
clear. -/
def threeCrossing : Fields := fun i =>
  if i = 0 then 0x3FFFFFFFFFFFFFFF#64
  else if i = 1 then 0xFFFFFFFFFFFFFFFE#64
  else 0

theorem bitmap_search_finds_crossing :
    Sets threeCrossing (tryFindFromClaimAcross threeCrossing 2 0 3).2 62 65 :=
  ((bitmap_search_finds threeCrossing 2 0 3 (by decide)).2.1 62
    (by decide +kernel)).2.2

/-- Runs of two bits that cross fields are not searched for. -/
theorem bitmap_search_misses_crossing :
    ¬ ∀ (bitmap : Fields) (bitmapFields startFieldIdx count : ℕ),
      0 < count → count ≤ bitmapFields * 64 →
      (∃ b, b + count ≤ 64 * bitmapFields ∧ Clear bitmap b (b + count)) →
      (tryFindFromClaimAcross bitmap bitmapFields startFieldIdx
        count).1.isSome = true := by
  intro hall
  have hfound := hall crossingBitmap 2 0 2 (by decide) (by decide)
    ⟨63, by decide, ?_⟩
  · revert hfound
    decide +kernel
  · intro b hlo hhi
    obtain rfl | rfl : b = 63 ∨ b = 64 := by omega
    · decide +kernel
    · decide +kernel

end Palloc
